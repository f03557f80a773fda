import Chimera.Pipe.Model

/-!
# A pipe is a stream

Any number of calls read from and write to one pipe, a chunk at a time and in any order. **`pipe_stream`**:
what has been read is a prefix of what has been written, what is between them is in the buffer, and each
writer's bytes go in as it wrote them.
-/

namespace Chimera

open Lib
open Function (update update_self update_of_ne)

/-! ## One chunk -/

/-- The bytes in the buffer. -/
def Pipe.contents (p : Pipe) : List (BitVec 8) := ringContents pipeBufSize p.buf p.tail p.count

/-- **The invariant of the ring.** -/
structure Pipe.Ok (p : Pipe) : Prop where
  tail_lt : p.tail < pipeBufSize
  count_le : p.count ≤ pipeBufSize
  head_eq : p.head = (p.tail + p.count) % pipeBufSize

lemma pipeInit_ok (p : Pipe) : (pipeInit p).Ok := ⟨Nat.zero_lt_succ _, Nat.zero_le _, rfl⟩

section rounds

variable {p p' : Pipe}

/-- **A round of a read** takes its chunk off the front of the buffer, or changes nothing. -/
lemma Pipe.Ok.read (h : p.Ok) {resid totalRead : ℕ} {r : PipeRead}
    (hr : pipeReadRound p resid totalRead = (r, p')) :
    p'.Ok ∧ (p' = p ∧ (r = .done ∨ r = .sleep) ∨
      ∃ bs, r = .chunk bs ∧ p.contents = bs ++ p'.contents ∧ bs.length ≤ resid) := by
  unfold pipeReadRound at hr
  by_cases hcount : p.count = 0
  · rw [if_pos hcount] at hr
    split_ifs at hr
    · cases hr
      exact ⟨h, .inl ⟨rfl, .inl rfl⟩⟩
    · cases hr
      exact ⟨h, .inl ⟨rfl, .inr rfl⟩⟩
  · rw [if_neg hcount] at hr
    cases hr
    have hle : min (min resid pipeChunk) p.count ≤ p.count := min_le_right _ _
    refine ⟨⟨Nat.mod_lt _ (by decide), (Nat.sub_le _ _).trans h.count_le, ?_⟩, .inr ⟨_, rfl, ?_, ?_⟩⟩
    · rw [h.head_eq, Nat.mod_add_mod, Nat.add_assoc, Nat.add_sub_cancel' hle]
    · exact ringContents_split hle
    · rw [length_ringContents]
      exact (min_le_left _ _).trans (min_le_left _ _)

/-- **A round of a write** puts a chunk at the end of the buffer where there is room for it, or changes
nothing. -/
lemma Pipe.Ok.write (h : p.Ok) {data : List (BitVec 8)} {r : PipeWrite}
    (hr : pipeWriteRound p data = (r, p')) :
    p'.Ok ∧ (p' = p ∧ (r = .broken ∨ r = .sleep) ∨ ∃ n, r = .wrote n ∧ p.count + n ≤ pipeBufSize ∧ n ≤ data.length ∧
        p'.contents = p.contents ++ data.take n) := by
  unfold pipeWriteRound at hr
  by_cases hreaders : p.readers = 0
  · rw [if_pos hreaders] at hr
    cases hr
    exact ⟨h, .inl ⟨rfl, .inl rfl⟩⟩
  rw [if_neg hreaders] at hr
  by_cases hfull : pipeBufSize ≤ p.count
  · rw [if_pos hfull] at hr
    cases hr
    exact ⟨h, .inl ⟨rfl, .inr rfl⟩⟩
  rw [if_neg hfull] at hr
  cases hr
  generalize hn : min (data.take pipeChunk).length (pipeBufSize - p.count) = n
  have hcount : p.count + n ≤ pipeBufSize := by omega
  have hchunk : n ≤ (data.take pipeChunk).length := hn ▸ min_le_left _ _
  have hdata : n ≤ data.length := hchunk.trans (List.length_take_le' _ _)
  refine ⟨⟨h.tail_lt, hcount, ?_⟩, .inr ⟨n, rfl, hcount, hdata, ?_⟩⟩
  · rw [h.head_eq, Nat.mod_add_mod, Nat.add_assoc]
  · have hbytes : (List.range n).map (fun i => (data.take pipeChunk).getD i 0) = data.take n := by
      apply List.ext_getElem
      · rw [List.length_map, List.length_range, List.length_take, min_eq_left hdata]
      · intro i hi _
        rw [List.length_map, List.length_range] at hi
        rw [List.getElem_map, List.getElem_range, ← List.getElem_eq_getD 0, List.getElem_take, List.getElem_take]
        exact hi.trans_le hchunk
    dsimp only [Pipe.contents]
    rw [h.head_eq, ringContents_write hcount, hbytes]

end rounds

/-! ## Runs -/

/-- A write call: its bytes, and how many of them have gone into the pipe. -/
structure WriteCall where
  data : List (BitVec 8)
  sent : ℕ
  deriving DecidableEq, Repr

/-- A pipe and the calls on it, with a record of all the bytes that went in, by writer, and of all that
came out. -/
structure Traffic where
  pipe : Pipe
  /-- The bytes each reader has still to read; `0` where it has no call. -/
  resid : ℕ → ℕ
  totalRead : ℕ → ℕ
  /-- The write calls of each writer in program order. -/
  calls : ℕ → List WriteCall
  /-- The writers that are in the last one of their calls. -/
  writing : ℕ → Bool
  inserted : List (ℕ × BitVec 8)
  removed : List (BitVec 8)

namespace Traffic

/-- The bytes that went in. -/
def stream (s : Traffic) : List (BitVec 8) := s.inserted.map Prod.snd

/-- The bytes that went in from one writer. -/
def streamOf (s : Traffic) (w : ℕ) : List (BitVec 8) :=
  (s.inserted.filter fun x => x.1 = w).map Prod.snd

/-- A round of reader `r`. -/
def read (s : Traffic) (r : ℕ) : Traffic :=
  match pipeReadRound s.pipe (s.resid r) (s.totalRead r) with
  | (.done, p) => { s with pipe := p, resid := update s.resid r 0 }
  | (.sleep, p) => { s with pipe := p }
  | (.chunk bytes, p) => { s with
      pipe := p
      resid := update s.resid r (s.resid r - bytes.length)
      totalRead := update s.totalRead r (s.totalRead r + bytes.length)
      removed := s.removed ++ bytes }

/-- A round of writer `w`, in its call `c` after the calls `cs`. -/
def write (s : Traffic) (w : ℕ) (cs : List WriteCall) (c : WriteCall) : Traffic :=
  match pipeWriteRound s.pipe (c.data.drop c.sent) with
  | (.broken, p) => { s with pipe := p, writing := update s.writing w false }
  | (.sleep, p) => { s with pipe := p }
  | (.wrote n, p) => { s with
      pipe := p
      calls := update s.calls w (cs ++ [{ c with sent := c.sent + n }])
      writing := update s.writing w (c.sent + n < c.data.length)
      inserted := s.inserted ++ ((c.data.drop c.sent).take n).map (w, ·) }

end Traffic

/-- One step: a call begins, a call goes through a round, or an end of the pipe is opened or closed. -/
inductive TrafficStep (s : Traffic) : Traffic → Prop
  | beginRead (r n : ℕ) (hr : s.resid r = 0) : TrafficStep s { s with
      resid := update s.resid r n, totalRead := update s.totalRead r 0 }
  | beginWrite (w : ℕ) (data : List (BitVec 8)) (hw : s.writing w = false) : TrafficStep s { s with
      calls := update s.calls w (s.calls w ++ [⟨data, 0⟩])
      writing := update s.writing w (0 < data.length) }
  | read (r : ℕ) (hr : 0 < s.resid r) : TrafficStep s (s.read r)
  | write (w : ℕ) (cs : List WriteCall) (c : WriteCall) (hw : s.writing w = true)
      (hc : s.calls w = cs ++ [c]) : TrafficStep s (s.write w cs c)
  | ends (readers writers : ℕ) (active : Bool) : TrafficStep s { s with
      pipe := { s.pipe with readers := readers, writers := writers, active := active } }

/-- The runs on a pipe that `pipe_create` has just set up. -/
inductive TrafficRun (old : Pipe) : Traffic → Prop
  | start : TrafficRun old ⟨pipeInit old, fun _ => 0, fun _ => 0, fun _ => [], fun _ => false, [], []⟩
  | step {s s' : Traffic} (hrun : TrafficRun old s) (hstep : TrafficStep s s') : TrafficRun old s'

/-! ## The stream -/

/-- The bytes that the calls of a writer have put in, in program order. -/
def sentBy (cs : List WriteCall) : List (BitVec 8) := cs.flatMap fun c => c.data.take c.sent

/-- **The invariant**: the ring is in order, what is not yet read is in it, and each writer's part of the
stream is what its calls have sent. -/
structure Streamed (s : Traffic) : Prop where
  ok : s.pipe.Ok
  stream : s.stream = s.removed ++ s.pipe.contents
  order : ∀ w, s.streamOf w = sentBy (s.calls w)

section steps

variable {s s' : Traffic}

lemma Streamed.read (i : Streamed s) (r : ℕ) : Streamed (s.read r) := by
  rcases hres : pipeReadRound s.pipe (s.resid r) (s.totalRead r) with ⟨res, p⟩
  obtain ⟨hok, ⟨rfl, h⟩ | ⟨bytes, rfl, hbytes, -⟩⟩ := i.ok.read hres
  · rw [Traffic.read, hres]
    rcases h with rfl | rfl
    · exact ⟨hok, i.stream, i.order⟩
    · exact ⟨hok, i.stream, i.order⟩
  · rw [Traffic.read, hres]
    refine ⟨hok, ?_, i.order⟩
    calc s.stream = s.removed ++ s.pipe.contents := i.stream
      _ = (s.removed ++ bytes) ++ p.contents := by rw [hbytes, List.append_assoc]

/-- The new chunk belongs to the writer alone. -/
lemma streamOf_append (w u : ℕ) (bytes : List (BitVec 8)) :
    (((s.inserted ++ bytes.map (w, ·)).filter fun x => x.1 = u).map Prod.snd) =
      s.streamOf u ++ if u = w then bytes else [] := by
  rw [List.filter_append, List.map_append, Traffic.streamOf]
  congr 1
  split_ifs with hu
  · rw [List.filter_eq_self.mpr (by simp [hu]), List.map_map]
    exact List.map_id _
  · rw [List.filter_eq_nil_iff.mpr (by simp [Ne.symm hu]), List.map_nil]

lemma Streamed.write (i : Streamed s) {w : ℕ} {cs : List WriteCall} {c : WriteCall}
    (hc : s.calls w = cs ++ [c]) : Streamed (s.write w cs c) := by
  rcases hres : pipeWriteRound s.pipe (c.data.drop c.sent) with ⟨res, p⟩
  obtain ⟨hok, ⟨rfl, h⟩ | ⟨n, rfl, -, -, hbytes⟩⟩ := i.ok.write hres
  · rw [Traffic.write, hres]
    rcases h with rfl | rfl
    · exact ⟨hok, i.stream, i.order⟩
    · exact ⟨hok, i.stream, i.order⟩
  · rw [Traffic.write, hres]
    refine ⟨hok, ?_, fun u => ?_⟩
    · calc (s.inserted ++ ((c.data.drop c.sent).take n).map (w, ·)).map Prod.snd
          = s.stream ++ (c.data.drop c.sent).take n := by
            rw [List.map_append, List.map_map]
            exact congrArg _ (List.map_id _)
        _ = s.removed ++ p.contents := by rw [i.stream, hbytes, List.append_assoc]
    · refine (streamOf_append w u _).trans ?_
      dsimp only
      rw [i.order u]
      split_ifs with hu
      · rw [hu, update_self, hc]
        simp only [sentBy, List.flatMap_append, List.flatMap_singleton, List.append_assoc, List.take_add]
      · rw [update_of_ne hu, List.append_nil]

lemma Streamed.step (i : Streamed s) (hstep : TrafficStep s s') : Streamed s' := by
  cases hstep with
  | beginRead r n hr => exact ⟨i.ok, i.stream, i.order⟩
  | beginWrite w data hw =>
    refine ⟨i.ok, i.stream, fun u => (i.order u).trans ?_⟩
    dsimp only
    by_cases hu : u = w
    · rw [hu, update_self]
      simp [sentBy]
    · rw [update_of_ne hu]
  | read r hr => exact i.read r
  | write w cs c hw hc => exact i.write hc
  | ends readers writers active => exact ⟨⟨i.ok.tail_lt, i.ok.count_le, i.ok.head_eq⟩, i.stream, i.order⟩

lemma TrafficRun.streamed {old : Pipe} (h : TrafficRun old s) : Streamed s := by
  induction h with
  | start => exact ⟨pipeInit_ok old, rfl, fun _ => rfl⟩
  | step hrun hstep ih => exact ih.step hstep

end steps

/-- **A pipe is a stream.** In every run what came out is a prefix of what went in, the offsets and the
count of the ring agree, the bytes of each writer are in the stream in its program order, and a chunk
goes in only where there is room for all of it. -/
theorem pipe_stream {old : Pipe} {s : Traffic} (h : TrafficRun old s) :
    s.removed <+: s.stream ∧ (0 ≤ s.pipe.count ∧ s.pipe.count ≤ 65536) ∧
      s.pipe.head = (s.pipe.tail + s.pipe.count) % 65536 ∧
      (∀ w, s.streamOf w = sentBy (s.calls w)) ∧
      ∀ data n p, pipeWriteRound s.pipe data = (.wrote n, p) → s.pipe.count + n ≤ 65536 := by
  have i := h.streamed
  refine ⟨?_, ⟨Nat.zero_le _, i.ok.count_le⟩, i.ok.head_eq, i.order, fun data n p hr => ?_⟩
  · rw [i.stream]
    exact List.prefix_append _ _
  · obtain ⟨-, ⟨-, h | h⟩ | ⟨m, hm, hroom, -⟩⟩ := i.ok.write hr
    · cases h
    · cases h
    · rw [PipeWrite.wrote.inj hm]
      exact hroom

/-- One byte goes in and comes out. -/
theorem pipe_stream_echo : ∃ s : Traffic,
    TrafficRun ⟨fun _ => 0, 0, 0, 0, 0, 0, false⟩ s ∧ s.removed = [7] ∧ s.removed <+: s.stream := by
  have h0 : TrafficRun ⟨fun _ => 0, 0, 0, 0, 0, 0, false⟩ _ := .start
  have h1 := h0.step (.beginWrite 3 [7] rfl)
  have h2 := h1.step (.write 3 [] ⟨[7], 0⟩ rfl rfl)
  have h3 := h2.step (.beginRead 5 1 rfl)
  have h4 := h3.step (.read 5 Nat.one_pos)
  exact ⟨_, h4, rfl, (pipe_stream h4).1⟩

end Chimera
