import Mathlib.Data.BitVec

/-!
# The receive ring: `kernel/drivers/net/e1000.c`

The network card writes frames into a ring of 32 descriptors and sets the `DD` bit of each one that it has
completed. `e1000_poll_rx` takes them out in ring order. It holds `sc->lock`, but gives the lock up while
`if_input` runs, before it clears the `DD` bit and moves `rx_cur`.

Each frame is passed to `if_input` exactly once and in order, the `DD` bit is cleared after the frame was
copied and `rx_cur` only goes forward (`frames_delivered_once`) as long as no second poll starts while
another one is inside `if_input`. Otherwise the second poll finds the same descriptor still completed
(`overlapping_polls_deliver_twice`).

Conventions. A poll is a sequence of steps, and the lock keeps the steps of different polls apart; the card
may complete descriptors at any time. The card owns the descriptors from `RDH` up to `RDT`. `log` is a
record of what happened, the latest first; no step reads it.
-/

namespace Chimera

open Function (update update_self update_of_ne)

/-! ## The driver -/

/-- The bytes of a frame. -/
abbrev Frame := List (BitVec 8)

/-- A descriptor and its buffer. -/
structure RxDesc where
  /-- `status & RDESC_STAT_DD`. -/
  dd : Bool
  /-- The first `length` bytes of the buffer. -/
  data : Frame
  deriving DecidableEq, Repr

/-- `E1000_NUM_RX_DESC`. -/
def numRxDesc : ℕ := 32

/-- Where an execution of `e1000_poll_rx` is. -/
inductive RxPhase where
  | idle
  /-- At the head of the loop, with the lock. -/
  | looping
  /-- About to call `if_input` with the copy of descriptor `cur`. -/
  | passing (cur : ℕ) (m : Frame)
  /-- Back from `if_input`, about to take the lock again. -/
  | relocking (cur : ℕ)
  deriving DecidableEq, Repr

/-- What happens, for the record. -/
inductive RxEvent where
  /-- The card completes descriptor `i`. -/
  | complete (i : ℕ) (frame : Frame)
  /-- Poll `p` copies the frame of descriptor `i`. -/
  | copy (p i : ℕ) (frame : Frame)
  /-- Poll `p` calls `if_input`. -/
  | input (p : ℕ) (frame : Frame)
  /-- Poll `p` clears the status of descriptor `i` and moves `rx_cur`. -/
  | consume (p i old new : ℕ)
  deriving DecidableEq, Repr

/-- `e1000_softc_t` as far as it is about receiving, and the polls. -/
structure E1000 where
  descs : ℕ → RxDesc
  rxCur : ℕ
  /-- `REG_RDH`. -/
  rdh : ℕ
  /-- `REG_RDT`. -/
  rdt : ℕ
  /-- Who holds `sc->lock`. -/
  lock : Option ℕ
  phase : ℕ → RxPhase
  log : List RxEvent

/-- Source: `e1000_init` -/
def E1000.init : E1000 :=
  ⟨fun _ => ⟨false, []⟩, 0, 0, numRxDesc - 1, none, fun _ => .idle, []⟩

/-- The card writes a frame into the next descriptor. -/
def E1000.complete (s : E1000) (frame : Frame) : E1000 :=
  { s with
    descs := update s.descs s.rdh ⟨true, frame⟩
    rdh := (s.rdh + 1) % numRxDesc
    log := .complete s.rdh frame :: s.log }

/-- The end of the loop body: clear the status, advance, give the descriptor back to the card. -/
def E1000.consume (s : E1000) (p cur : ℕ) : E1000 :=
  { s with
    descs := update s.descs cur { s.descs cur with dd := false }
    rxCur := (cur + 1) % numRxDesc
    rdt := s.rxCur
    lock := some p
    phase := update s.phase p .looping
    log := .consume p cur s.rxCur ((cur + 1) % numRxDesc) :: s.log }

/-- The steps of the card and of the polls. -/
inductive RxOp where
  | complete (frame : Frame)
  | begin (p : ℕ)
  /-- One test of the loop; `mbuf` says whether `m_getcl` finds an mbuf. -/
  | test (p : ℕ) (mbuf : Bool)
  | input (p : ℕ)
  | relock (p : ℕ)
  deriving DecidableEq, Repr

/-- One step; `none` if it is not possible now.
Source: `e1000_poll_rx` -/
def E1000.step (s : E1000) : RxOp → Option E1000
  | .complete frame => if s.rdh = s.rdt then none else some (s.complete frame)
  | .begin p =>
      if s.phase p = .idle ∧ s.lock = none then
        some { s with phase := update s.phase p .looping, lock := some p }
      else none
  | .test p mbuf =>
      if s.phase p = .looping then
        let desc := s.descs s.rxCur
        if ¬ desc.dd then some { s with phase := update s.phase p .idle, lock := none }
        else if desc.data = [] ∨ ¬ mbuf then some (s.consume p s.rxCur)
        else some { s with
          phase := update s.phase p (.passing s.rxCur desc.data)
          lock := none
          log := .copy p s.rxCur desc.data :: s.log }
      else none
  | .input p =>
      match s.phase p with
      | .passing cur m =>
          some { s with phase := update s.phase p (.relocking cur), log := .input p m :: s.log }
      | _ => none
  | .relock p =>
      match s.phase p with
      | .relocking cur => if s.lock = none then some (s.consume p cur) else none
      | _ => none

/-- Runs from the start each of whose steps satisfies `C`. -/
inductive RxRun (C : E1000 → RxOp → Prop) : E1000 → Prop
  | start : RxRun C .init
  | step {s s' : E1000} (op : RxOp) (hrun : RxRun C s) (hC : C s op) (hstep : s.step op = some s') :
      RxRun C s'

/-- An mbuf is available whenever one is needed. -/
def RxOp.MbufsAvailable : RxOp → Prop
  | .test _ mbuf => mbuf = true
  | _ => True

/-- Poll `q` has given up the lock to call `if_input`, and not taken it again. -/
def E1000.Inside (s : E1000) (q : ℕ) : Prop :=
  (∃ cur m, s.phase q = .passing cur m) ∨ ∃ cur, s.phase q = .relocking cur

/-- **No overlap**: no poll starts while another one is inside `if_input`. -/
def RxOp.NoOverlap (s : E1000) : RxOp → Prop
  | .begin _ => ∀ q, ¬ s.Inside q
  | _ => True

/-! ## What the record says -/

/-- The frames that the card completed, in order. -/
def completed (log : List RxEvent) : List Frame :=
  (log.filterMap fun | .complete _ frame => some frame | _ => none).reverse

/-- The frames that `if_input` was called with, in order. -/
def passed (log : List RxEvent) : List Frame :=
  (log.filterMap fun | .input _ frame => some frame | _ => none).reverse

/-- Frames that are not empty. -/
def nonEmpty (frames : List Frame) : List Frame := frames.filter (· ≠ [])

/-- The frame that was completed in a descriptor and not copied since. -/
def uncopied : List RxEvent → ℕ → Option Frame
  | [], _ => none
  | .complete j frame :: log, i => if j = i then some frame else uncopied log i
  | .copy _ j _ :: log, i => if j = i then none else uncopied log i
  | .input _ _ :: log, i => uncopied log i
  | .consume _ _ _ _ :: log, i => uncopied log i

/-- A status is cleared only after the frame of the descriptor was copied, if it has one. -/
def ClearedAfterCopy : List RxEvent → Prop
  | [] => True
  | .consume _ i _ _ :: log => (uncopied log i).getD [] = [] ∧ ClearedAfterCopy log
  | .complete _ _ :: log => ClearedAfterCopy log
  | .copy _ _ _ :: log => ClearedAfterCopy log
  | .input _ _ :: log => ClearedAfterCopy log

/-- `rx_cur` goes from each index to the next one. -/
def MovesForward : List RxEvent → Prop
  | [] => True
  | .consume _ _ old new :: log => new = (old + 1) % numRxDesc ∧ MovesForward log
  | .complete _ _ :: log => MovesForward log
  | .copy _ _ _ :: log => MovesForward log
  | .input _ _ :: log => MovesForward log

/-- **Exactly-once delivery.** The frames passed on are the first of the completed ones, in order, and all of
them once the ring is drained and no poll is under way. -/
structure DeliveredOnce (s : E1000) : Prop where
  order : passed s.log <+: nonEmpty (completed s.log)
  drained : (∀ p, s.phase p = .idle) → (s.descs s.rxCur).dd = false →
    passed s.log = nonEmpty (completed s.log)
  cleared : ClearedAfterCopy s.log
  forward : MovesForward s.log

section record

variable (log : List RxEvent) (i p old new : ℕ) (frame : Frame)

@[simp] lemma completed_complete : completed (.complete i frame :: log) = completed log ++ [frame] := by
  simp [completed]

@[simp] lemma completed_input : completed (.input p frame :: log) = completed log := by simp [completed]

@[simp] lemma passed_complete : passed (.complete i frame :: log) = passed log := by simp [passed]

@[simp] lemma passed_input : passed (.input p frame :: log) = passed log ++ [frame] := by simp [passed]

end record

lemma nonEmpty_append (xs ys : List Frame) : nonEmpty (xs ++ ys) = nonEmpty xs ++ nonEmpty ys :=
  List.filter_append xs ys

lemma nonEmpty_nil_cons (xs : List Frame) : nonEmpty ([] :: xs) = nonEmpty xs := List.filter_cons_of_neg (by simp)

lemma nonEmpty_cons {x : Frame} (hx : x ≠ []) (xs : List Frame) : nonEmpty (x :: xs) = x :: nonEmpty xs :=
  List.filter_cons_of_pos (by simpa using hx)

/-! ## The invariant -/

/-- The frames of `k` descriptors from `rx_cur` on. -/
def E1000.waiting (s : E1000) (k : ℕ) : List Frame :=
  (List.range k).map fun j => (s.descs ((s.rxCur + j) % numRxDesc)).data

/-- **The ring**: the `k` descriptors from `rx_cur` on are completed and not consumed, and no other one; the
card goes on behind them and stops in front of `rx_cur`. A descriptor whose frame is not copied yet holds
it. -/
structure RingOk (s : E1000) (k : ℕ) : Prop where
  cur : s.rxCur < numRxDesc
  room : k < numRxDesc
  head : s.rdh = (s.rxCur + k) % numRxDesc
  tail : s.rdt = (s.rxCur + (numRxDesc - 1)) % numRxDesc
  full : ∀ j < k, (s.descs ((s.rxCur + j) % numRxDesc)).dd = true
  empty : ∀ j < numRxDesc, k ≤ j → (s.descs ((s.rxCur + j) % numRxDesc)).dd = false
  held : ∀ i f, uncopied s.log i = some f → (s.descs i).data = f
  cleared : ClearedAfterCopy s.log
  forward : MovesForward s.log

/-- **The polls**: at most one is under way, and `rest` are the completed frames that are not passed on yet.
The descriptor of a poll inside `if_input` is still the one at `rx_cur`. -/
inductive PollOk (s : E1000) (k : ℕ) : List Frame → Prop
  | quiet (hlock : s.lock = none) (hidle : ∀ p, s.phase p = .idle) : PollOk s k (s.waiting k)
  | looping (p : ℕ) (hothers : ∀ q, q ≠ p → s.phase q = .idle) (hlock : s.lock = some p)
      (hp : s.phase p = .looping) : PollOk s k (s.waiting k)
  | passing (p : ℕ) (hothers : ∀ q, q ≠ p → s.phase q = .idle) (hlock : s.lock = none) (hk : 0 < k)
      (hcopied : uncopied s.log s.rxCur = none)
      (hp : s.phase p = .passing s.rxCur (s.descs s.rxCur).data) (hm : (s.descs s.rxCur).data ≠ []) :
      PollOk s k (s.waiting k)
  | relocking (p : ℕ) (hothers : ∀ q, q ≠ p → s.phase q = .idle) (hlock : s.lock = none) (hk : 0 < k)
      (hcopied : uncopied s.log s.rxCur = none) (hp : s.phase p = .relocking s.rxCur) :
      PollOk s k (s.waiting k).tail

/-- **The invariant.** -/
def RxInv (s : E1000) : Prop :=
  ∃ k rest, RingOk s k ∧ PollOk s k rest ∧ nonEmpty (completed s.log) = passed s.log ++ nonEmpty rest

section invariant

variable {s s' : E1000} {k p : ℕ} {rest : List Frame}

/-- The next frame. -/
lemma E1000.waiting_succ (hcur : s.rxCur < numRxDesc) (k : ℕ) : s.waiting (k + 1) = (s.descs s.rxCur).data ::
      (List.range k).map fun j => (s.descs ((s.rxCur + (j + 1)) % numRxDesc)).data := by
  rw [E1000.waiting, List.range_succ_eq_map, List.map_cons, List.map_map, Nat.add_zero, Nat.mod_eq_of_lt hcur]
  rfl

lemma RxInv.init : RxInv .init := by
  refine ⟨0, [], ?_, .quiet rfl fun _ => rfl, rfl⟩
  exact ⟨by decide, by decide, rfl, rfl, nofun, fun _ _ _ => rfl, nofun, trivial, trivial⟩

/-! ### The card -/

section

variable (h : RingOk s k) (hne : s.rdh ≠ s.rdt)
include h hne

/-- The card does not come to a descriptor that is still in use. -/
lemma RingOk.head_ne :
    k + 1 < numRxDesc ∧ ∀ j < k, (s.rxCur + j) % numRxDesc ≠ s.rdh := by
  have hcur := h.cur
  have hroom := h.room
  rw [h.head, h.tail] at hne
  rw [h.head]
  unfold numRxDesc at *
  refine ⟨by omega, fun j hj => by omega⟩

lemma waiting_complete (frame : Frame) :
    (s.complete frame).waiting (k + 1) = s.waiting k ++ [frame] := by
  rw [E1000.waiting, List.range_succ, List.map_append]
  dsimp only [E1000.complete]
  congr 1
  · apply List.map_congr_left
    intro j hj
    rw [update_of_ne ((h.head_ne hne).2 j (List.mem_range.mp hj))]
  · rw [List.map_singleton, ← h.head, update_self]

lemma RingOk.complete (frame : Frame) : RingOk (s.complete frame) (k + 1) := by
  obtain ⟨hroom, hapart⟩ := h.head_ne hne
  refine ⟨h.cur, hroom, ?_, h.tail, fun j hj => ?_, fun j hj hkj => ?_, fun i f hf => ?_, h.cleared, h.forward⟩
  · dsimp only [E1000.complete]
    rw [h.head, Nat.mod_add_mod, Nat.add_assoc]
  · dsimp only [E1000.complete]
    by_cases hjk : j = k
    · rw [hjk, ← h.head, update_self]
    · rw [update_of_ne (hapart j (by omega))]
      exact h.full j (by omega)
  · have hne' : (s.rxCur + j) % numRxDesc ≠ s.rdh := by
      have hcur := h.cur
      rw [h.head]
      unfold numRxDesc at *
      omega
    dsimp only [E1000.complete]
    rw [update_of_ne hne']
    exact h.empty j hj (by omega)
  · dsimp only [E1000.complete, uncopied] at hf ⊢
    by_cases hi : s.rdh = i
    · rw [if_pos hi] at hf
      rw [← hi, update_self]
      exact Option.some.inj hf
    · rw [if_neg hi] at hf
      rw [update_of_ne (Ne.symm hi)]
      exact h.held i f hf

end

/-- A poll is not disturbed by the card. -/
lemma PollOk.complete (hring : RingOk s k) (h : PollOk s k rest) (hne : s.rdh ≠ s.rdt) (frame : Frame) :
    PollOk (s.complete frame) (k + 1) (rest ++ [frame]) := by
  have hwait := waiting_complete hring hne frame
  have hcur : 0 < k → s.rxCur ≠ s.rdh := by
    intro hk hcontra
    refine (hring.head_ne hne).2 0 hk ?_
    rw [Nat.add_zero, Nat.mod_eq_of_lt hring.cur, hcontra]
  cases h with
  | quiet hlock hidle => exact hwait ▸ .quiet hlock hidle
  | looping p hothers hlock hp => exact hwait ▸ .looping p hothers hlock hp
  | passing p hothers hlock hk hcopied hp hm =>
    have hdata : update s.descs s.rdh ⟨true, frame⟩ s.rxCur = s.descs s.rxCur := update_of_ne (hcur hk) _ _
    refine hwait ▸ .passing p hothers hlock (Nat.succ_pos k) ?_ ?_ ?_
    · dsimp only [E1000.complete]
      rw [uncopied, if_neg (hcur hk).symm]
      exact hcopied
    · dsimp only [E1000.complete]
      rw [hdata]
      exact hp
    · dsimp only [E1000.complete]
      rw [hdata]
      exact hm
  | relocking p hothers hlock hk hcopied hp =>
    have htail : (s.waiting k).tail ++ [frame] = (s.waiting k ++ [frame]).tail := by
      rw [List.tail_append_of_ne_nil]
      rw [E1000.waiting, ne_eq, List.map_eq_nil_iff, List.range_eq_nil]
      omega
    rw [htail]
    refine hwait ▸ .relocking p hothers hlock (Nat.succ_pos k) ?_ hp
    dsimp only [E1000.complete]
    rw [uncopied, if_neg (hcur hk).symm]
    exact hcopied

/-! ### The polls -/

lemma waiting_consume (h : RingOk s (k + 1)) (p : ℕ) :
    (s.consume p s.rxCur).waiting k = (s.waiting (k + 1)).tail := by
  rw [E1000.waiting_succ h.cur, List.tail_cons, E1000.waiting]
  apply List.map_congr_left
  intro j hj
  have hj' := List.mem_range.mp hj
  have hcur := h.cur
  have hroom := h.room
  have hindex : ((s.rxCur + 1) % numRxDesc + j) % numRxDesc = (s.rxCur + (j + 1)) % numRxDesc := by
    rw [Nat.mod_add_mod, Nat.add_assoc, Nat.add_comm 1 j]
  have hne : (s.rxCur + (j + 1)) % numRxDesc ≠ s.rxCur := by
    unfold numRxDesc at *
    omega
  dsimp only [E1000.consume]
  rw [hindex, update_of_ne hne]

/-- The descriptor at `rx_cur` goes back to the card. -/
lemma RingOk.consume (h : RingOk s (k + 1)) (p : ℕ) (hcopied : (uncopied s.log s.rxCur).getD [] = []) :
    RingOk (s.consume p s.rxCur) k := by
  have hcur := h.cur
  have hroom := h.room
  have hindex : ∀ j, ((s.rxCur + 1) % numRxDesc + j) % numRxDesc = (s.rxCur + (j + 1)) % numRxDesc := by
    intro j
    rw [Nat.mod_add_mod, Nat.add_assoc, Nat.add_comm 1 j]
  refine ⟨Nat.mod_lt _ (by decide), Nat.lt_of_succ_lt hroom, ?_, ?_, fun j hj => ?_, fun j hj hkj => ?_,
    fun i f hf => ?_, ⟨hcopied, h.cleared⟩, ⟨rfl, h.forward⟩⟩
  · dsimp only [E1000.consume]
    rw [hindex]
    exact h.head
  · dsimp only [E1000.consume]
    rw [hindex]
    unfold numRxDesc at *
    omega
  · have hne : (s.rxCur + (j + 1)) % numRxDesc ≠ s.rxCur := by
      unfold numRxDesc at *
      omega
    dsimp only [E1000.consume]
    rw [hindex, update_of_ne hne]
    exact h.full (j + 1) (by omega)
  · dsimp only [E1000.consume]
    rw [hindex]
    by_cases hlast : (s.rxCur + (j + 1)) % numRxDesc = s.rxCur
    · rw [hlast, update_self]
    · rw [update_of_ne hlast]
      refine h.empty (j + 1) ?_ (by omega)
      unfold numRxDesc at *
      omega
  · dsimp only [E1000.consume] at hf ⊢
    by_cases hi : i = s.rxCur
    · rw [hi, update_self]
      exact h.held _ f (hi ▸ hf)
    · rw [update_of_ne hi]
      exact h.held i f hf

lemma eq_of_busy {q : ℕ} {x : RxPhase} (hothers : ∀ r, r ≠ q → s.phase r = .idle) (hp : s.phase p = x)
    (hx : x ≠ .idle) : p = q := by
  by_contra hne
  exact hx (hp.symm.trans (hothers p hne))

/-- A poll at the head of its loop is the only one under way. -/
lemma PollOk.of_looping (h : PollOk s k rest) (hp : s.phase p = .looping) :
    (∀ q, q ≠ p → s.phase q = .idle) ∧ rest = s.waiting k := by
  cases h with
  | quiet _ hidle => exact absurd ((hidle p).symm.trans hp) nofun
  | looping q hothers _ _ =>
    obtain rfl := eq_of_busy hothers hp nofun
    exact ⟨hothers, rfl⟩
  | passing q hothers _ _ _ hq _ =>
    obtain rfl := eq_of_busy hothers hp nofun
    exact absurd (hq.symm.trans hp) nofun
  | relocking q hothers _ _ _ hq =>
    obtain rfl := eq_of_busy hothers hp nofun
    exact absurd (hq.symm.trans hp) nofun

/-- A poll that is about to call `if_input` has the frame at `rx_cur`. -/
lemma PollOk.of_passing (h : PollOk s k rest) {cur : ℕ} {m : Frame} (hp : s.phase p = .passing cur m) :
    (∀ q, q ≠ p → s.phase q = .idle) ∧ s.lock = none ∧ 0 < k ∧ uncopied s.log s.rxCur = none ∧
      cur = s.rxCur ∧ m = (s.descs s.rxCur).data ∧ m ≠ [] ∧ rest = s.waiting k := by
  cases h with
  | quiet _ hidle => exact absurd ((hidle p).symm.trans hp) nofun
  | looping q hothers _ hq =>
    obtain rfl := eq_of_busy hothers hp nofun
    exact absurd (hq.symm.trans hp) nofun
  | passing q hothers hlock hk hcopied hq hm =>
    obtain rfl := eq_of_busy hothers hp nofun
    obtain ⟨rfl, rfl⟩ := RxPhase.passing.inj (hp.symm.trans hq)
    exact ⟨hothers, hlock, hk, hcopied, rfl, rfl, hm, rfl⟩
  | relocking q hothers _ _ _ hq =>
    obtain rfl := eq_of_busy hothers hp nofun
    exact absurd (hq.symm.trans hp) nofun

/-- A poll that is back from `if_input` has passed on the frame at `rx_cur`. -/
lemma PollOk.of_relocking (h : PollOk s k rest) {cur : ℕ} (hp : s.phase p = .relocking cur) :
    (∀ q, q ≠ p → s.phase q = .idle) ∧ 0 < k ∧ uncopied s.log s.rxCur = none ∧ cur = s.rxCur ∧
      rest = (s.waiting k).tail := by
  cases h with
  | quiet _ hidle => exact absurd ((hidle p).symm.trans hp) nofun
  | looping q hothers _ hq =>
    obtain rfl := eq_of_busy hothers hp nofun
    exact absurd (hq.symm.trans hp) nofun
  | passing q hothers _ _ _ hq _ =>
    obtain rfl := eq_of_busy hothers hp nofun
    exact absurd (hq.symm.trans hp) nofun
  | relocking q hothers _ hk hcopied hq =>
    obtain rfl := eq_of_busy hothers hp nofun
    obtain rfl := RxPhase.relocking.inj (hp.symm.trans hq)
    exact ⟨hothers, hk, hcopied, rfl, rfl⟩

/-- The other polls stay idle when the one under way changes its phase. -/
lemma others_idle (hothers : ∀ q, q ≠ p → s.phase q = .idle) (x : RxPhase) (q : ℕ) (hq : q ≠ p) :
    update s.phase p x q = .idle := by
  rw [update_of_ne hq]
  exact hothers q hq

/-- The poll under way consumes the descriptor at `rx_cur`, whose frame is copied or empty. -/
lemma RxInv.consume (hring : RingOk s (k + 1)) (hothers : ∀ q, q ≠ p → s.phase q = .idle)
    (hcopied : (uncopied s.log s.rxCur).getD [] = [])
    (hrest : nonEmpty (completed s.log) = passed s.log ++ nonEmpty (s.waiting (k + 1)).tail) :
    RxInv (s.consume p s.rxCur) := by
  refine ⟨k, _, hring.consume p hcopied, .looping p ?_ rfl ?_, ?_⟩
  · exact others_idle hothers _
  · exact update_self _ _ _
  · rw [waiting_consume hring]
    exact hrest

section

variable (h : RxInv s)
include h

lemma RxInv.begin (hC : RxOp.NoOverlap s (.begin p)) (hstep : s.step (.begin p) = some s') :
    RxInv s' := by
  obtain ⟨k, rest, hring, hpoll, hrest⟩ := h
  dsimp only [E1000.step] at hstep
  split_ifs at hstep with hcond
  cases hstep
  cases hpoll with
  | quiet _ hidle =>
    refine ⟨k, _, ?_, .looping p ?_ rfl (update_self _ _ _), hrest⟩
    · exact ⟨hring.cur, hring.room, hring.head, hring.tail, hring.full, hring.empty, hring.held,
        hring.cleared, hring.forward⟩
    · exact others_idle (fun q _ => hidle q) _
  | looping q _ hlock _ => exact absurd (hcond.2.symm.trans hlock) nofun
  | passing q _ _ _ _ hq _ => exact absurd (.inl ⟨_, _, hq⟩) (hC q)
  | relocking q _ _ _ _ hq => exact absurd (.inr ⟨_, hq⟩) (hC q)

lemma RxInv.test (hstep : s.step (.test p true) = some s') : RxInv s' := by
  obtain ⟨k, rest, hring, hpoll, hrest⟩ := h
  by_cases hp : s.phase p = .looping
  · obtain ⟨hothers, rfl⟩ := hpoll.of_looping hp
    dsimp only [E1000.step] at hstep
    rw [if_pos hp] at hstep
    have hzero : (s.rxCur + 0) % numRxDesc = s.rxCur := Nat.mod_eq_of_lt hring.cur
    by_cases hdd : (s.descs s.rxCur).dd = true
    · rw [if_neg (not_not.mpr hdd)] at hstep
      obtain _ | k := k
      · -- a ring without completed descriptors has no `DD` bit at `rx_cur`
        have hempty := hring.empty 0 (by decide) le_rfl
        rw [hzero, hdd] at hempty
        exact absurd hempty nofun
      · by_cases hdata : (s.descs s.rxCur).data = []
        · rw [if_pos (.inl hdata)] at hstep
          cases hstep
          refine RxInv.consume hring hothers ?_ ?_
          · cases hu : uncopied s.log s.rxCur with
            | none => rfl
            | some f => exact (hring.held _ f hu).symm.trans hdata
          · rw [hrest, E1000.waiting_succ hring.cur, hdata, nonEmpty_nil_cons, List.tail_cons]
        · rw [if_neg (not_or.mpr ⟨hdata, not_not.mpr rfl⟩)] at hstep
          cases hstep
          refine ⟨k + 1, _, ?_, .passing p (others_idle hothers _) rfl (Nat.succ_pos k) ?_
            (update_self _ _ _) hdata, hrest⟩
          · refine ⟨hring.cur, hring.room, hring.head, hring.tail, hring.full, hring.empty, fun i f hf => ?_,
              hring.cleared, hring.forward⟩
            dsimp only [uncopied] at hf
            split_ifs at hf
            exact hring.held i f hf
          · rw [uncopied, if_pos rfl]
    · rw [if_pos hdd] at hstep
      cases hstep
      refine ⟨k, _, ?_, .quiet rfl fun q => ?_, hrest⟩
      · exact ⟨hring.cur, hring.room, hring.head, hring.tail, hring.full, hring.empty, hring.held,
          hring.cleared, hring.forward⟩
      · obtain rfl | hq := eq_or_ne q p
        · exact update_self _ _ _
        · exact others_idle hothers _ q hq
  · dsimp only [E1000.step] at hstep
    rw [if_neg hp] at hstep
    exact absurd hstep nofun

lemma RxInv.input (hstep : s.step (.input p) = some s') : RxInv s' := by
  obtain ⟨k, rest, hring, hpoll, hrest⟩ := h
  dsimp only [E1000.step] at hstep
  split at hstep
  · rename_i cur m hp
    obtain ⟨hothers, hlock, hk, hcopied, rfl, rfl, hm, rfl⟩ := hpoll.of_passing hp
    cases hstep
    obtain ⟨k, rfl⟩ := Nat.exists_eq_succ_of_ne_zero hk.ne'
    refine ⟨k + 1, _, ?_, .relocking p (others_idle hothers _) hlock (Nat.succ_pos k) hcopied
      (update_self _ _ _), ?_⟩
    · exact ⟨hring.cur, hring.room, hring.head, hring.tail, hring.full, hring.empty, hring.held,
        hring.cleared, hring.forward⟩
    · rw [completed_input, passed_input, hrest, List.append_assoc]
      congr 1
      change nonEmpty (s.waiting (k + 1)) = [(s.descs s.rxCur).data] ++ nonEmpty (s.waiting (k + 1)).tail
      rw [E1000.waiting_succ hring.cur, nonEmpty_cons hm, List.tail_cons, List.singleton_append]
  · exact absurd hstep nofun

lemma RxInv.relock (hstep : s.step (.relock p) = some s') : RxInv s' := by
  obtain ⟨k, rest, hring, hpoll, hrest⟩ := h
  dsimp only [E1000.step] at hstep
  split at hstep
  · rename_i cur hp
    obtain ⟨hothers, hk, hcopied, rfl, rfl⟩ := hpoll.of_relocking hp
    split_ifs at hstep
    cases hstep
    obtain ⟨k, rfl⟩ := Nat.exists_eq_succ_of_ne_zero hk.ne'
    refine RxInv.consume hring hothers ?_ hrest
    rw [hcopied]
    rfl
  · exact absurd hstep nofun

lemma RxInv.complete {frame : Frame} (hstep : s.step (.complete frame) = some s') : RxInv s' := by
  obtain ⟨k, rest, hring, hpoll, hrest⟩ := h
  dsimp only [E1000.step] at hstep
  split_ifs at hstep with hne
  cases hstep
  refine ⟨k + 1, _, hring.complete hne frame, hpoll.complete hring hne frame, ?_⟩
  rw [E1000.complete, completed_complete, passed_complete, nonEmpty_append, nonEmpty_append, hrest, List.append_assoc]

lemma RxInv.step {op : RxOp} (hmbuf : op.MbufsAvailable) (hC : op.NoOverlap s)
    (hstep : s.step op = some s') : RxInv s' := by
  cases op with
  | complete frame => exact h.complete hstep
  | begin p => exact h.begin hC hstep
  | test p mbuf =>
    obtain rfl : mbuf = true := hmbuf
    exact h.test hstep
  | input p => exact h.input hstep
  | relock p => exact h.relock hstep

/-- What the invariant says about the record. -/
lemma RxInv.deliveredOnce : DeliveredOnce s := by
  obtain ⟨k, rest, hring, hpoll, hrest⟩ := h
  refine ⟨⟨_, hrest.symm⟩, fun hidle hdd => ?_, hring.cleared, hring.forward⟩
  have hk : k = 0 := by
    by_contra hk
    have hfull := hring.full 0 (Nat.pos_of_ne_zero hk)
    rw [Nat.add_zero, Nat.mod_eq_of_lt hring.cur, hdd] at hfull
    exact absurd hfull nofun
  subst hk
  cases hpoll with
  | quiet _ _ =>
    rw [hrest]
    exact (List.append_nil _).symm
  | looping p _ _ hp => exact absurd ((hidle p).symm.trans hp) nofun
  | passing p _ _ hk _ _ _ => exact absurd hk (lt_irrefl 0)
  | relocking p _ _ hk _ _ => exact absurd hk (lt_irrefl 0)

end

end invariant

/-- **Exactly-once frame delivery**, in every run of any number of polls and the card in which no poll starts
while another one is inside `if_input`. -/
theorem frames_delivered_once {s : E1000}
    (h : RxRun (fun s op => op.MbufsAvailable ∧ op.NoOverlap s) s) : DeliveredOnce s := by
  have hinv : RxInv s := by
    induction h with
    | start => exact RxInv.init
    | step op _ hC hstep ih => exact ih.step hC.1 hC.2 hstep
  exact hinv.deliveredOnce

/-- A poll passes on one frame and returns. -/
theorem frames_delivered_once_single : ∃ s, RxRun (fun s op => op.MbufsAvailable ∧ op.NoOverlap s) s ∧
    passed s.log = [[1]] ∧ DeliveredOnce s := by
  have h : RxRun (fun s op => op.MbufsAvailable ∧ op.NoOverlap s) _ :=
    .step (.test 0 true) (.step (.relock 0) (.step (.input 0) (.step (.test 0 true) (.step (.begin 0)
      (.step (.complete [1]) .start ⟨trivial, trivial⟩ rfl) ⟨trivial, ?_⟩ rfl) ⟨rfl, trivial⟩ rfl)
      ⟨trivial, trivial⟩ rfl) ⟨trivial, trivial⟩ rfl) ⟨rfl, trivial⟩ rfl
  · exact ⟨_, h, rfl, frames_delivered_once h⟩
  · rintro q (⟨cur, m, hq⟩ | ⟨cur, hq⟩)
    · exact absurd hq nofun
    · exact absurd hq nofun

/-- **Two polls deliver one frame twice.** The second one starts while the first is inside `if_input`. -/
theorem overlapping_polls_deliver_twice : ∃ s, RxRun (fun _ op => op.MbufsAvailable) s ∧
    completed s.log = [[1]] ∧ passed s.log = [[1], [1]] ∧ ¬ DeliveredOnce s := by
  have h : RxRun (fun _ op => op.MbufsAvailable) _ :=
    .step (.input 1) (.step (.input 0) (.step (.test 1 true) (.step (.begin 1) (.step (.test 0 true)
      (.step (.begin 0) (.step (.complete [1]) .start trivial rfl) trivial rfl) rfl rfl) trivial rfl)
      rfl rfl) trivial rfl) trivial rfl
  refine ⟨_, h, rfl, rfl, fun hd => ?_⟩
  exact absurd hd.order.length_le (by decide)

end Chimera
