import Mathlib

/-!
# A shared file position: `sys_read`, `sys_write` in `kernel/bsd/syscall.c`

Descriptors that come from one `open` by `fork` or `dup` share a `chimera_fileproc_t`. A call reads `fp_offset`, lets
FAT32 transfer bytes from there, and adds what was counted to `fp_offset`; only the addition is under `fp_lock`.

`shared_position`: if the calls are made alone then their ranges are disjoint and the offset is the initial one plus all
returned counts. Two calls that read the offset before either adds to it transfer the same bytes
(`calls_share_range`).

`fat32_vop_read` and `fat32_vop_write` may move more bytes than they count, when the user copy faults or the disk
fails half way, and they keep 32 bits of the offset. What they do is an argument of the step.
-/

namespace Chimera

open Function (update)

/-- Where a call is. -/
inductive IoCall where
  | idle
  /-- `uio_offset` is set. -/
  | started (off : ℕ)
  /-- The vnode operation has returned, with success or not. -/
  | moved (counted : ℕ) (ok : Bool)
  deriving DecidableEq, Repr

/-- An open file description and the calls on it, by thread, with what they have transferred and returned. -/
structure SharedFile where
  /-- `fp_offset`. -/
  offset : ℕ
  calls : ℕ → IoCall
  /-- Offsets and lengths. -/
  ranges : List (ℕ × ℕ)
  returned : List ℕ

/-- A step of a call. **Calls are alone** if they begin when no other is under way, count all that they move, and
stay below `2 ^ 32`, the end of a FAT32 file.
Source: `sys_read`, `sys_write` -/
inductive IoStep (alone : Prop) (s : SharedFile) : SharedFile → Prop
  | start {c : ℕ} (h : s.calls c = .idle) (halone : alone → ∀ d, s.calls d = .idle) :
      IoStep alone s { s with calls := update s.calls c (.started s.offset) }
  | move {c off n counted : ℕ} {b : Bool} (h : s.calls c = .started off) (hn : counted ≤ n)
      (hok : b = false → counted = 0) (halone : alone → counted = n ∧ s.offset + n < 2 ^ 32) :
      IoStep alone s
        { s with calls := update s.calls c (.moved counted b), ranges := s.ranges ++ [(off % 2 ^ 32, n)] }
  | finish {c counted : ℕ} {ok : Bool} (h : s.calls c = .moved counted ok) :
      IoStep alone s
        { s with
          offset := (s.offset + counted) % 2 ^ 64
          calls := update s.calls c .idle
          returned := s.returned ++ [if ok then counted else 0] }

/-- The bytes of a range; `offset + total_transferred` is a `u32`. -/
def fileBytes (r : ℕ × ℕ) : Set ℕ := {p | ∃ j < r.2, p = (r.1 + j) % 2 ^ 32}

/-- **What a shared position promises.** -/
structure PositionOk (offset : ℕ) (s : SharedFile) : Prop where
  disjoint : s.ranges.Pairwise fun a b => Disjoint (fileBytes a) (fileBytes b)
  final : (∀ c, s.calls c = .idle) → s.offset = offset + s.returned.sum

/-- What a call is about to add. -/
def IoCall.counted : IoCall → ℕ
  | .moved counted _ => counted
  | _ => 0

/-- **The invariant**: the call of `c` is at `x` and the others are idle. -/
structure IoInv (offset : ℕ) (s : SharedFile) (c : ℕ) (x : IoCall) : Prop where
  calls : s.calls = update (fun _ => .idle) c x
  disjoint : s.ranges.Pairwise fun a b => Disjoint (fileBytes a) (fileBytes b)
  below : ∀ r ∈ s.ranges, r.1 + r.2 ≤ s.offset + x.counted
  sum : s.offset = offset + s.returned.sum
  started : ∀ off, x = .started off → off = s.offset
  moved : ∀ n ok, x = .moved n ok → s.offset + n < 2 ^ 32 ∧ (ok = false → n = 0)

section step

variable {offset c d : ℕ} {s s' : SharedFile} {x y : IoCall}

lemma IoInv.call_eq (i : IoInv offset s c x) (hd : s.calls d = y) (hy : y ≠ .idle) : d = c ∧ x = y := by
  rw [i.calls] at hd
  by_cases hdc : d = c
  · subst hdc; simpa using hd
  · simp_all

lemma disjoint_fileBytes {a b : ℕ × ℕ} (hab : a.1 + a.2 ≤ b.1) (hb : b.1 + b.2 ≤ 2 ^ 32) :
    Disjoint (fileBytes a) (fileBytes b) := by
  rw [Set.disjoint_left]
  rintro p ⟨i, hi, rfl⟩ ⟨j, hj, heq⟩
  rw [Nat.mod_eq_of_lt (by omega), Nat.mod_eq_of_lt (by omega)] at heq
  omega

lemma IoInv.step (i : IoInv offset s c x) (h : IoStep True s s') : ∃ c x, IoInv offset s' c x := by
  cases h with
  | @start d hd halone =>
    have hidle : s.calls = fun _ => .idle := funext (halone trivial)
    have hx : x = .idle := by simpa [i.calls] using congrFun hidle c
    refine ⟨d, .started s.offset, by rw [hidle], i.disjoint, ?_, i.sum, by simp, by simp⟩
    simpa [hx, IoCall.counted] using i.below
  | @move d off n counted ok hd hn hok halone =>
    obtain ⟨rfl, rfl⟩ := i.call_eq hd nofun
    obtain ⟨rfl, hlt⟩ := halone trivial
    obtain rfl := i.started off rfl
    have hbelow : ∀ r ∈ s.ranges, r.1 + r.2 ≤ s.offset := i.below
    have hmod : s.offset % 2 ^ 32 = s.offset := Nat.mod_eq_of_lt (by omega)
    refine ⟨d, .moved counted ok, by rw [i.calls, Function.update_idem], ?_, ?_, i.sum, by simp, ?_⟩
    · rw [List.pairwise_append, hmod]
      refine ⟨i.disjoint, by simp, fun a ha b hb => ?_⟩
      rw [List.mem_singleton.mp hb]
      exact disjoint_fileBytes (hbelow a ha) hlt.le
    · intro r hr
      rcases List.mem_append.mp hr with hr | hr
      · exact (hbelow r hr).trans (Nat.le_add_right _ _)
      · rw [List.mem_singleton.mp hr, hmod]
        exact le_rfl
    · rintro m ok' ⟨⟩
      exact ⟨hlt, hok⟩
  | @finish d counted ok hd =>
    obtain ⟨rfl, rfl⟩ := i.call_eq hd nofun
    obtain ⟨hlt, hok⟩ := i.moved counted ok rfl
    have hmod : (s.offset + counted) % 2 ^ 64 = s.offset + counted := Nat.mod_eq_of_lt (by omega)
    have hcount : (if ok then counted else 0) = counted := by
      cases ok
      · exact (hok rfl).symm
      · rfl
    refine ⟨d, .idle, by rw [i.calls, Function.update_idem], i.disjoint, ?_, ?_, by simp, by simp⟩
    · rw [hmod]
      exact i.below
    · simp only [hmod, hcount, List.sum_append, List.sum_singleton, ← Nat.add_assoc, ← i.sum]

end step

/-- **A shared position**, in every run of calls that are alone. -/
theorem shared_position {s₀ s : SharedFile} (hcalls : ∀ c, s₀.calls c = .idle) (hranges : s₀.ranges = [])
    (hreturned : s₀.returned = []) (h : Relation.ReflTransGen (IoStep True) s₀ s) : PositionOk s₀.offset s := by
  have hinv : ∃ c x, IoInv s₀.offset s c x := by
    induction h with
    | refl =>
      refine ⟨0, .idle, ?_, by simp [hranges], by simp [hranges], by simp [hreturned], by simp, by simp⟩
      simpa using funext hcalls
    | tail _ hs ih =>
      obtain ⟨c, x, i⟩ := ih
      exact i.step hs
  obtain ⟨c, x, i⟩ := hinv
  exact ⟨i.disjoint, fun _ => i.sum⟩

/-- A file that was just opened. -/
def openedFile : SharedFile := ⟨0, fun _ => .idle, [], []⟩

/-- A call of four bytes. -/
theorem shared_position_four :
    ∃ s, Relation.ReflTransGen (IoStep True) openedFile s ∧ s.offset = 4 ∧ PositionOk 0 s := by
  have h1 : Relation.ReflTransGen (IoStep True) openedFile _ := .single (.start (c := 0) rfl fun _ _ => rfl)
  have h2 := h1.tail (.move (c := 0) (n := 4) (b := true) rfl le_rfl nofun fun _ => ⟨rfl, by decide⟩)
  have h3 := h2.tail (.finish (c := 0) rfl)
  exact ⟨_, h3, rfl, shared_position (fun _ => rfl) rfl rfl h3⟩

/-- **Two calls transfer the same bytes**: the second begins before the first has moved the offset on. -/
theorem calls_share_range : ∃ s, Relation.ReflTransGen (IoStep False) openedFile s ∧ ¬ PositionOk 0 s := by
  have h1 : Relation.ReflTransGen (IoStep False) openedFile _ := .single (.start (c := 0) rfl nofun)
  have h2 := h1.tail (.start (c := 1) rfl nofun)
  have h3 := h2.tail (.move (c := 0) (n := 4) (b := true) rfl le_rfl nofun nofun)
  have h4 := h3.tail (.move (c := 1) (n := 4) (b := true) rfl le_rfl nofun nofun)
  refine ⟨_, h4, fun h => ?_⟩
  have hdis := List.rel_of_pairwise_cons h.disjoint (List.mem_singleton_self _)
  exact Set.disjoint_left.mp hdis ⟨0, by decide, rfl⟩ ⟨0, by decide, rfl⟩

end Chimera
