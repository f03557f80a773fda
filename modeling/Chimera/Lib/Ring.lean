import Mathlib.Tactic
import Chimera.Lib.Loop

/-!
# Ring buffers

A ring of `cap` cells holds a list: from the cell `tail` on, `count` cells, going round at the end.
`ringContents` reads the list off. Writing from the first free cell on appends to it (`ringContents_write`)
and moving `tail` on takes from its front (`ringContents_split`).
-/

namespace Lib

variable {α : Type*} {cap : ℕ} {buf : ℕ → α} {tail count n : ℕ}

/-- The list in a ring. -/
def ringContents (cap : ℕ) (buf : ℕ → α) (tail count : ℕ) : List α :=
  (List.range count).map fun i => buf ((tail + i) % cap)

/-- Write `src 0`, …, `src (n - 1)` to the cells from `head` on. -/
def ringWrite (cap : ℕ) (buf : ℕ → α) (head : ℕ) (src : ℕ → α) (n : ℕ) : ℕ → α :=
  forUpTo (fun i b => Function.update b ((head + i) % cap) (src i)) n buf

@[simp] lemma length_ringContents : (ringContents cap buf tail count).length = count := by simp [ringContents]

/-- Two cells less than a turn apart are different. -/
lemma ring_cell_ne {i j : ℕ} (hij : i < j) (hj : j < cap) : (tail + i) % cap ≠ (tail + j) % cap := by
  intro h
  have hmod : i % cap = j % cap := Nat.ModEq.add_left_cancel' tail h
  rw [Nat.mod_eq_of_lt (hij.trans hj), Nat.mod_eq_of_lt hj] at hmod
  exact hij.ne hmod

/-- **The front of a ring.** -/
lemma ringContents_split (hn : n ≤ count) : ringContents cap buf tail count =
      ringContents cap buf tail n ++ ringContents cap buf ((tail + n) % cap) (count - n) := by
  obtain ⟨m, rfl⟩ := Nat.exists_eq_add_of_le hn
  rw [Nat.add_sub_cancel_left, ringContents, List.range_add, List.map_append, List.map_map]
  congr 1
  apply List.map_congr_left
  intro i _
  simp only [Function.comp_apply, Nat.mod_add_mod, Nat.add_assoc]

/-- What was written is read back, and the cells in front of it are as they were. -/
lemma ringWrite_spec (buf src : ℕ → α) (tail : ℕ) (hn : count + n ≤ cap) :
    (∀ i < count, ringWrite cap buf ((tail + count) % cap) src n ((tail + i) % cap) = buf ((tail + i) % cap)) ∧
      ∀ i < n, ringWrite cap buf ((tail + count) % cap) src n ((tail + (count + i)) % cap) = src i := by
  refine forUpTo_invariant (fun k (b : ℕ → α) => (∀ i < count, b ((tail + i) % cap) = buf ((tail + i) % cap)) ∧
    ∀ i < k, b ((tail + (count + i)) % cap) = src i) ⟨fun _ _ => rfl, nofun⟩ ?_
  rintro k hk b ⟨hfront, hdone⟩
  have hcell : ((tail + count) % cap + k) % cap = (tail + (count + k)) % cap := by rw [Nat.mod_add_mod, Nat.add_assoc]
  rw [hcell]
  constructor
  · intro i hi
    rw [Function.update_of_ne (ring_cell_ne (by omega) (by omega))]
    exact hfront i hi
  · intro i hi
    rcases Nat.lt_succ_iff_lt_or_eq.mp hi with hlt | rfl
    · rw [Function.update_of_ne (ring_cell_ne (by omega) (by omega))]
      exact hdone i hlt
    · exact Function.update_self _ _ _

/-- **Writing appends.** -/
lemma ringContents_write {src : ℕ → α} (hn : count + n ≤ cap) :
    ringContents cap (ringWrite cap buf ((tail + count) % cap) src n) tail (count + n) =
      ringContents cap buf tail count ++ (List.range n).map src := by
  obtain ⟨hfront, hdone⟩ := ringWrite_spec buf src tail hn
  rw [ringContents, List.range_add, List.map_append, List.map_map]
  congr 1
  · exact List.map_congr_left fun i hi => hfront i (List.mem_range.mp hi)
  · exact List.map_congr_left fun i hi => hdone i (List.mem_range.mp hi)

end Lib
