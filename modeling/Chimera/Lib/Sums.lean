import Mathlib.Tactic

/-!
# Sums over two indices

How a double sum moves when its summand changes at one place.
-/

namespace Lib

variable {κ ι : Type*} [Fintype ι]

/-- A single place is at most the whole sum. -/
lemma le_sum_sum {R : Finset κ} {r : κ} (hr : r ∈ R) (x : ι) (f : κ → ι → ℕ) : f r x ≤ ∑ r' ∈ R, ∑ y, f r' y := by
  have hrow : f r x ≤ ∑ y, f r y := Finset.single_le_sum (fun _ _ => Nat.zero_le _) (Finset.mem_univ x)
  have hall : ∑ y, f r y ≤ ∑ r' ∈ R, ∑ y, f r' y :=
    Finset.single_le_sum (f := fun r' => ∑ y, f r' y) (fun _ _ => Nat.zero_le _) hr
  exact hrow.trans hall

variable [DecidableEq κ] [DecidableEq ι]

/-- Two terms are no more than the double sum. -/
lemma add_le_sum_sum {R : Finset κ} {r r' : κ} (hr : r ∈ R) (hr' : r' ∈ R) {x y : ι}
    (hne : ¬ (r' = r ∧ y = x)) (f : κ → ι → ℕ) : f r x + f r' y ≤ ∑ r'' ∈ R, ∑ z, f r'' z := by
  classical
  have hpair : (r, x) ≠ (r', y) := fun h => hne ⟨(Prod.mk.inj h).1.symm, (Prod.mk.inj h).2.symm⟩
  have hsub : ({(r, x), (r', y)} : Finset (κ × ι)) ⊆ R ×ˢ Finset.univ := by
    intro z hz
    rcases Finset.mem_insert.mp hz with rfl | hz
    · exact Finset.mem_product.mpr ⟨hr, Finset.mem_univ _⟩
    · obtain rfl := Finset.mem_singleton.mp hz
      exact Finset.mem_product.mpr ⟨hr', Finset.mem_univ _⟩
  calc f r x + f r' y = ∑ z ∈ {(r, x), (r', y)}, f z.1 z.2 :=
        (Finset.sum_pair (f := fun z : κ × ι => f z.1 z.2) hpair).symm
    _ ≤ ∑ z ∈ R ×ˢ Finset.univ, f z.1 z.2 := Finset.sum_le_sum_of_subset hsub
    _ = ∑ r'' ∈ R, ∑ z, f r'' z := Finset.sum_product _ _ _

/-- Two summands that agree everywhere but at one place differ in their sum by that place. -/
lemma sum_sum_write {R : Finset κ} {r : κ} (hr : r ∈ R) (x : ι) {f g : κ → ι → ℕ}
    (h : ∀ r' ∈ R, ∀ y, ¬ (r' = r ∧ y = x) → f r' y = g r' y) :
    ∑ r' ∈ R, ∑ y, f r' y + g r x = ∑ r' ∈ R, ∑ y, g r' y + f r x := by
  have hrest : ∑ y ∈ Finset.univ.erase x, f r y = ∑ y ∈ Finset.univ.erase x, g r y := by
    refine Finset.sum_congr rfl fun y hy => h r hr y ?_
    rintro ⟨-, rfl⟩
    exact Finset.notMem_erase y _ hy
  have hothers : ∑ r' ∈ R.erase r, ∑ y, f r' y = ∑ r' ∈ R.erase r, ∑ y, g r' y := by
    refine Finset.sum_congr rfl fun r' hr' => Finset.sum_congr rfl fun y _ => ?_
    refine h r' (Finset.mem_of_mem_erase hr') y ?_
    rintro ⟨rfl, -⟩
    exact Finset.notMem_erase r' _ hr'
  have hrow : ∀ u : κ → ι → ℕ, ∑ y, u r y = u r x + ∑ y ∈ Finset.univ.erase x, u r y :=
    fun u => (Finset.add_sum_erase _ _ (Finset.mem_univ x)).symm
  rw [← Finset.add_sum_erase _ _ hr, ← Finset.add_sum_erase _ _ hr, hothers, hrow f, hrow g, hrest]
  omega

end Lib
