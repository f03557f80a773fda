import Mathlib.Data.Nat.Init

/-!
# Counted loops

`forUpTo f n s` is the loop `for (i = 0; i < n; i++) s = f(i, s)`. Its one proof rule,
`forUpTo_invariant`, carries an invariant indexed by the number of rounds already run.
-/

namespace Lib

variable {σ : Type*}

/-- Run `f 0`, `f 1`, …, `f (n - 1)` on a state, in this order. -/
def forUpTo (f : ℕ → σ → σ) : ℕ → σ → σ
  | 0, s => s
  | n + 1, s => f n (forUpTo f n s)

/-- **The loop rule.** An invariant that holds before round `0` and that round `i` carries from
`i` to `i + 1` holds after the loop. -/
theorem forUpTo_invariant {f : ℕ → σ → σ} (I : ℕ → σ → Prop) {n : ℕ} {s : σ} (h0 : I 0 s)
    (hstep : ∀ i < n, ∀ t, I i t → I (i + 1) (f i t)) : I n (forUpTo f n s) := by
  induction n with
  | zero => exact h0
  | succ n ih =>
    have hn : I n (forUpTo f n s) := ih fun i hi => hstep i (by omega)
    exact hstep n (by omega) _ hn

/-- A loop whose rounds all leave the state alone leaves it alone. -/
lemma forUpTo_eq_self {f : ℕ → σ → σ} {n : ℕ} {s : σ} (h : ∀ i < n, f i s = s) : forUpTo f n s = s := by
  refine forUpTo_invariant (fun _ t => t = s) rfl ?_
  rintro i hi t rfl
  exact h i hi

end Lib
