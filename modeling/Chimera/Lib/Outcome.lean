import Mathlib.Logic.Basic

/-!
# Outcomes of computations that may stop

A computation of `Except ε α` either gives a result or stops with an error. `Ensures E P x` says that each
result of `x` satisfies `P` and each error `E`: with `E` everywhere false it is total correctness, with `E`
everywhere true partial correctness. The rules follow the shape of a program.
-/

namespace Lib

universe u

variable {ε : Type*} {α β : Type u} {E : ε → Prop} {P P' : α → Prop} {Q : β → Prop} {x : Except ε α}

def Ensures (E : ε → Prop) (P : α → Prop) : Except ε α → Prop
  | .ok a => P a
  | .error e => E e

variable {a : α} {e : ε} {f : α → Except ε β} {E' : ε → Prop}

@[simp] lemma ensures_ok : Ensures E P (.ok a) ↔ P a := Iff.rfl

@[simp] lemma ensures_pure : Ensures E P (pure a) ↔ P a := Iff.rfl

@[simp] lemma ensures_bind_ok : Ensures E Q (.ok a >>= f) ↔ Ensures E Q (f a) := Iff.rfl

lemma Ensures.mono (h : Ensures E P x) (hp : ∀ a, P a → P' a) : Ensures E P' x := by
  cases x with
  | ok a => exact hp a h
  | error e => exact h

lemma Ensures.weaken (h : Ensures E P x) (he : ∀ e, E e → E' e) : Ensures E' P x := by
  cases x with
  | ok a => exact h
  | error e => exact he e h

/-- A computation goes on from each result of the one before. -/
lemma Ensures.bind (h : Ensures E P x) (hf : ∀ a, P a → Ensures E Q (f a)) : Ensures E Q (x >>= f) := by
  cases x with
  | ok a => exact hf a h
  | error e => exact h

lemma Ensures.map {f : α → β} (h : Ensures E (fun a => Q (f a)) x) : Ensures E Q (x.map f) := by
  cases x with
  | ok a => exact h
  | error e => exact h

lemma Ensures.of_eq (h : Ensures E P x) (hx : x = .ok a) : P a := by
  rw [hx] at h
  exact h

lemma Ensures.ne_error (h : Ensures E P x) (he : ¬E e) : x ≠ .error e := by
  rintro rfl
  exact he h

end Lib
