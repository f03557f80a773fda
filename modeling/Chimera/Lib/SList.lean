import Mathlib.Data.List.Nodup

/-!
# Intrusive singly linked lists

Nodes of type `α` carry one link field, read by `next`; a list is a head pointer. `Chain next hd l`
says that walking from `hd` meets exactly the nodes `l` and then ends. A walk that ends meets no
node twice (`Chain.nodup`), so a chain is acyclic by itself; what a client needs besides is a frame
rule (`Chain.congr`), a rule for the front (`chain_cons`) and one for a link inside (`Chain.relink`).
-/

namespace Lib

variable {α : Type*} {next next' : α → Option α}

/-- The nodes reached from `hd` are `l`. -/
def Chain (next : α → Option α) : Option α → List α → Prop
  | hd, [] => hd = none
  | hd, x :: xs => hd = some x ∧ Chain next (next x) xs

variable {hd : Option α} {x : α} {a l : List α}

lemma chain_nil : Chain next hd [] ↔ hd = none := Iff.rfl

lemma chain_cons {xs : List α} : Chain next hd (x :: xs) ↔ hd = some x ∧ Chain next (next x) xs := Iff.rfl

/-- **Frame.** A list only depends on the links of its own nodes. -/
lemma Chain.congr (h : Chain next hd l) (hn : ∀ x ∈ l, next' x = next x) : Chain next' hd l := by
  induction l generalizing hd with
  | nil => exact h
  | cons x xs ih =>
    refine ⟨h.1, ?_⟩
    rw [hn x List.mem_cons_self]
    exact ih h.2 fun y hy => hn y (List.mem_cons_of_mem _ hy)

/-- **Relinking.** Behind the node `y` another list goes on. -/
lemma Chain.relink {b b' : List α} {y : α} (h : Chain next hd (a ++ y :: b)) (ha : ∀ z ∈ a, next' z = next z)
    (hb : Chain next' (next' y) b') :
    Chain next' hd (a ++ y :: b') := by
  induction a generalizing hd with
  | nil => exact ⟨h.1, hb⟩
  | cons z a ih =>
    refine ⟨h.1, ?_⟩
    rw [ha z List.mem_cons_self]
    exact ih h.2 fun w hw => ha w (List.mem_cons_of_mem _ hw)

/-- A node joins at the end, behind `y`. -/
lemma Chain.concat {y : α} (h : Chain next hd (a ++ [y])) (ha : ∀ z ∈ a, next' z = next z)
    (hy : next' y = some x) (hx : next' x = none) :
    Chain next' hd (a ++ [y] ++ [x]) := by
  rw [List.append_assoc]
  refine h.relink ha ?_
  rw [hy]
  exact ⟨rfl, hx⟩

/-- The head determines the list. -/
lemma Chain.unique {l' : List α} (h : Chain next hd l) (h' : Chain next hd l') : l = l' := by
  induction l generalizing hd l' with
  | nil =>
    cases l' with
    | nil => rfl
    | cons y ys => exact absurd (h.symm.trans h'.1) (by simp)
  | cons x xs ih =>
    cases l' with
    | nil => exact absurd (h'.symm.trans h.1) (by simp)
    | cons y ys =>
      obtain rfl : x = y := Option.some.inj (h.1.symm.trans h'.1)
      rw [ih h.2 h'.2]

/-- From a node on, a list is the list of its link. -/
lemma Chain.tail_of_mem {b : List α} (h : Chain next hd (a ++ x :: b)) : Chain next (next x) b := by
  induction a generalizing hd with
  | nil => exact h.2
  | cons c a ih => exact ih h.2

/-- **A chain is acyclic.** -/
lemma Chain.nodup (h : Chain next hd l) : l.Nodup := by
  induction l generalizing hd with
  | nil => exact List.nodup_nil
  | cons x xs ih =>
    refine List.nodup_cons.mpr ⟨fun hx => ?_, ih h.2⟩
    -- a second visit of `x` would be followed by the same list again
    obtain ⟨a, b, hab⟩ := List.append_of_mem hx
    have htail : Chain next (next x) (a ++ x :: b) := hab ▸ h.2
    have heq := congrArg List.length (htail.unique htail.tail_of_mem)
    simp only [List.length_append, List.length_cons] at heq
    omega

end Lib
