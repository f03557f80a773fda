import Mathlib.Tactic
import Chimera.Lib.SList

/-!
# Walking a linked list by its links

A walk over an intrusive list that means to change it keeps the address `pp` of a link: that of the head
(`none`) or that of a node (`some u`). `Links` is a head with the links of all nodes, and `get` and `set`
read and write `*pp`. If the list is `A ++ B` and `pp` is the link behind `A`, then writing `*pp` replaces
`B` (`IsList.set`). From this follow the three walks: insertion (`insertAfter_spec`), removal of a node
(`remove_spec`) and removal of the last node (`takeLast_spec`). A walk takes fuel, since the links might
be cyclic.
-/

namespace Lib

variable {α : Type*}

/-- The head of a list and the links of all nodes. -/
structure Links (α : Type*) where
  head : Option α
  next : α → Option α

namespace Links

/-- `*pp`. -/
def get (l : Links α) : Option α → Option α
  | none => l.head
  | some u => l.next u

/-- The nodes of the list. -/
def IsList (l : Links α) (L : List α) : Prop := Chain l.next l.head L

section lists

variable {l l' : Links α} {A B : List α}

/-- The link behind `A` leads to the rest. -/
lemma IsList.get (h : l.IsList (A ++ B)) : Chain l.next (l.get A.getLast?) B := by
  obtain rfl | ⟨a, y, rfl⟩ := List.eq_nil_or_concat' A
  · exact h
  · rw [List.getLast?_concat]
    rw [IsList, List.append_assoc, List.singleton_append] at h
    exact h.tail_of_mem

lemma IsList.get_cons {c : α} (h : l.IsList (A ++ c :: B)) : l.get A.getLast? = some c := h.get.1

lemma IsList.get_nil (h : l.IsList (A ++ [])) : l.get A.getLast? = none := h.get

lemma IsList.nodup {L : List α} (h : l.IsList L) : L.Nodup := Chain.nodup h

lemma IsList.congr {L : List α} (h : l.IsList L) (hhead : l'.head = l.head)
    (hnext : ∀ y ∈ L, l'.next y = l.next y) : l'.IsList L := by
  rw [IsList, hhead]
  exact Chain.congr h hnext

end lists

variable [DecidableEq α]

/-- `*pp = n`. -/
def set (l : Links α) (pp n : Option α) : Links α :=
  match pp with
  | none => { l with head := n }
  | some u => { l with next := Function.update l.next u n }

/-- `while (*pp && keep(*pp)) pp = &(*pp)->next; x->next = *pp; *pp = x`. -/
def insertAfter (keep : α → Bool) (x : α) : ℕ → Option α → Links α → Option (Links α)
  | 0, _, _ => none
  | n + 1, pp, l =>
      match l.get pp with
      | none => some ((l.set (some x) none).set pp (some x))
      | some c =>
          if keep c then insertAfter keep x n (some c) l
          else some ((l.set (some x) (some c)).set pp (some x))

/-- `while (*pp) { if (*pp == x) { *pp = x->next; x->next = nullptr; return; } pp = &(*pp)->next; }`, and
whether the node was found. -/
def remove (x : α) : ℕ → Option α → Links α → Option (Bool × Links α)
  | 0, _, _ => none
  | n + 1, pp, l =>
      match l.get pp with
      | none => some (false, l)
      | some c =>
          if c = x then some (true, (l.set pp (l.next x)).set (some x) none)
          else remove x n (some c) l

/-- `while (curr->next) { prev = curr; curr = curr->next; }`, and then the link behind `prev` is cleared:
the last node, and the list without it. -/
def takeLast : ℕ → Option α → α → Links α → Option (α × Links α)
  | 0, _, _, _ => none
  | n + 1, prev, curr, l =>
      match l.next curr with
      | none => some (curr, l.set prev none)
      | some c => takeLast n (some curr) c l

variable {l l' : Links α} {A B : List α} {x : α} {n : ℕ}

lemma next_set_of_ne {pp m : Option α} {y : α} (h : pp ≠ some y) : (l.set pp m).next y = l.next y := by
  cases pp with
  | none => rfl
  | some u => exact Function.update_of_ne (fun e => h (congrArg some e.symm)) _ _

/-- **Writing the link behind `A`** replaces the rest. -/
lemma IsList.set {B' : List α} {m : Option α} (h : l.IsList (A ++ B))
    (hm : Chain (l.set A.getLast? m).next m B') : (l.set A.getLast? m).IsList (A ++ B') := by
  obtain rfl | ⟨a, y, rfl⟩ := List.eq_nil_or_concat' A
  · exact hm
  · rw [List.getLast?_concat] at hm ⊢
    rw [IsList, List.append_assoc, List.singleton_append] at h ⊢
    refine h.relink (fun z hz => next_set_of_ne ?_) ?_
    · rintro hzy
      cases hzy
      exact List.disjoint_of_nodup_append h.nodup hz List.mem_cons_self
    · have hy : (l.set (some y) m).next y = m := Function.update_self _ _ _
      rwa [hy]

/-! ## Insertion -/

lemma IsList.insert (h : l.IsList (A ++ B)) (hx : x ∉ A ++ B) :
    ((l.set (some x) (l.get A.getLast?)).set A.getLast? (some x)).IsList (A ++ x :: B) ∧ ∀ y, y ∉ x :: (A ++ B) →
        ((l.set (some x) (l.get A.getLast?)).set A.getLast? (some x)).next y = l.next y := by
  have hxA : A.getLast? ≠ some x := fun e => hx (List.mem_append_left _ (List.mem_of_getLast? e))
  have hlink : ∀ y ∈ B, A.getLast? ≠ some y := fun y hy e =>
    List.disjoint_of_nodup_append h.nodup (List.mem_of_getLast? e) hy
  have hB : ∀ y ∈ A ++ B, some x ≠ some y := by
    rintro y hy e
    exact hx (Option.some.inj e ▸ hy)
  have h1 : (l.set (some x) (l.get A.getLast?)).IsList (A ++ B) := h.congr rfl fun y hy => next_set_of_ne (hB y hy)
  refine ⟨h1.set ⟨rfl, ?_⟩, fun y hy => ?_⟩
  · rw [next_set_of_ne hxA]
    have hxn : (l.set (some x) (l.get A.getLast?)).next x = l.get A.getLast? := Function.update_self _ _ _
    rw [hxn]
    refine h.get.congr fun y hy => ?_
    rw [next_set_of_ne (hlink y hy), next_set_of_ne (hB y (List.mem_append_right _ hy))]
  · rw [List.mem_cons, not_or, List.mem_append, not_or] at hy
    rw [next_set_of_ne fun e => hy.2.1 (List.mem_of_getLast? e),
      next_set_of_ne fun e => hy.1 (Option.some.inj e).symm]

/-- **Insertion** puts the node behind all those that are kept. -/
lemma insertAfter_spec {keep : α → Bool} (h : l.IsList (A ++ B)) (hx : x ∉ A ++ B)
    (hl : insertAfter keep x n A.getLast? l = some l') :
    l'.IsList (A ++ (B.takeWhile keep ++ x :: B.dropWhile keep)) ∧ ∀ y, y ∉ x :: (A ++ B) → l'.next y = l.next y := by
  induction n generalizing A B with
  | zero => cases hl
  | succ n ih =>
    rw [insertAfter] at hl
    cases B with
    | nil =>
      have hget := h.get_nil
      rw [hget] at hl
      cases hl
      rw [← hget]
      exact h.insert hx
    | cons c B =>
      have hget := h.get_cons
      rw [hget] at hl
      dsimp only at hl
      split_ifs at hl with hc
      · rw [List.takeWhile_cons_of_pos hc, List.dropWhile_cons_of_pos hc, List.cons_append,
          List.append_cons, List.append_cons A c B]
        rw [List.append_cons] at h hx
        exact ih h hx (by rwa [List.getLast?_concat])
      · cases hl
        rw [List.takeWhile_cons_of_neg (by simpa using hc), List.dropWhile_cons_of_neg (by simpa using hc), ← hget]
        exact h.insert hx

/-! ## Removal -/

lemma IsList.erase_node (h : l.IsList (A ++ x :: B)) :
    ((l.set A.getLast? (l.next x)).set (some x) none).IsList (A ++ B) ∧
      ∀ y, y ∉ A ++ x :: B → ((l.set A.getLast? (l.next x)).set (some x) none).next y = l.next y := by
  have hnd := h.nodup
  have hxAB : x ∉ A ++ B := (List.nodup_cons.mp (List.nodup_middle.mp hnd)).1
  have hB : Chain (l.set A.getLast? (l.next x)).next (l.next x) B := by
    refine (Chain.tail_of_mem h).congr fun y hy => next_set_of_ne fun e => ?_
    exact List.disjoint_of_nodup_append hnd (List.mem_of_getLast? e) (List.mem_cons_of_mem _ hy)
  refine ⟨(h.set hB).congr rfl fun y hy => next_set_of_ne ?_, fun y hy => ?_⟩
  · rintro e
    exact hxAB (Option.some.inj e ▸ hy)
  · rw [List.mem_append, not_or, List.mem_cons, not_or] at hy
    rw [next_set_of_ne fun e => hy.2.1 (Option.some.inj e).symm,
      next_set_of_ne fun e => hy.1 (List.mem_of_getLast? e)]

lemma remove_spec {r : Bool × Links α} (h : l.IsList (A ++ B)) (hx : x ∉ A)
    (hr : remove x n A.getLast? l = some r) :
    r.1 = decide (x ∈ B) ∧ r.2.IsList ((A ++ B).erase x) ∧ (x ∈ B → r.2.next x = none) ∧
      ∀ y, y ∉ A ++ B → r.2.next y = l.next y := by
  induction n generalizing A B with
  | zero => cases hr
  | succ n ih =>
    rw [remove] at hr
    cases B with
    | nil =>
      have hget := h.get_nil
      rw [hget] at hr
      cases hr
      rw [List.append_nil, List.erase_of_not_mem hx]
      rw [List.append_nil] at h
      exact ⟨by simp, h, nofun, fun _ _ => rfl⟩
    | cons c B =>
      rw [h.get_cons] at hr
      dsimp only at hr
      split_ifs at hr with hc
      · cases hr
        subst hc
        rw [List.erase_append_right _ hx, List.erase_cons_head]
        exact ⟨by simp, h.erase_node.1, fun _ => Function.update_self _ _ _, h.erase_node.2⟩
      · rw [List.append_cons] at h ⊢
        obtain ⟨h1, h2, h3, h4⟩ := ih h (by simpa [hx] using Ne.symm hc) (by rwa [List.getLast?_concat])
        refine ⟨by rw [h1]; simp [Ne.symm hc], h2, fun hmem => h3 ?_, h4⟩
        exact (List.mem_cons.mp hmem).resolve_left (Ne.symm hc)

lemma takeLast_spec {c : α} {r : α × Links α} (h : l.IsList (A ++ c :: B))
    (hr : takeLast n A.getLast? c l = some r) :
    (∃ D, A ++ c :: B = D ++ [r.1] ∧ r.2.IsList D) ∧ ∀ y, y ∉ A ++ c :: B → r.2.next y = l.next y := by
  induction n generalizing A B c with
  | zero => cases hr
  | succ n ih =>
    rw [takeLast] at hr
    cases B with
    | nil =>
      have hnext : l.next c = none := (Chain.tail_of_mem h : Chain l.next (l.next c) [])
      rw [hnext] at hr
      cases hr
      refine ⟨⟨A, rfl, ?_⟩, fun y hy => next_set_of_ne fun e => hy ?_⟩
      · have hset : (l.set A.getLast? none).IsList (A ++ []) := h.set rfl
        rwa [List.append_nil] at hset
      · exact List.mem_append_left _ (List.mem_of_getLast? e)
    | cons d B =>
      have hnext : l.next c = some d := (Chain.tail_of_mem h : Chain l.next (l.next c) (d :: B)).1
      rw [hnext] at hr
      rw [List.append_cons] at h ⊢
      exact ih h (by rwa [List.getLast?_concat])

end Links

end Lib
