import Mathlib.Data.List.Nodup

/-!
# Intrusive doubly linked lists

Nodes of type `α` carry two link fields, read by `next` and `prev`; a list is a head pointer.
`Linked next prev pv hd l` says that walking from `hd` meets exactly the nodes `l`, that every
back link is right, and that the back link of the first node is `pv`. The three facts a client
needs are a frame rule (`Linked.congr`), insertion at the front (`IsDList.push`) and removal of
an arbitrary member (`IsDList.unlink`).
-/

namespace Lib

open List (mem_cons_of_mem mem_cons_self)

variable {α : Type*}

/-- The nodes reached from `hd` are `l`, linked both ways, the first one back to `pv`. -/
def Linked (next prev : α → Option α) : Option α → Option α → List α → Prop
  | _, hd, [] => hd = none
  | pv, hd, x :: xs => hd = some x ∧ prev x = pv ∧ Linked next prev (some x) (next x) xs

/-- `hd` heads a well-formed doubly linked list with the nodes `l`. -/
def IsDList (next prev : α → Option α) (hd : Option α) (l : List α) : Prop :=
  Linked next prev none hd l

section links

variable {next prev next' prev' : α → Option α} {hd pv : Option α} {x : α} {a b l : List α}

@[simp] lemma linked_cons {xs : List α} : Linked next prev pv hd (x :: xs) ↔
      hd = some x ∧ prev x = pv ∧ Linked next prev (some x) (next x) xs := Iff.rfl

/-- The head pointer is the first node. -/
lemma Linked.head (h : Linked next prev pv hd l) : hd = l.head? := by
  cases l with
  | nil => exact h
  | cons x xs => exact h.1

/-- **Frame.** A list only depends on the links of its own nodes. -/
lemma Linked.congr (h : Linked next prev pv hd l) (hn : ∀ x ∈ l, next' x = next x)
    (hp : ∀ x ∈ l, prev' x = prev x) :
    Linked next' prev' pv hd l := by
  induction l generalizing pv hd with
  | nil => exact h
  | cons x xs ih =>
    obtain ⟨hhd, hpv, hrest⟩ := h
    refine ⟨hhd, (hp x mem_cons_self).trans hpv, ?_⟩
    rw [hn x mem_cons_self]
    exact ih hrest (fun y hy => hn y (mem_cons_of_mem _ hy))
      (fun y hy => hp y (mem_cons_of_mem _ hy))

/-- In the middle of a list the forward link is the next member. -/
lemma Linked.next_mid (h : Linked next prev pv hd (a ++ x :: b)) : next x = b.head? := by
  induction a generalizing pv hd with
  | nil => exact h.2.2.head
  | cons c a ih => exact ih h.2.2

/-- In the middle of a list the back link is the previous member, or `pv` at the front. -/
lemma Linked.prev_mid (h : Linked next prev pv hd (a ++ x :: b)) : prev x = a.getLast?.or pv := by
  induction a generalizing pv hd with
  | nil => simpa using h.2.1
  | cons c a ih =>
    have hrec := ih h.2.2
    cases a with
    | nil => simpa using hrec
    | cons d a => simpa [List.getLast?_cons] using hrec

variable [DecidableEq α]

/-- Changing the back link of the first node only changes what the list reports as its
predecessor. -/
lemma Linked.relink_head {pv' : Option α} (h : Linked next prev pv hd l) (hnd : l.Nodup)
    (hn : ∀ x ∈ l, next' x = next x) (hp : ∀ x ∈ l, prev' x = if some x = hd then pv' else prev x) :
    Linked next' prev' pv' hd l := by
  cases l with
  | nil => exact h
  | cons x xs =>
    obtain ⟨rfl, hpv, hrest⟩ := h
    obtain ⟨hx, hxs⟩ := List.nodup_cons.mp hnd
    refine ⟨rfl, by simpa using hp x mem_cons_self, ?_⟩
    rw [hn x mem_cons_self]
    refine hrest.congr (fun y hy => hn y (mem_cons_of_mem _ hy)) fun y hy => ?_
    have hyx : some y ≠ some x := fun h => hx (Option.some.inj h ▸ hy)
    rw [hp y (mem_cons_of_mem _ hy), if_neg hyx]

/-- **Removing a member**: its two neighbours are linked to each other; when it was the first
node the head moves on. -/
lemma Linked.unlink (h : Linked next prev pv hd (a ++ x :: b)) (hnd : (a ++ x :: b).Nodup)
    (hpv : ∀ y ∈ a ++ x :: b, pv ≠ some y)
    (hn : ∀ y ∈ a ++ b, next' y = if prev x = some y then next x else next y)
    (hp : ∀ y ∈ a ++ b, prev' y = if next x = some y then prev x else prev y) :
    Linked next' prev' pv (if a = [] then next x else hd) (a ++ b) := by
  induction a generalizing pv hd with
  | nil =>
    obtain ⟨-, hpx, hrest⟩ := h
    have hb : b.Nodup := (List.nodup_cons.mp hnd).2
    simp only [List.nil_append, ↓reduceIte] at *
    refine hrest.relink_head hb (fun y hy => ?_) fun y hy => ?_
    · have hne : prev x ≠ some y := hpx ▸ hpv y (mem_cons_of_mem _ hy)
      rw [hn y hy, if_neg hne]
    · rw [hp y hy, hpx]
      simp only [eq_comm]
  | cons c a ih =>
    have hmid := h.next_mid
    have hback := h.prev_mid
    obtain ⟨hhd, hpc, hrest⟩ := h
    obtain ⟨hc, hnd'⟩ := List.nodup_cons.mp hnd
    -- the removed node's successor lies behind it, so it is not `c`
    have hcx : next x ≠ some c := by
      intro hcontra
      have : c ∈ b := List.mem_of_head? (hmid ▸ hcontra)
      exact hc (by simp [this])
    have hrec := ih hrest hnd' (fun y hy hcy => hc (Option.some.inj hcy ▸ hy))
      (fun y hy => hn y (mem_cons_of_mem _ hy))
      (fun y hy => hp y (mem_cons_of_mem _ hy))
    refine ⟨by simpa using hhd, ?_, ?_⟩
    · rw [hp c (by simp), if_neg hcx]
      exact hpc
    · rw [hn c (by simp), hback]
      cases a with
      | nil => simpa using hrec
      | cons d a =>
        have hlast : (c :: d :: a).getLast?.or pv ≠ some c := by
          intro hcontra
          have hmem : c ∈ d :: a := by
            simp only [List.getLast?_cons_cons] at hcontra
            rw [List.getLast?_eq_some_getLast (List.cons_ne_nil d a), Option.some_or] at hcontra
            exact Option.some.inj hcontra ▸ List.getLast_mem _
          exact hc (List.mem_append_left _ hmem)
        rw [if_neg hlast]
        simpa using hrec

end links

section dlist

variable {next prev next' prev' : α → Option α} {hd : Option α} {l : List α} {x : α}

section

variable (h : IsDList next prev hd l)
include h

/-- A doubly linked list only depends on the links of its own nodes. -/
lemma IsDList.congr (hn : ∀ x ∈ l, next' x = next x)
    (hp : ∀ x ∈ l, prev' x = prev x) :
    IsDList next' prev' hd l :=
  Linked.congr h hn hp

/-- A list is empty exactly when its head pointer is null. -/
lemma IsDList.head_eq_none : hd = none ↔ l = [] := by
  rw [Linked.head h, List.head?_eq_none_iff]

/-- No member is its own predecessor. -/
lemma IsDList.prev_ne_self (hnd : l.Nodup) (hx : x ∈ l) : prev x ≠ some x := by
  obtain ⟨a, b, rfl⟩ := List.append_of_mem hx
  intro hself
  have hback : prev x = a.getLast?.or none := Linked.prev_mid h
  rw [hself, Option.or_none] at hback
  exact List.disjoint_of_nodup_append hnd (List.mem_of_getLast? hback.symm) mem_cons_self

/-- The predecessor of a member is a member. -/
lemma IsDList.prev_mem {y : α} (hx : x ∈ l) (hy : prev x = some y) : y ∈ l := by
  obtain ⟨a, b, rfl⟩ := List.append_of_mem hx
  have hback : prev x = a.getLast?.or none := Linked.prev_mid h
  rw [hy, Option.or_none] at hback
  exact List.mem_append_left _ (List.mem_of_getLast? hback.symm)

/-- The successor of a member is a member. -/
lemma IsDList.next_mem {y : α} (hx : x ∈ l) (hy : next x = some y) : y ∈ l := by
  obtain ⟨a, b, rfl⟩ := List.append_of_mem hx
  have hmid : next x = b.head? := Linked.next_mid h
  rw [hy] at hmid
  exact List.mem_append_right _ (mem_cons_of_mem _ (List.mem_of_head? hmid.symm))

end

/-- The head pointer names a member. -/
lemma IsDList.head_mem (h : IsDList next prev (some x) l) : x ∈ l := List.mem_of_head? (Linked.head h).symm

variable [DecidableEq α]

/-- **Insertion at the front**: the new node points at the old head and the old head back at
it. -/
lemma IsDList.push (h : IsDList next prev hd l) (hnd : l.Nodup) (hxn : next' x = hd) (hxp : prev' x = none)
    (hn : ∀ y ∈ l, next' y = next y) (hp : ∀ y ∈ l, prev' y = if some y = hd then some x else prev y) :
    IsDList next' prev' (some x) (x :: l) := by
  refine ⟨rfl, hxp, ?_⟩
  rw [hxn]
  exact Linked.relink_head h hnd hn hp

lemma IsDList.unlink (h : IsDList next prev hd l) (hnd : l.Nodup) (hx : x ∈ l)
    (hn : ∀ y ∈ l, y ≠ x → next' y = if prev x = some y then next x else next y)
    (hp : ∀ y ∈ l, y ≠ x → prev' y = if next x = some y then prev x else prev y) :
    IsDList next' prev' (if prev x = none then next x else hd) (l.erase x) := by
  obtain ⟨a, b, rfl⟩ := List.append_of_mem hx
  have hxa : x ∉ a := fun hxa => (List.disjoint_of_nodup_append hnd) hxa mem_cons_self
  have hxb : x ∉ b := (List.nodup_cons.mp (List.nodup_append.mp hnd).2.1).1
  have hsub : ∀ y ∈ a ++ b, y ∈ a ++ x :: b ∧ y ≠ x := by
    intro y hy
    rcases List.mem_append.mp hy with hya | hyb
    · exact ⟨List.mem_append_left _ hya, fun hyx => hxa (hyx ▸ hya)⟩
    · exact ⟨List.mem_append_right _ (mem_cons_of_mem _ hyb), fun hyx => hxb (hyx ▸ hyb)⟩
  have herase : (a ++ x :: b).erase x = a ++ b := by rw [List.erase_append_right _ hxa, List.erase_cons_head]
  have hback : prev x = a.getLast?.or none := Linked.prev_mid h
  have hfront : (prev x = none) ↔ a = [] := by
    rw [hback]
    simp
  rw [herase]
  simp only [hfront]
  exact Linked.unlink h hnd (by simp) (fun y hy => hn y (hsub y hy).1 (hsub y hy).2)
    (fun y hy => hp y (hsub y hy).1 (hsub y hy).2)

end dlist

end Lib
