import Chimera.Lib.DList

/-!
# Queues

What a bounded queue is for, and how one is kept in memory.

`Fifo` is the specification: items with consecutive numbers, sent at the end and received at the front.
Along a run (`Fifo.Run`) what was sent is what was received followed by what is still there
(`Fifo.Run.conserved`), the numbers count up (`Fifo.Run.numbers`), and the queue never exceeds its limit
(`Fifo.Run.bounded`).

`IsDQueue` is the representation: a doubly linked list with a pointer to each end. Its rules are a frame
rule and one rule for each end (`IsDQueue.enqueue`, `IsDQueue.dequeue`).
-/

namespace Lib

variable {α : Type*}

/-! ## The specification -/

/-- A queue of numbered items, and the number of the next one. -/
structure Fifo (α : Type*) where
  items : List (α × ℕ)
  next : ℕ

/-- What happens to a queue. -/
inductive FifoEvent (α : Type*) where
  | send (x : α × ℕ)
  | receive (x : α × ℕ)

/-- The items a trace sends, in order. -/
def sent (tr : List (FifoEvent α)) : List (α × ℕ) :=
  tr.filterMap fun
    | .send x => some x
    | .receive _ => none

/-- The items a trace receives, in order. -/
def received (tr : List (FifoEvent α)) : List (α × ℕ) :=
  tr.filterMap fun
    | .send _ => none
    | .receive x => some x

@[simp] lemma sent_nil : sent ([] : List (FifoEvent α)) = [] := rfl
@[simp] lemma received_nil : received ([] : List (FifoEvent α)) = [] := rfl

@[simp] lemma sent_send (tr : List (FifoEvent α)) (x : α × ℕ) : sent (tr ++ [.send x]) = sent tr ++ [x] := by
  simp [sent, List.filterMap_append]

@[simp] lemma sent_receive (tr : List (FifoEvent α)) (x : α × ℕ) : sent (tr ++ [.receive x]) = sent tr := by
  simp [sent, List.filterMap_append]

@[simp] lemma received_send (tr : List (FifoEvent α)) (x : α × ℕ) : received (tr ++ [.send x]) = received tr := by
  simp [received, List.filterMap_append]

@[simp] lemma received_receive (tr : List (FifoEvent α)) (x : α × ℕ) :
    received (tr ++ [.receive x]) = received tr ++ [x] := by
  simp [received, List.filterMap_append]

/-- The runs of a queue that holds at most `cap` items and numbers them modulo `m`. -/
inductive Fifo.Run (cap m : ℕ) (f₀ : Fifo α) : List (FifoEvent α) → Fifo α → Prop
  | start : Fifo.Run cap m f₀ [] f₀
  | send {tr : List (FifoEvent α)} {f : Fifo α} (x : α) (hrun : Fifo.Run cap m f₀ tr f)
      (hroom : f.items.length < cap) :
      Fifo.Run cap m f₀ (tr ++ [.send (x, f.next)]) ⟨f.items ++ [(x, f.next)], (f.next + 1) % m⟩
  | receive {tr : List (FifoEvent α)} {f : Fifo α} {x : α × ℕ} {l : List (α × ℕ)}
      (hrun : Fifo.Run cap m f₀ tr f) (hl : f.items = x :: l) :
      Fifo.Run cap m f₀ (tr ++ [.receive x]) ⟨l, f.next⟩

namespace Fifo.Run

variable {cap m : ℕ} {f₀ f : Fifo α} {tr : List (FifoEvent α)}

section

variable (h : Fifo.Run cap m f₀ tr f)
include h

/-- **Nothing is lost, doubled or overtaken.** -/
lemma conserved : f₀.items ++ sent tr = received tr ++ f.items := by
  induction h with
  | start => simp
  | send x _ _ ih => rw [sent_send, received_send, ← List.append_assoc, ih, List.append_assoc]
  | receive _ hl ih =>
    rw [sent_receive, received_receive, ih, hl, List.append_assoc]
    rfl

/-- **The limit.** -/
lemma bounded (h0 : f₀.items.length ≤ cap) : f.items.length ≤ cap := by
  induction h with
  | start => exact h0
  | send x _ hroom _ =>
    rw [List.length_append, List.length_singleton]
    exact hroom
  | receive _ hl ih =>
    rw [hl, List.length_cons] at ih
    exact Nat.le_of_succ_le ih

/-- The counter is ahead by the number of items sent. -/
lemma next_eq (h0 : f₀.next < m) : f.next = (f₀.next + (sent tr).length) % m := by
  induction h with
  | start => exact (Nat.mod_eq_of_lt h0).symm
  | send x _ _ ih =>
    rw [sent_send, List.length_append, List.length_singleton]
    rw [ih, Nat.mod_add_mod, Nat.add_assoc]
  | receive _ _ ih =>
    rw [sent_receive]
    exact ih

/-- **The numbers are consecutive.** -/
lemma numbers (h0 : f₀.next < m) :
    (sent tr).map Prod.snd = (List.range (sent tr).length).map fun i => (f₀.next + i) % m := by
  induction h with
  | start => rfl
  | send x hrun _ ih =>
    rw [sent_send, List.length_append, List.length_singleton, List.range_succ, List.map_append,
      List.map_append, ih, hrun.next_eq h0]
    rfl
  | receive _ _ ih =>
    rw [sent_receive]
    exact ih

end

end Fifo.Run

/-! ## The representation -/

/-- A doubly linked list with the nodes `l`, from `hd` to `tl`. -/
structure IsDQueue (next prev : α → Option α) (hd tl : Option α) (l : List α) : Prop where
  nodup : l.Nodup
  list : IsDList next prev hd l
  last : tl = l.getLast?

section dqueue

variable {next prev next' prev' : α → Option α} {hd tl : Option α} {l : List α} {x : α}

lemma IsDQueue.nil (next prev : α → Option α) : IsDQueue next prev none none [] := ⟨List.nodup_nil, rfl, rfl⟩

lemma IsDQueue.congr (h : IsDQueue next prev hd tl l) (hn : ∀ x ∈ l, next' x = next x)
    (hp : ∀ x ∈ l, prev' x = prev x) : IsDQueue next' prev' hd tl l :=
  ⟨h.nodup, h.list.congr hn hp, h.last⟩

lemma IsDQueue.tail_mem (h : IsDQueue next prev hd (some x) l) : x ∈ l := List.mem_of_getLast? h.last.symm

/-- There is no last node exactly if there is no node. -/
lemma IsDQueue.tail_eq_none (h : IsDQueue next prev hd tl l) : tl = none ↔ l = [] := by
  rw [h.last, List.getLast?_eq_none_iff]

variable [DecidableEq α]

/-- A node joins at the end of a list; the last node is linked to it. -/
lemma Linked.concat {pv : Option α} (h : Linked next prev pv hd l) (hnd : l.Nodup)
    (hxn : next' x = none) (hxp : prev' x = l.getLast?.or pv)
    (hn : ∀ y ∈ l, next' y = if l.getLast? = some y then some x else next y)
    (hp : ∀ y ∈ l, prev' y = prev y) :
    Linked next' prev' pv (if l = [] then some x else hd) (l ++ [x]) := by
  induction l generalizing pv hd with
  | nil => exact ⟨rfl, hxp, hxn⟩
  | cons z zs ih =>
    obtain ⟨hhd, hpv, hrest⟩ := h
    obtain ⟨hz, hzs⟩ := List.nodup_cons.mp hnd
    refine ⟨hhd, (hp z List.mem_cons_self).trans hpv, ?_⟩
    have hlast : ∀ y ∈ zs, ((z :: zs).getLast? = some y ↔ zs.getLast? = some y) := by
      intro y hy
      cases zs with
      | nil => cases hy
      | cons w ws => rw [List.getLast?_cons_cons]
    have hrec := ih hrest hzs
      (by cases zs with
        | nil => exact hxp
        | cons w ws => simpa [List.getLast?_cons] using hxp)
      (fun y hy => by simpa only [hlast y hy] using hn y (List.mem_cons_of_mem _ hy))
      (fun y hy => hp y (List.mem_cons_of_mem _ hy))
    -- the link of `z` leads to the new node only if `z` was the last one
    have hzn : next' z = if zs = [] then some x else next z := by
      rw [hn z List.mem_cons_self]
      cases zs with
      | nil => simp
      | cons w ws =>
        have hne : (z :: w :: ws).getLast? ≠ some z := by
          rw [List.getLast?_cons_cons]
          exact fun hcontra => hz (List.mem_of_getLast? hcontra)
        rw [if_neg hne, if_neg (List.cons_ne_nil w ws)]
    rw [hzn]
    exact hrec

/-- **A node joins at the end.** -/
lemma IsDQueue.enqueue (h : IsDQueue next prev hd tl l) (hx : x ∉ l)
    (hxn : next' x = none) (hxp : prev' x = tl)
    (hn : ∀ y ∈ l, next' y = if tl = some y then some x else next y)
    (hp : ∀ y ∈ l, prev' y = prev y) :
    IsDQueue next' prev' (if tl = none then some x else hd) (some x) (l ++ [x]) := by
  refine ⟨?_, ?_, by simp⟩
  · rw [List.nodup_append]
    refine ⟨h.nodup, List.nodup_singleton x, fun y hy z hz hyz => hx ?_⟩
    rw [List.mem_singleton] at hz
    exact hz ▸ hyz ▸ hy
  · simp only [h.tail_eq_none]
    rw [h.last] at hn hxp
    refine Linked.concat h.list h.nodup hxn ?_ hn hp
    rw [hxp, Option.or_none]

/-- **The first node leaves.** -/
lemma IsDQueue.dequeue (h : IsDQueue next prev hd tl (x :: l)) (hn : ∀ y ∈ l, next' y = next y)
    (hp : ∀ y ∈ l, prev' y = if next x = some y then none else prev y) :
    IsDQueue next' prev' (next x) (if next x = none then none else tl) l := by
  obtain ⟨-, -, hrest⟩ := h.list
  have hnd := (List.nodup_cons.mp h.nodup).2
  have hhead := hrest.head
  refine ⟨hnd, ?_, ?_⟩
  · apply Linked.relink_head hrest hnd hn
    intro y hy
    rw [hp y hy]
    simp only [eq_comm]
  · rw [hhead, h.last]
    cases l with
    | nil => rfl
    | cons w ws => rw [if_neg (by simp), List.getLast?_cons_cons]

end dqueue

end Lib
