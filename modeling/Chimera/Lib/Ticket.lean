import Mathlib.Data.BitVec
import Mathlib.Tactic

/-!
# Ticket locks

A ticket lock is two counters: whoever comes takes the value of `next` and moves it on, and whoever holds
the value of `serving` has the lock. `TicketQueue` relates the counters, and the tickets that are out, to
the queue of those who hold them. The counters wrap; that does no harm while fewer than `2 ^ 32` tickets
are out.
-/

namespace Lib

variable {ι : Type*}

/-- The tickets that are out are those of `Q`, in order, from `serving` on. -/
structure TicketQueue (next serving : BitVec 32) (ticket : ι → Option (BitVec 32)) (Q : List ι) : Prop where
  nodup : Q.Nodup
  mem : ∀ i, i ∈ Q ↔ ticket i ≠ none
  ticket : ∀ j (hj : j < Q.length), ticket Q[j] = some (serving + BitVec.ofNat 32 j)
  next : next = serving + BitVec.ofNat 32 Q.length

namespace TicketQueue

variable {next serving : BitVec 32} {ticket ticket' : ι → Option (BitVec 32)} {Q : List ι} {i : ι}

lemma empty (serving : BitVec 32) : TicketQueue serving serving (fun _ : ι => none) [] :=
  ⟨List.nodup_nil, by simp, nofun, by simp⟩

section

variable (h : TicketQueue next serving ticket Q)
include h

lemma congr (ht : ∀ i, ticket' i = ticket i) :
    TicketQueue next serving ticket' Q := by
  rwa [funext ht]

/-- **The ticket that is served is the first one of the queue.** -/
lemma head_of_served (hQ : Q.length < 2 ^ 32)
    (hi : ticket i = some serving) : ∃ Q', Q = i :: Q' := by
  have hmem : i ∈ Q := (h.mem i).mpr (by rw [hi]; exact Option.some_ne_none _)
  obtain ⟨j, hj, rfl⟩ := List.mem_iff_getElem.mp hmem
  rw [h.ticket j hj, Option.some.injEq, add_eq_left] at hi
  have hj0 : j = 0 := by
    have h0 := congrArg BitVec.toNat hi
    rwa [BitVec.toNat_ofNat, Nat.mod_eq_of_lt (hj.trans hQ)] at h0
  subst hj0
  cases Q with
  | nil => cases hj
  | cons x Q' => exact ⟨Q', rfl⟩

/-- **Taking a ticket**: to the end of the queue. -/
lemma take (hi : ticket i = none) (hself : ticket' i = some next)
    (hother : ∀ k, k ≠ i → ticket' k = ticket k) :
    TicketQueue (next + 1) serving ticket' (Q ++ [i]) := by
  have hiQ : i ∉ Q := fun hm => (h.mem i).mp hm hi
  refine ⟨?_, fun k => ?_, fun j hj => ?_, ?_⟩
  · exact List.nodup_append'.mpr ⟨h.nodup, List.nodup_singleton i, by simpa using hiQ⟩
  · by_cases hk : k = i
    · rw [hk, hself]
      simp
    · rw [hother k hk, ← h.mem k]
      simp [hk]
  · rw [List.length_append, List.length_singleton] at hj
    rcases Nat.lt_succ_iff_lt_or_eq.mp hj with hlt | rfl
    · rw [List.getElem_append_left hlt, hother, h.ticket j hlt]
      intro e
      exact hiQ (e ▸ List.getElem_mem hlt)
    · rw [List.getElem_concat_length rfl, hself, h.next]
  · rw [h.next, List.length_append, List.length_singleton, BitVec.ofNat_add, BitVec.add_assoc]
    rfl

end

/-- **Unlocking**: the next ticket is served. -/
lemma leave {Q' : List ι} (h : TicketQueue next serving ticket (i :: Q')) (hself : ticket' i = none)
    (hother : ∀ k, k ≠ i → ticket' k = ticket k) : TicketQueue next (serving + 1) ticket' Q' := by
  obtain ⟨hiQ, hnd⟩ := List.nodup_cons.mp h.nodup
  refine ⟨hnd, fun k => ?_, fun j hj => ?_, ?_⟩
  · by_cases hk : k = i
    · rw [hk, hself]
      simpa using hiQ
    · rw [hother k hk, ← h.mem k, List.mem_cons, or_iff_right hk]
  · have hj' := h.ticket (j + 1) (by simpa using hj)
    rw [List.getElem_cons_succ] at hj'
    rw [hother, hj', BitVec.ofNat_add, BitVec.add_comm (BitVec.ofNat 32 j), BitVec.add_assoc]
    · rfl
    · intro e
      exact hiQ (e ▸ List.getElem_mem hj)
  · rw [h.next, List.length_cons, BitVec.ofNat_add, BitVec.add_comm (BitVec.ofNat 32 _), BitVec.add_assoc]
    rfl

end TicketQueue

end Lib
