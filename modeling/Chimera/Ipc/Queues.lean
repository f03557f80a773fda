import Chimera.Lib.Queue
import Chimera.Ipc.Kobject

/-!
# Message queues

The queue of a port is a bounded FIFO. `Queued s p f` says that the linked list in memory represents the
abstract queue `f`; `ipc_mqueue_send` and `ipc_mqueue_receive` are steps of `f` (`Queued.append`,
`Queued.take`), whichever section of whichever call comes next, and what happens elsewhere does not touch
it. **`mqueue_refines_fifo`** is the refinement, for any number of senders and receivers.
-/

namespace Chimera

open Lib
open Function (update update_self update_of_ne update_apply)

/-! ## Links -/

section links

variable {kmsgs : Kmsg → IpcKmsg} {mq : IpcMqueue} {k j : Kmsg}

lemma linkLast_next : (linkLast kmsgs mq k j).next =
    if mq.messagesTail = some j then some k else if j = k then none else (kmsgs j).next := by
  unfold linkLast
  cases mq.messagesTail with
  | none => simp [update_apply, apply_ite IpcKmsg.next]
  | some t => simp [update_apply, apply_ite IpcKmsg.next, eq_comm]

lemma linkLast_prev : (linkLast kmsgs mq k j).prev = if j = k then mq.messagesTail else (kmsgs j).prev := by
  unfold linkLast
  cases mq.messagesTail with
  | none => simp [update_apply, apply_ite IpcKmsg.prev]
  | some t =>
    simp only [update_apply, apply_ite IpcKmsg.prev]
    split_ifs <;> simp_all

lemma linkLast_seqno : (linkLast kmsgs mq k j).seqno = if j = k then mq.seqno else (kmsgs j).seqno := by
  unfold linkLast
  cases mq.messagesTail with
  | none => simp [update_apply, apply_ite IpcKmsg.seqno]
  | some t =>
    simp only [update_apply, apply_ite IpcKmsg.seqno]
    split_ifs <;> simp_all

lemma unlinkFirst_next : (unlinkFirst kmsgs k j).next = if j = k then none else (kmsgs j).next := by
  unfold unlinkFirst
  cases (kmsgs k).next with
  | none => simp [update_apply, apply_ite IpcKmsg.next]
  | some h =>
    simp only [update_apply, apply_ite IpcKmsg.next]
    split_ifs <;> simp_all

lemma unlinkFirst_prev : (unlinkFirst kmsgs k j).prev =
    if j = k then none else if (kmsgs k).next = some j then none else (kmsgs j).prev := by
  unfold unlinkFirst
  cases (kmsgs k).next with
  | none => simp [update_apply, apply_ite IpcKmsg.prev]
  | some h => simp [update_apply, apply_ite IpcKmsg.prev, eq_comm]

lemma unlinkFirst_seqno : (unlinkFirst kmsgs k j).seqno = (kmsgs j).seqno := by
  unfold unlinkFirst
  cases (kmsgs k).next with
  | none =>
    simp only [update_apply, apply_ite IpcKmsg.seqno]
    split_ifs <;> simp_all
  | some h =>
    simp only [update_apply, apply_ite IpcKmsg.seqno]
    split_ifs <;> simp_all

end links

/-! ## The queue of a port -/

/-- **The queue of port `p` is `f`.** -/
structure Queued (s : Ipc) (p : ℕ) (f : Fifo Kmsg) : Prop where
  linked : IsDQueue (fun k => (s.kmsgs k).next) (fun k => (s.kmsgs k).prev)
    (s.ports p).messages.messages (s.ports p).messages.messagesTail (f.items.map Prod.fst)
  count : (s.ports p).messages.msgcount = f.items.length
  seqno : (s.ports p).messages.seqno = f.next
  numbered : ∀ x ∈ f.items, (s.kmsgs x.1).seqno = x.2

section queued

variable {s s' : Ipc} {p : ℕ} {f : Fifo Kmsg} {k : Kmsg}

/-- **Frame.** A queue depends on its port and on the links and numbers of its own messages. -/
lemma Queued.congr (h : Queued s p f) (hp : (s'.ports p).messages = (s.ports p).messages)
    (hk : ∀ k ∈ f.items.map Prod.fst, (s'.kmsgs k).next = (s.kmsgs k).next ∧
      (s'.kmsgs k).prev = (s.kmsgs k).prev ∧ (s'.kmsgs k).seqno = (s.kmsgs k).seqno) :
    Queued s' p f := by
  refine ⟨?_, by rw [hp, h.count], by rw [hp, h.seqno], fun x hx => ?_⟩
  · rw [hp]
    exact h.linked.congr (fun k hk' => (hk k hk').1) fun k hk' => (hk k hk').2.1
  · rw [(hk x.1 (List.mem_map_of_mem hx)).2.2]
    exact h.numbered x hx

/-- **A send** is a send of the abstract queue. -/
lemma Queued.append (h : Queued s p f) (hk : k ∉ f.items.map Prod.fst) (hroom : f.items.length + 1 < 2 ^ 32) :
    Queued (mqueueAppend s p k) p ⟨f.items ++ [(k, f.next)], (f.next + 1) % 2 ^ 32⟩ := by
  have hport : ((mqueueAppend s p k).ports p).messages = (s.ports p).messages.append k := by
    change ((s.setPort p _).ports p).messages = _
    rw [Ipc.ports_setPort, if_pos rfl]
  have hkmsgs : (mqueueAppend s p k).kmsgs = linkLast s.kmsgs (s.ports p).messages k := rfl
  generalize mqueueAppend s p k = s' at hport hkmsgs ⊢
  have htail : (s.ports p).messages.messagesTail ≠ some k := by
    intro htail
    have hlinked := h.linked
    rw [htail] at hlinked
    exact hk hlinked.tail_mem
  constructor
  · rw [hport, hkmsgs, List.map_append]
    apply h.linked.enqueue hk
    · rw [linkLast_next, if_neg htail, if_pos rfl]
    · rw [linkLast_prev, if_pos rfl]
    · intro j hj
      have hjk : j ≠ k := fun hjk => hk (hjk ▸ hj)
      rw [linkLast_next, if_neg hjk]
    · intro j hj
      have hjk : j ≠ k := fun hjk => hk (hjk ▸ hj)
      rw [linkLast_prev, if_neg hjk]
  · rw [hport, List.length_append, List.length_singleton]
    change u32 ((s.ports p).messages.msgcount + 1) = _
    rw [h.count]
    exact Nat.mod_eq_of_lt hroom
  · rw [hport]
    change u32 ((s.ports p).messages.seqno + 1) = _
    rw [h.seqno]
    rfl
  · intro x hx
    rw [hkmsgs, linkLast_seqno]
    rcases List.mem_append.mp hx with hx | hx
    · have hxk : x.1 ≠ k := fun hxk => hk (hxk ▸ List.mem_map_of_mem hx)
      rw [if_neg hxk]
      exact h.numbered x hx
    · obtain rfl := List.mem_singleton.mp hx
      rw [if_pos rfl]
      exact h.seqno

/-- **A receive** is a receive of the abstract queue. -/
lemma Queued.take {n : ℕ} {l : List (Kmsg × ℕ)} (h : Queued s p f) (hl : f.items = (k, n) :: l)
    (hlt : f.items.length < 2 ^ 32) : Queued (mqueueTake s p k) p ⟨l, f.next⟩ := by
  have hport : ((mqueueTake s p k).ports p).messages = (s.ports p).messages.tail (s.kmsgs k).next := by
    change ((s.setPort p _).ports p).messages = _
    rw [Ipc.ports_setPort, if_pos rfl]
  have hkmsgs : (mqueueTake s p k).kmsgs = unlinkFirst s.kmsgs k := rfl
  generalize mqueueTake s p k = s' at hport hkmsgs ⊢
  have hlinked := h.linked
  have hnumbered := h.numbered
  have hcount := h.count
  rw [hl] at hlinked hnumbered hcount hlt
  have hk : k ∉ l.map Prod.fst := (List.nodup_cons.mp hlinked.nodup).1
  constructor
  · rw [hport, hkmsgs]
    apply hlinked.dequeue
    · intro j hj
      have hjk : j ≠ k := fun hjk => hk (hjk ▸ hj)
      rw [unlinkFirst_next, if_neg hjk]
    · intro j hj
      have hjk : j ≠ k := fun hjk => hk (hjk ▸ hj)
      rw [unlinkFirst_prev, if_neg hjk]
  · rw [hport]
    change u32 ((s.ports p).messages.msgcount + (2 ^ 32 - 1)) = l.length
    rw [List.length_cons] at hcount hlt
    have hsum : (s.ports p).messages.msgcount + (2 ^ 32 - 1) = l.length + 2 ^ 32 := by omega
    rw [hsum, u32, Nat.add_mod_right]
    exact Nat.mod_eq_of_lt (by omega)
  · rw [hport]
    exact h.seqno
  · intro x hx
    rw [hkmsgs, unlinkFirst_seqno]
    exact hnumbered x (List.mem_cons_of_mem _ hx)

/-- If the count is positive there is a first message. -/
lemma Queued.exists_first (h : Queued s p f) (hpos : 0 < (s.ports p).messages.msgcount) :
    ∃ k n l, f.items = (k, n) :: l ∧ (s.ports p).messages.messages = some k := by
  rw [h.count] at hpos
  obtain ⟨⟨k, n⟩, l, hl⟩ := List.exists_cons_of_length_pos hpos
  have hlist := h.linked.list
  rw [hl] at hlist
  exact ⟨k, n, l, hl, hlist.1⟩

/-- **`ipc_mqueue_receive` finds a message wherever it counts one.** -/
lemma Queued.receive_isSome (h : Queued s p f) (timeoutMs : ℕ) (expired : Bool) :
    (mqueueReceive s p timeoutMs expired).isSome := by
  unfold mqueueReceive
  split_ifs with hstate hpos
  · rfl
  · obtain ⟨k, n, l, -, hhead⟩ := h.exists_first hpos
    rw [hhead]
    rfl
  · rfl
  · rfl

end queued

/-! ## What the sections do -/

section sections

variable {s : Ipc} {p : ℕ} {k : Kmsg}

/-- The first section of a send puts the message at the end of a queue that has room, or changes
nothing. -/
lemma mqueueSendEnter_cases (s : Ipc) (p : ℕ) (k : Kmsg) (timeoutMs : ℕ) :
    mqueueSendEnter s p k timeoutMs = (.done .success, mqueueAppend s p k) ∧
        (s.ports p).state = .active ∧ (s.ports p).messages.msgcount < (s.ports p).messages.qlimit ∨
      ∃ r, r ≠ .done .success ∧ mqueueSendEnter s p k timeoutMs = (r, s) := by
  unfold mqueueSendEnter
  split_ifs with hstate hfull
  · exact .inr ⟨_, by decide, rfl⟩
  · exact .inr ⟨_, by decide, rfl⟩
  · exact .inr ⟨_, by decide, rfl⟩
  · exact .inl ⟨rfl, not_not.mp hstate, Nat.lt_of_not_le hfull⟩

/-- So does the section after a sleep. -/
lemma mqueueSendResume_cases (s : Ipc) (p : ℕ) (k : Kmsg) (expired : Bool) :
    mqueueSendResume s p k expired = (.done .success, mqueueAppend s p k) ∧
        (s.ports p).state = .active ∧ (s.ports p).messages.msgcount < (s.ports p).messages.qlimit ∨
      ∃ r, r ≠ .done .success ∧ mqueueSendResume s p k expired = (r, s) := by
  unfold mqueueSendResume
  split_ifs with hstate hroom
  · exact .inr ⟨_, by decide, rfl⟩
  · exact .inl ⟨rfl, not_not.mp hstate, hroom⟩
  · exact .inr ⟨_, by decide, rfl⟩
  · exact .inr ⟨_, by decide, rfl⟩

/-- A round of a receive takes the first message, or changes nothing. -/
lemma mqueueReceive_cases {timeoutMs : ℕ} {expired : Bool} {r : ReceiveResult × Ipc}
    (h : mqueueReceive s p timeoutMs expired = some r) :
    (∃ k, r = (.got k, mqueueTake s p k) ∧ (s.ports p).state = .active ∧
        0 < (s.ports p).messages.msgcount ∧ (s.ports p).messages.messages = some k) ∨
      (∀ k, r.1 ≠ .got k) ∧ r.2 = s := by
  unfold mqueueReceive at h
  split_ifs at h with hstate hpos
  · cases h
    exact .inr ⟨nofun, rfl⟩
  · obtain ⟨k, hhead, rfl⟩ := Option.map_eq_some_iff.mp h
    exact .inl ⟨k, rfl, not_not.mp hstate, hpos, hhead⟩
  · cases h
    exact .inr ⟨nofun, rfl⟩
  · cases h
    exact .inr ⟨nofun, rfl⟩

end sections

/-! ## Interleavings -/

/-- A message is linked in the queue of a port. -/
def linkedAt (s : Ipc) (p : ℕ) (k : Kmsg) : Prop :=
  ∃ l, IsDList (fun k => (s.kmsgs k).next) (fun k => (s.kmsgs k).prev)
    (s.ports p).messages.messages l ∧ k ∈ l

lemma Queued.linkedAt {s : Ipc} {p : ℕ} {f : Fifo Kmsg} {k : Kmsg} (h : Queued s p f)
    (hk : k ∈ f.items.map Prod.fst) : linkedAt s p k :=
  ⟨_, h.linked.list, hk⟩

/-- What the rest of the kernel does to a port that stays active and is bound to no kernel object: it
leaves the queue alone, which is under `imq_lock`, and the messages in it. -/
structure Elsewhere (p : ℕ) (s s' : Ipc) : Prop where
  messages : (s'.ports p).messages = (s.ports p).messages
  state : (s'.ports p).state = (s.ports p).state
  kobject : (s'.ports p).kobject = (s.ports p).kobject
  kmsgs : ∀ k, linkedAt s p k → (s'.kmsgs k).next = (s.kmsgs k).next ∧
    (s'.kmsgs k).prev = (s.kmsgs k).prev ∧ (s'.kmsgs k).seqno = (s.kmsgs k).seqno

/-- The message a call sleeps with after a section of a send. -/
def SendResult.asleep : SendResult → Kmsg → Option Kmsg
  | .blocked, k => some k
  | .done _, _ => none

/-- A send of message `k` is an event if it succeeds. -/
def SendResult.events (x : Kmsg × ℕ) : SendResult → List (FifoEvent Kmsg)
  | .done .success => [.send x]
  | _ => []

/-- A receive is an event if it gets a message; the event has the number the message carries. -/
def ReceiveResult.events (s : Ipc) : ReceiveResult → List (FifoEvent Kmsg)
  | .got k => [.receive (k, (s.kmsgs k).seqno)]
  | _ => []

/-- One section of one call at port `p`; `asleep` has the message of each call that sleeps in a send.
A call owns the message it sends: it is in no queue and with no other call. -/
inductive QueueStep (p : ℕ) (s : Ipc) (asleep : ℕ → Option Kmsg) :
    List (FifoEvent Kmsg) → Ipc → (ℕ → Option Kmsg) → Prop
  | send {c fuel depth timeoutMs : ℕ} {k : Kmsg} {r : SendResult × Ipc} (hc : asleep c = none)
      (hqueue : ¬ linkedAt s p k) (hcalls : ∀ c, asleep c ≠ some k)
      (hs : ipcMqueueSend fuel depth s p k timeoutMs = some r) :
      QueueStep p s asleep (r.1.events (k, (r.2.kmsgs k).seqno)) r.2
        (update asleep c (r.1.asleep k))
  | resume {c : ℕ} {k : Kmsg} {expired : Bool} {r : SendResult × Ipc} (hc : asleep c = some k)
      (hs : mqueueSendResume s p k expired = r) :
      QueueStep p s asleep (r.1.events (k, (r.2.kmsgs k).seqno)) r.2
        (update asleep c (r.1.asleep k))
  | receive {timeoutMs : ℕ} {expired : Bool} {r : ReceiveResult × Ipc}
      (hs : mqueueReceive s p timeoutMs expired = some r) :
      QueueStep p s asleep (r.1.events s) r.2 asleep
  | elsewhere {s' : Ipc} (hs : Elsewhere p s s') : QueueStep p s asleep [] s' asleep

/-- The interleavings, with their trace. -/
inductive QueueRun (p : ℕ) (s₀ : Ipc) : List (FifoEvent Kmsg) → Ipc → (ℕ → Option Kmsg) → Prop
  | start : QueueRun p s₀ [] s₀ fun _ => none
  | step {tr e : List (FifoEvent Kmsg)} {s s' : Ipc} {asleep asleep' : ℕ → Option Kmsg}
      (hrun : QueueRun p s₀ tr s asleep) (hstep : QueueStep p s asleep e s' asleep') :
      QueueRun p s₀ (tr ++ e) s' asleep'

/-- **The invariant**: the queue is `f`, within its limit, and each call that sleeps has a message of its
own. -/
structure QueueInv (p qlimit : ℕ) (s : Ipc) (asleep : ℕ → Option Kmsg) (f : Fifo Kmsg) : Prop where
  queued : Queued s p f
  kobject : (s.ports p).kobject = none
  qlimit_eq : (s.ports p).messages.qlimit = qlimit
  apart : ∀ c k, asleep c = some k → k ∉ f.items.map Prod.fst
  own : ∀ c c' k, asleep c = some k → asleep c' = some k → c = c'

section inv

variable {p qlimit : ℕ} {s s' : Ipc} {asleep : ℕ → Option Kmsg} {f : Fifo Kmsg} {k : Kmsg} {c : ℕ}

section

variable (h : QueueInv p qlimit s asleep f)
include h

/-- A section that changes nothing, after which the call sleeps or not. -/
lemma QueueInv.stay (hk : k ∉ f.items.map Prod.fst)
    (hcalls : ∀ c', asleep c' = some k → c' = c) (r : SendResult) :
    QueueInv p qlimit s (update asleep c (r.asleep k)) f := by
  have hasleep : ∀ c' k', update asleep c (r.asleep k) c' = some k' →
      c' = c ∧ k' = k ∨ c' ≠ c ∧ asleep c' = some k' := by
    intro c' k' hc'
    by_cases hcc : c' = c
    · rw [hcc, update_self] at hc'
      cases r with
      | blocked => exact .inl ⟨hcc, (Option.some.inj hc').symm⟩
      | done e => cases hc'
    · rw [update_of_ne hcc] at hc'
      exact .inr ⟨hcc, hc'⟩
  refine ⟨h.queued, h.kobject, h.qlimit_eq, fun c' k' hc' => ?_, fun c1 c2 k' h1 h2 => ?_⟩
  · rcases hasleep c' k' hc' with ⟨-, rfl⟩ | ⟨-, hc'⟩
    · exact hk
    · exact h.apart c' k' hc'
  · rcases hasleep c1 k' h1 with ⟨hc1, hk1⟩ | ⟨hne1, h1'⟩
    · rcases hasleep c2 k' h2 with ⟨hc2, -⟩ | ⟨hne2, h2'⟩
      · exact hc1.trans hc2.symm
      · exact (hne2 (hcalls c2 (hk1 ▸ h2'))).elim
    · rcases hasleep c2 k' h2 with ⟨-, hk2⟩ | ⟨-, h2'⟩
      · exact (hne1 (hcalls c1 (hk2 ▸ h1'))).elim
      · exact h.own c1 c2 k' h1' h2'

/-- A section that puts the message at the end of the queue. -/
lemma QueueInv.append (hq : qlimit < 2 ^ 32)
    (hk : k ∉ f.items.map Prod.fst) (hcalls : ∀ c', asleep c' = some k → c' = c)
    (hroom : (s.ports p).messages.msgcount < (s.ports p).messages.qlimit) :
    f.items.length < qlimit ∧ QueueInv p qlimit (mqueueAppend s p k) (update asleep c none)
      ⟨f.items ++ [(k, f.next)], (f.next + 1) % 2 ^ 32⟩ := by
  rw [h.queued.count, h.qlimit_eq] at hroom
  have hasleep : ∀ c' k', update asleep c none c' = some k' → c' ≠ c ∧ asleep c' = some k' := by
    intro c' k' hc'
    by_cases hcc : c' = c
    · rw [hcc, update_self] at hc'
      cases hc'
    · rw [update_of_ne hcc] at hc'
      exact ⟨hcc, hc'⟩
  have hport : (mqueueAppend s p k).ports p = { s.ports p with
      messages := (s.ports p).messages.append k } := by
    change (s.setPort p _).ports p = _
    rw [Ipc.ports_setPort, if_pos rfl]
  refine ⟨hroom, h.queued.append hk (by omega), ?_, ?_, fun c' k' hc' => ?_, fun c1 c2 k' h1 h2 => ?_⟩
  · rw [hport]
    exact h.kobject
  · rw [hport]
    exact h.qlimit_eq
  · obtain ⟨hne, hc'⟩ := hasleep c' k' hc'
    rw [List.map_append, List.mem_append]
    rintro (hmem | hmem)
    · exact h.apart c' k' hc' hmem
    · obtain rfl : k' = k := List.mem_singleton.mp hmem
      exact hne (hcalls c' hc')
  · exact h.own c1 c2 k' (hasleep c1 k' h1).2 (hasleep c2 k' h2).2

/-- A receive that takes a message off the queue. -/
lemma QueueInv.take {n : ℕ} {l : List (Kmsg × ℕ)} (hlt : f.items.length < 2 ^ 32) (hl : f.items = (k, n) :: l) :
    QueueInv p qlimit (mqueueTake s p k) asleep ⟨l, f.next⟩ := by
  have hport : (mqueueTake s p k).ports p = { s.ports p with
      messages := (s.ports p).messages.tail (s.kmsgs k).next } := by
    change (s.setPort p _).ports p = _
    rw [Ipc.ports_setPort, if_pos rfl]
  refine ⟨h.queued.take hl hlt, ?_, ?_, fun c' k' hc' hmem => ?_, h.own⟩
  · rw [hport]
    exact h.kobject
  · rw [hport]
    exact h.qlimit_eq
  · apply h.apart c' k' hc'
    rw [hl]
    exact List.mem_cons_of_mem _ hmem

lemma QueueInv.elsewhere (hs : Elsewhere p s s') :
    QueueInv p qlimit s' asleep f := by
  refine ⟨?_, hs.kobject.trans h.kobject, ?_, h.apart, h.own⟩
  · apply h.queued.congr hs.messages
    intro k hk
    exact hs.kmsgs k (h.queued.linkedAt hk)
  · rw [hs.messages]
    exact h.qlimit_eq

/-- **One step**: it is a step of the abstract queue, or leaves it as it is. -/
lemma QueueInv.step {f0 : Fifo Kmsg} {tr e : List (FifoEvent Kmsg)} {asleep' : ℕ → Option Kmsg}
    (hrun : f0.Run qlimit (2 ^ 32) tr f) (hq : qlimit < 2 ^ 32)
    (hlen : f.items.length ≤ qlimit) (hstep : QueueStep p s asleep e s' asleep') :
    ∃ f', f0.Run qlimit (2 ^ 32) (tr ++ e) f' ∧ QueueInv p qlimit s' asleep' f' := by
  -- the two sections of a send differ only in the test they make first
  have hsend : ∀ {c : ℕ} {k : Kmsg} {r : SendResult × Ipc}, k ∉ f.items.map Prod.fst →
      (∀ c', asleep c' = some k → c' = c) →
      (r = (.done .success, mqueueAppend s p k) ∧ (s.ports p).state = .active ∧
          (s.ports p).messages.msgcount < (s.ports p).messages.qlimit ∨
        ∃ x, x ≠ .done .success ∧ r = (x, s)) →
      ∃ f', f0.Run qlimit (2 ^ 32) (tr ++ r.1.events (k, (r.2.kmsgs k).seqno)) f' ∧
        QueueInv p qlimit r.2 (update asleep c (r.1.asleep k)) f' := by
    rintro c k r hk hcalls (⟨rfl, -, hroom⟩ | ⟨x, hx, rfl⟩)
    · obtain ⟨hroom, h'⟩ := h.append hq hk hcalls hroom
      refine ⟨_, ?_, h'⟩
      have hnumber : ((mqueueAppend s p k).kmsgs k).seqno = f.next :=
        h'.queued.numbered (k, f.next) (List.mem_append_right _ List.mem_cons_self)
      rw [hnumber]
      exact hrun.send k hroom
    · have hevents : x.events (k, (s.kmsgs k).seqno) = [] := by
        rcases x with ⟨_ | _⟩ | _
        · exact absurd rfl hx
        all_goals rfl
      refine ⟨f, ?_, h.stay hk hcalls x⟩
      rw [hevents, List.append_nil]
      exact hrun
  cases hstep with
  | @send c fuel depth timeoutMs k r hc hqueue hcalls hs =>
    cases depth with
    | zero => cases hs
    | succ depth =>
      rw [ipcMqueueSend_unbound h.kobject] at hs
      cases hs
      apply hsend _ _ (mqueueSendEnter_cases s p k timeoutMs)
      · exact fun hk => hqueue (h.queued.linkedAt hk)
      · exact fun c' hc' => absurd hc' (hcalls c')
  | @resume c k expired r hc hs =>
    subst hs
    apply hsend (h.apart c k hc) _ (mqueueSendResume_cases s p k expired)
    exact fun c' hc' => h.own c' c k hc' hc
  | @receive timeoutMs expired r hs =>
    rcases mqueueReceive_cases hs with ⟨k, rfl, -, hpos, hhead⟩ | ⟨hr, hrs⟩
    · obtain ⟨k', n, l, hl, hhead'⟩ := h.queued.exists_first hpos
      obtain rfl : k = k' := Option.some.inj (hhead.symm.trans hhead')
      refine ⟨⟨l, f.next⟩, ?_, h.take (by omega) hl⟩
      have hnumber : (s.kmsgs k).seqno = n := h.queued.numbered (k, n) (hl ▸ List.mem_cons_self)
      dsimp only [ReceiveResult.events]
      rw [hnumber]
      exact hrun.receive hl
    · refine ⟨f, ?_, hrs ▸ h⟩
      have hevents : r.1.events s = [] := by
        rcases hr' : r.1 with k | _ | _
        · exact absurd hr' (hr k)
        all_goals rfl
      rw [hevents, List.append_nil]
      exact hrun
  | elsewhere hs =>
    refine ⟨f, ?_, h.elsewhere hs⟩
    rw [List.append_nil]
    exact hrun

end

/-- **A whole run** is a run of the abstract queue. -/
lemma QueueRun.refines {s0 : Ipc} {f0 : Fifo Kmsg} {tr : List (FifoEvent Kmsg)}
    (h0 : QueueInv p qlimit s0 (fun _ => none) f0) (hq : qlimit < 2 ^ 32)
    (hlen : f0.items.length ≤ qlimit) (hrun : QueueRun p s0 tr s asleep) :
    ∃ f, f0.Run qlimit (2 ^ 32) tr f ∧ QueueInv p qlimit s asleep f := by
  induction hrun with
  | start => exact ⟨f0, .start, h0⟩
  | step _ hstep ih =>
    obtain ⟨f, hf, h⟩ := ih
    exact h.step hf hq (hf.bounded hlen) hstep

end inv

/-- **Message queues refine a bounded FIFO.** From a port with an empty queue on, in every interleaving
of sections of sends and receives, with anything that leaves the queue alone in between:
* the run is a run of a FIFO with the limit and the numbering of the queue;
* what was sent is what was received, in the same order and once each, followed by what is queued;
* the messages sent carry consecutive numbers;
* the queue is a doubly linked list of the messages that are queued, of the length `imq_msgcount` says,
  within `imq_qlimit`;
* a receive never finds a count without a message. -/
theorem mqueue_refines_fifo {p qlimit seqno : ℕ} {s₀ s : Ipc} {tr : List (FifoEvent Kmsg)}
    {asleep : ℕ → Option Kmsg} (hq : qlimit < 2 ^ 32) (hn : seqno < 2 ^ 32)
    (hqueue : (s₀.ports p).messages = ⟨none, none, 0, qlimit, seqno⟩)
    (hobject : (s₀.ports p).kobject = none) (hrun : QueueRun p s₀ tr s asleep) :
    ∃ f : Fifo Kmsg, Fifo.Run qlimit (2 ^ 32) ⟨[], seqno⟩ tr f ∧ sent tr = received tr ++ f.items ∧
      (sent tr).map Prod.snd = (List.range (sent tr).length).map (fun i => (seqno + i) % 2 ^ 32) ∧
      IsDQueue (fun k => (s.kmsgs k).next) (fun k => (s.kmsgs k).prev)
        (s.ports p).messages.messages (s.ports p).messages.messagesTail (f.items.map Prod.fst) ∧
      (∀ x ∈ f.items, (s.kmsgs x.1).seqno = x.2) ∧
      (s.ports p).messages.msgcount = f.items.length ∧
      (s.ports p).messages.msgcount ≤ (s.ports p).messages.qlimit ∧
      ∀ timeoutMs expired, (mqueueReceive s p timeoutMs expired).isSome := by
  have h0 : QueueInv p qlimit s₀ (fun _ => none) ⟨[], seqno⟩ := by
    refine ⟨⟨?_, ?_, ?_, nofun⟩, hobject, ?_, nofun, nofun⟩
    · rw [hqueue]
      exact .nil _ _
    · rw [hqueue]
      rfl
    · rw [hqueue]
    · rw [hqueue]
  obtain ⟨f, hf, h⟩ := hrun.refines h0 hq (Nat.zero_le _)
  refine ⟨f, hf, hf.conserved, hf.numbers hn, h.queued.linked, h.queued.numbered, h.queued.count, ?_,
    h.queued.receive_isSome⟩
  rw [h.queued.count, h.qlimit_eq]
  exact hf.bounded (Nat.zero_le _)

theorem mqueue_refines_fifo_first : ∃ (s₀ s : Ipc) (tr : List (FifoEvent Kmsg))
    (asleep : ℕ → Option Kmsg) (f : Fifo Kmsg), QueueRun 0xFFFFFFFF80400000 s₀ tr s asleep ∧
      sent tr = [(.pool 0, 0)] ∧ Fifo.Run ipcPortMsgQueueDefault (2 ^ 32) ⟨[], 0⟩ tr f ∧
      sent tr = received tr ++ f.items := by
  obtain ⟨s1, hs1⟩ : ∃ s1, ipcPortAlloc (quietIpc noVm) 0 = (.ok 1, s1) := ⟨_, rfl⟩
  obtain ⟨hqueue, hobject, hsend⟩ : (s1.ports 0xFFFFFFFF80400000).messages =
        ⟨none, none, 0, ipcPortMsgQueueDefault, 0⟩ ∧ (s1.ports 0xFFFFFFFF80400000).kobject = none ∧
      ipcMqueueSend 0 1 s1 0xFFFFFFFF80400000 (.pool 0) 0 =
        some (.done .success, mqueueAppend s1 0xFFFFFFFF80400000 (.pool 0)) := by
    obtain rfl := (Prod.mk.inj hs1).2
    exact ⟨rfl, rfl, rfl⟩
  have hfree : ¬ linkedAt s1 0xFFFFFFFF80400000 (.pool 0) := by
    rintro ⟨l, hl, hmem⟩
    rw [hqueue] at hl
    rw [hl.head_eq_none.mp rfl] at hmem
    cases hmem
  have hrun := QueueRun.start.step (.send (c := 0) rfl hfree (fun c hc => by cases hc) hsend)
  obtain ⟨f, hf, hconserved, -⟩ := mqueue_refines_fifo (by decide) (by decide) hqueue hobject hrun
  refine ⟨s1, _, _, _, f, hrun, ?_, hf, hconserved⟩
  obtain rfl := (Prod.mk.inj hs1).2
  rfl

end Chimera
