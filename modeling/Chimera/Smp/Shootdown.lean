import Chimera.Lib.Ticket
import Chimera.Smp.Model

/-!
# Progress of TLB shootdowns

A CPU that waits for acknowledgements holds `s_tlb_lock`, and a CPU that waits for the lock has its
interrupts disabled and acknowledges nothing. So two CPUs that target each other can wait for each other
until the timeout (`crossFlush_waits`). The lock serves in order, so it is enough that a CPU goes for the
lock at a time when nobody who is ahead of it targets it (`TlbOp.apart`): then every CPU that is waited
for can acknowledge by its own steps (`shootdown_progress`).
-/

namespace Chimera

open Lib
open Function (update update_self update_of_ne update_apply)

/-! ## Runs -/

/-- The steps of CPU `i`. -/
inductive TlbOp where
  | call (i : ℕ) (pml4 : BitVec 64) (startVa size : ℕ)
  | irqSave (i : ℕ)
  | takeTicket (i : ℕ)
  | spin (i : ℕ)
  | post (i : ℕ)
  | send (i : ℕ)
  | wait (i : ℕ)
  | unlock (i : ℕ)
  | irqRestore (i : ℕ)
  | handler (i : ℕ)
  /-- Anything else, outside of `smp_tlb_flush_range_pml4`. -/
  | other (i : ℕ)
  deriving DecidableEq, Repr

/-- The CPU that takes a step. -/
def TlbOp.cpu : TlbOp → ℕ
  | .call i _ _ _ | .irqSave i | .takeTicket i | .spin i | .post i | .send i | .wait i | .unlock i
  | .irqRestore i | .handler i | .other i => i

/-- One step. A CPU handles the interrupt only while its interrupts are enabled. -/
inductive TlbStep (s : Smp) : TlbOp → Smp → Prop
  | call {i : ℕ} {pml4 : BitVec 64} {va size : ℕ} (hi : i < s.totalCpus.toNat)
      (h : (s.cpus i).phase = .outside) : TlbStep s (.call i pml4 va size) (flushCall s i pml4 va size)
  | irqSave {i : ℕ} (h : (s.cpus i).phase = .targeted) : TlbStep s (.irqSave i) (irqSave s i)
  | takeTicket {i : ℕ} (h : (s.cpus i).phase = .masked) : TlbStep s (.takeTicket i) (takeTicket s i)
  | spin {i : ℕ} (h : (s.cpus i).phase = .spinning) : TlbStep s (.spin i) (spinRound s i)
  | post {i : ℕ} (h : (s.cpus i).phase = .locked) : TlbStep s (.post i) (postRequest s i)
  | send {i k : ℕ} (h : (s.cpus i).phase = .sending k) : TlbStep s (.send i) (sendRound s i k)
  | wait {i n : ℕ} (h : (s.cpus i).phase = .waiting n) : TlbStep s (.wait i) (waitRound s i n)
  | unlock {i : ℕ} (h : (s.cpus i).phase = .leaving) : TlbStep s (.unlock i) (tlbUnlock s i)
  | irqRestore {i : ℕ} (h : (s.cpus i).phase = .unlocked) : TlbStep s (.irqRestore i) (irqRestore s i)
  | handler {i : ℕ} (hirq : (s.cpus i).irq = true) (hp : s.pending i = true) :
      TlbStep s (.handler i) (smpTlbIpiHandler s i)
  | other {i : ℕ} (h : (s.cpus i).phase = .outside) {x : Cpu} (hx : x.phase = .outside) (active : ℕ) :
      TlbStep s (.other i) { s.setCpu i x with activeCpus := active }

/-- Runs from `s₀` each of whose steps satisfies `C` in the state it is taken in. -/
inductive TlbRun (C : Smp → TlbOp → Prop) (s₀ : Smp) : Smp → Prop
  | start : TlbRun C s₀ s₀
  | step {s s' : Smp} (op : TlbOp) (hrun : TlbRun C s₀ s) (hC : C s op) (hstep : TlbStep s op s') :
      TlbRun C s₀ s'

/-- No CPU is in `smp_tlb_flush_range_pml4`, and the lock is free. -/
structure TlbQuiet (s : Smp) : Prop where
  outside : ∀ i, (s.cpus i).phase = .outside
  free : s.slNext = s.slServing

/-- On the way to the lock with interrupts disabled, without a ticket yet. -/
def Cpu.arriving (c : Cpu) : Prop := (c.phase = .targeted ∨ c.phase = .masked) ∧ c.irq = false

/-- From taking a ticket to the unlock. -/
def Cpu.queued (c : Cpu) : Bool :=
  match c.phase with
  | .spinning | .locked | .sending _ | .waiting _ | .leaving => true
  | _ => false

/-- CPU `i` can go for the lock with the targets `mask`: nobody on the way to the lock, in its queue or
holding it targets `i`, and `i` targets nobody who is on the way to the lock. -/
def Smp.apart (s : Smp) (i : ℕ) (mask : BitVec 32) : Prop :=
  ∀ k, k ≠ i → ((s.cpus k).arriving ∨ (s.cpus k).queued → (s.cpus k).targetMask.getLsbD i = false) ∧
    ((s.cpus k).arriving → mask.getLsbD k = false)

/-- A CPU goes for the lock only where it is apart: when it disables its interrupts, or already at the
call if they are disabled then. -/
def TlbOp.apart (s : Smp) : TlbOp → Prop
  | .call i pml4 _ _ => (s.cpus i).irq = false → s.apart i (targetMask s i pml4)
  | .irqSave i => (s.cpus i).irq = true → s.apart i (s.cpus i).targetMask
  | _ => True

/-- A CPU waits for the lock with its interrupts disabled. -/
def Cpu.deaf (c : Cpu) : Prop := (c.phase = .masked ∨ c.phase = .spinning) ∧ c.irq = false

/-- CPU `a` waits for the acknowledgement of CPU `b`. -/
def Smp.awaits (s : Smp) (a b : ℕ) : Prop :=
  (∃ n, (s.cpus a).phase = .waiting n) ∧ s.ackMask.getLsbD b = true

/-! ## Targets -/

/-- A target of a request is a CPU that exists, and another one. -/
lemma targetMask_bit {s : Smp} {my b : ℕ} {pml4 : BitVec 64}
    (h : (targetMask s my pml4).getLsbD b = true) : b < min s.totalCpus.toNat maxCpus ∧ b ≠ my := by
  suffices hinv : ∀ b, (targetMask s my pml4).getLsbD b = true →
      b < min s.totalCpus.toNat maxCpus ∧ b ≠ my from hinv b h
  refine forUpTo_invariant (fun n (mask : BitVec 32) => ∀ b, mask.getLsbD b = true → b < n ∧ b ≠ my)
    (by simp) ?_
  intro i _ mask ih b hb
  split_ifs at hb with hi
  · rw [BitVec.getLsbD_or, Bool.or_eq_true] at hb
    rcases hb with hb | hb
    · exact ⟨(ih b hb).1.trans (Nat.lt_succ_self i), (ih b hb).2⟩
    · have hbi : b = i := by
        rw [BitVec.getLsbD_shiftLeft, BitVec.getLsbD_one] at hb
        simp at hb
        omega
      rw [isTarget, Bool.and_eq_true, Bool.and_eq_true, decide_eq_true_eq] at hi
      rw [hbi]
      exact ⟨Nat.lt_succ_self i, hi.1.1⟩
  · exact ⟨(ih b hb).1.trans (Nat.lt_succ_self i), (ih b hb).2⟩

/-! ## The invariant -/

/-- The ticket of a CPU that is in the queue. -/
def Cpu.ticket (c : Cpu) : Option (BitVec 32) := if c.queued then some c.myTicket else none

/-- From the lock to the unlock. -/
def Cpu.holding (c : Cpu) : Bool :=
  match c.phase with
  | .locked | .sending _ | .waiting _ | .leaving => true
  | _ => false

/-- The request is out. -/
def Cpu.posted (c : Cpu) : Bool :=
  match c.phase with
  | .sending _ | .waiting _ => true
  | _ => false

/-- The interrupt to `b` is sent, if there is one to send. -/
def Cpu.asked (c : Cpu) (b : ℕ) : Prop :=
  match c.phase with
  | .sending k => b < k
  | _ => True

/-- **The invariant.** `Q` is the queue of the lock; nobody in it targets one who is behind, or one who is
still on the way. -/
structure TlbInv (s : Smp) (Q : List ℕ) : Prop where
  tickets : TicketQueue s.slNext s.slServing (fun i => (s.cpus i).ticket) Q
  inside : ∀ i, (s.cpus i).phase ≠ .outside → i < s.totalCpus.toNat ∧
    ∀ b, (s.cpus i).targetMask.getLsbD b = true → b < min s.totalCpus.toNat maxCpus ∧ b ≠ i
  irq : ∀ i, (s.cpus i).queued ∨ (s.cpus i).phase = .masked → (s.cpus i).irq = false
  owner : ∀ i, (s.cpus i).holding → (s.cpus i).myTicket = s.slServing
  arriving : ∀ i k, k ≠ i → (s.cpus i).arriving → (s.cpus k).arriving →
    (s.cpus i).targetMask.getLsbD k = false
  coming : ∀ i k, (s.cpus i).queued → (s.cpus k).arriving → (s.cpus i).targetMask.getLsbD k = false
  ahead : Q.Pairwise fun i k => (s.cpus i).targetMask.getLsbD k = false
  ack : ∀ i, (s.cpus i).posted → ∀ b, s.ackMask.getLsbD b = true →
    (s.cpus i).targetMask.getLsbD b = true ∧ ((s.cpus i).asked b → s.pending b = true)

variable {c : Cpu}

lemma Cpu.holding.queued (h : c.holding) : c.queued := by
  unfold Cpu.holding at h
  unfold Cpu.queued
  split at h <;> simp_all

lemma Cpu.posted.holding (h : c.posted) : c.holding := by
  unfold Cpu.posted at h
  unfold Cpu.holding
  split at h <;> simp_all

lemma Cpu.queued.not_outside (h : c.queued) : c.phase ≠ .outside := by
  intro hp
  simp [Cpu.queued, hp] at h

lemma Cpu.queued.not_arriving (h : c.queued) : ¬ c.arriving := by rintro ⟨hp | hp, -⟩ <;> simp [Cpu.queued, hp] at h

section inv

variable {s s' : Smp} {Q : List ℕ}

lemma TlbInv.length_lt (i : TlbInv s Q) : Q.length < 2 ^ 32 := by
  have hsub : Q ⊆ List.range s.totalCpus.toNat := by
    intro k hk
    have hq := (i.tickets.mem k).mp hk
    rw [Cpu.ticket] at hq
    split_ifs at hq with hqueued
    · exact List.mem_range.mpr (i.inside k (Cpu.queued.not_outside hqueued)).1
    · exact absurd rfl hq
  have hle := (List.subperm_of_subset i.tickets.nodup hsub).length_le
  rw [List.length_range] at hle
  exact hle.trans_lt s.totalCpus.isLt

variable {a b : ℕ} {x : Cpu} {s₀ : Smp}

/-- **The holder of the lock is the first in the queue.** -/
lemma TlbInv.holder (i : TlbInv s Q) (ha : (s.cpus a).holding) : ∃ Q', Q = a :: Q' := by
  apply i.tickets.head_of_served i.length_lt
  rw [Cpu.ticket, if_pos (Cpu.holding.queued ha), i.owner a ha]

lemma TlbInv.holder_unique (i : TlbInv s Q) (ha : (s.cpus a).holding) (hb : (s.cpus b).holding) : a = b := by
  obtain ⟨Q1, h1⟩ := i.holder ha
  obtain ⟨Q2, h2⟩ := i.holder hb
  exact (List.cons.inj (h1.symm.trans h2)).1

lemma TlbInv.mem (i : TlbInv s Q) : a ∈ Q ↔ (s.cpus a).queued := by
  rw [i.tickets.mem, Cpu.ticket]
  split_ifs with h
  · simp [h]
  · simp [h]

lemma Cpu.queued_of_ticket {c : Cpu} (h : x.ticket = c.ticket) (hx : x.queued) : c.queued := by
  by_contra hc
  rw [Cpu.ticket, Cpu.ticket, if_pos hx, if_neg hc] at h
  cases h

/-- **One CPU moves, the queue stays.** -/
lemma TlbInv.move (i : TlbInv s Q) {c : ℕ} (hcpus : s'.cpus = update s.cpus c x) (hnext : s'.slNext = s.slNext)
    (hserving : s'.slServing = s.slServing) (htotal : s'.totalCpus = s.totalCpus)
    (hticket : x.ticket = (s.cpus c).ticket)
    (hin : x.phase ≠ .outside → c < s.totalCpus.toNat ∧ ∀ b, x.targetMask.getLsbD b = true → b < min s.totalCpus.toNat maxCpus ∧ b ≠ c)
    (hirq : x.queued ∨ x.phase = .masked → x.irq = false) (howner : x.holding → x.myTicket = s.slServing)
    (hmask : x.queued → x.targetMask = (s.cpus c).targetMask)
    (harr : x.arriving → (s.cpus c).arriving ∧ x.targetMask = (s.cpus c).targetMask ∨ s.apart c x.targetMask)
    (hack : ∀ i, (s'.cpus i).posted → ∀ b, s'.ackMask.getLsbD b = true → (s'.cpus i).targetMask.getLsbD b = true ∧ ((s'.cpus i).asked b → s'.pending b = true))
    :
    TlbInv s' Q := by
  have hself : s'.cpus c = x := by rw [hcpus, update_self]
  have hother : ∀ k, k ≠ c → s'.cpus k = s.cpus k := fun k hk => by rw [hcpus, update_of_ne hk]
  have hmaskQ : ∀ k ∈ Q, (s'.cpus k).targetMask = (s.cpus k).targetMask := by
    intro k hk
    by_cases hkc : k = c
    · rw [hkc, hself]
      refine hmask (Cpu.queued_of_ticket hticket.symm ?_)
      rw [← hkc]
      exact i.mem.mp hk
    · rw [hother k hkc]
  refine ⟨?_, fun k hk => ?_, fun k hk => ?_, fun k hk => ?_, fun j k hjk hj hk => ?_, fun j k hj hk => ?_, ?_, hack⟩
  · rw [hnext, hserving]
    refine i.tickets.congr fun k => ?_
    by_cases hkc : k = c
    · rw [hkc, hself, hticket]
    · rw [hother k hkc]
  · rw [htotal]
    by_cases hkc : k = c
    · rw [hkc, hself] at hk ⊢
      exact hin hk
    · rw [hother k hkc] at hk ⊢
      exact i.inside k hk
  · by_cases hkc : k = c
    · rw [hkc, hself] at hk ⊢
      exact hirq hk
    · rw [hother k hkc] at hk ⊢
      exact i.irq k hk
  · rw [hserving]
    by_cases hkc : k = c
    · rw [hkc, hself] at hk ⊢
      exact howner hk
    · rw [hother k hkc] at hk ⊢
      exact i.owner k hk
  · by_cases hjc : j = c
    · have hkc : k ≠ c := hjc ▸ hjk
      rw [hjc, hself] at hj ⊢
      rw [hother k hkc] at hk
      obtain ⟨hold, hm⟩ | hap := harr hj
      · rw [hm]
        exact i.arriving c k hkc hold hk
      · exact (hap k hkc).2 hk
    · rw [hother j hjc] at hj ⊢
      by_cases hkc : k = c
      · rw [hkc, hself] at hk
        rw [hkc]
        obtain ⟨hold, -⟩ | hap := harr hk
        · exact i.arriving j c (Ne.symm hjc) hj hold
        · exact (hap j hjc).1 (.inl hj)
      · rw [hother k hkc] at hk
        exact i.arriving j k hjk hj hk
  · by_cases hkc : k = c
    · rw [hkc, hself] at hk
      have hjc : j ≠ c := by
        rintro rfl
        rw [hself] at hj
        exact Cpu.queued.not_arriving hj hk
      rw [hother j hjc] at hj ⊢
      rw [hkc]
      obtain ⟨hold, -⟩ | hap := harr hk
      · exact i.coming j c hj hold
      · exact (hap j hjc).1 (.inr hj)
    · rw [hother k hkc] at hk
      by_cases hjc : j = c
      · rw [hjc, hself] at hj ⊢
        rw [hmask hj]
        exact i.coming c k (Cpu.queued_of_ticket hticket hj) hk
      · rw [hother j hjc] at hj ⊢
        exact i.coming j k hj hk
  · refine i.ahead.imp_of_mem fun hj _ h => ?_
    rw [hmaskQ _ hj]
    exact h

/-- A CPU that has no request out moves. -/
lemma TlbInv.ack_of_not_posted (i : TlbInv s Q) {c : ℕ} (hcpus : s'.cpus = update s.cpus c x)
    (hack : s'.ackMask = s.ackMask) (hpending : s'.pending = s.pending) (hx : x.posted = false) (k : ℕ)
    (hk : (s'.cpus k).posted) (b : ℕ) (hb : s'.ackMask.getLsbD b = true) :
    (s'.cpus k).targetMask.getLsbD b = true ∧ ((s'.cpus k).asked b → s'.pending b = true) := by
  have hkc : k ≠ c := by
    rintro rfl
    rw [hcpus, update_self, hx] at hk
    cases hk
  rw [hcpus, update_of_ne hkc] at hk ⊢
  rw [hack] at hb
  rw [hpending]
  exact i.ack k hk b hb

/-- The holder of the lock moves: nobody else has a request out. -/
lemma TlbInv.ack_of_holding (i : TlbInv s Q) {c : ℕ} (hcpus : s'.cpus = update s.cpus c x)
    (hc : (s.cpus c).holding)
    (hx : x.posted → ∀ b, s'.ackMask.getLsbD b = true → x.targetMask.getLsbD b = true ∧ (x.asked b → s'.pending b = true))
    (k : ℕ) (hk : (s'.cpus k).posted) (b : ℕ) (hb : s'.ackMask.getLsbD b = true) :
    (s'.cpus k).targetMask.getLsbD b = true ∧ ((s'.cpus k).asked b → s'.pending b = true) := by
  have hkc : k = c := by
    by_contra hkc
    rw [hcpus, update_of_ne hkc] at hk
    exact hkc (i.holder_unique (Cpu.posted.holding hk) hc)
  rw [hkc, hcpus, update_self] at hk ⊢
  exact hx hk b hb

/-- **The holder of the lock goes on**, and keeps it. -/
lemma TlbInv.goto (i : TlbInv s Q) {c : ℕ} {p : FlushPhase}
    (hcpus : s'.cpus = update s.cpus c { s.cpus c with phase := p })
    (hnext : s'.slNext = s.slNext) (hserving : s'.slServing = s.slServing)
    (htotal : s'.totalCpus = s.totalCpus) (hc : (s.cpus c).holding)
    (hp : ({ s.cpus c with phase := p } : Cpu).holding)
    (hack : ({ s.cpus c with phase := p } : Cpu).posted → ∀ b, s'.ackMask.getLsbD b = true →
      (s.cpus c).targetMask.getLsbD b = true ∧
        (({ s.cpus c with phase := p } : Cpu).asked b → s'.pending b = true)) : TlbInv s' Q := by
  have hqueued := Cpu.holding.queued hc
  have hqueued' := Cpu.holding.queued hp
  refine i.move hcpus hnext hserving htotal ?_ (fun _ => ?_) (fun _ => ?_) (fun _ => ?_) (fun _ => rfl)
    (fun harr => ?_) (i.ack_of_holding hcpus hc hack)
  · rw [Cpu.ticket, Cpu.ticket, if_pos hqueued, if_pos hqueued']
  · exact i.inside c (Cpu.queued.not_outside hqueued)
  · exact i.irq c (.inl hqueued)
  · exact i.owner c hc
  · exact absurd harr (Cpu.queued.not_arriving hqueued')

/-! ## Steps -/

section

variable (i : TlbInv s Q)
include i

lemma TlbInv.call {c : ℕ} {pml4 : BitVec 64} {va size : ℕ}
    (hc : c < s.totalCpus.toNat) (hphase : (s.cpus c).phase = .outside)
    (hC : (s.cpus c).irq = false → s.apart c (targetMask s c pml4)) :
    TlbInv (flushCall s c pml4 va size) Q := by
  rw [flushCall]
  split_ifs with hreturn
  · have hout : (flushOwn (s.cpus c) pml4 va size).phase = .outside := hphase
    refine i.move rfl rfl rfl rfl ?_ (fun h => absurd hout h) ?_ ?_ ?_ ?_
      (i.ack_of_not_posted rfl rfl rfl ?_)
    all_goals simp [hphase, Cpu.ticket, Cpu.queued, Cpu.holding, Cpu.posted, Cpu.arriving, hout]
  · refine i.move rfl rfl rfl rfl ?_ (fun _ => ⟨hc, fun b hb => targetMask_bit hb⟩) ?_ ?_ ?_
      (fun harr => .inr (hC harr.2)) (i.ack_of_not_posted rfl rfl rfl rfl)
    · simp [hphase, Cpu.ticket, Cpu.queued]
    · simp [Cpu.queued]
    · simp [Cpu.holding]
    · simp [Cpu.queued]

lemma TlbInv.irqSave {c : ℕ} (hphase : (s.cpus c).phase = .targeted)
    (hC : (s.cpus c).irq = true → s.apart c (s.cpus c).targetMask) : TlbInv (irqSave s c) Q := by
  refine i.move rfl rfl rfl rfl ?_ (fun _ => i.inside c (by simp [hphase])) (fun _ => rfl) ?_ ?_
    (fun _ => ?_) (i.ack_of_not_posted rfl rfl rfl rfl)
  · simp [Cpu.ticket, Cpu.queued, hphase]
  · simp [Cpu.holding]
  · simp [Cpu.queued]
  · by_cases hirq : (s.cpus c).irq = true
    · exact .inr (hC hirq)
    · exact .inl ⟨⟨.inl hphase, Bool.eq_false_of_not_eq_true hirq⟩, rfl⟩

lemma TlbInv.spin {c : ℕ} (hphase : (s.cpus c).phase = .spinning) : TlbInv (spinRound s c) Q := by
  have hqueued : (s.cpus c).queued := by simp [Cpu.queued, hphase]
  unfold spinRound
  split_ifs with hserved
  · refine i.move rfl rfl rfl rfl ?_ (fun _ => i.inside c (by simp [hphase]))
      (fun _ => i.irq c (.inl hqueued)) (fun _ => hserved.symm) (fun _ => rfl) ?_
      (i.ack_of_not_posted rfl rfl rfl rfl)
    · simp [Cpu.ticket, Cpu.queued, hphase]
    · simp [Cpu.arriving]
  · exact i

lemma TlbInv.post {c : ℕ} (hphase : (s.cpus c).phase = .locked) : TlbInv (postRequest s c) Q :=
  i.goto rfl rfl rfl rfl (by simp [Cpu.holding, hphase]) rfl
    fun _ b hb => ⟨hb, fun h => absurd h (Nat.not_lt_zero b)⟩

lemma TlbInv.send {c k : ℕ} (hphase : (s.cpus c).phase = .sending k) :
    TlbInv (sendRound s c k) Q := by
  have hposted : (s.cpus c).posted := by simp [Cpu.posted, hphase]
  have hold := i.ack c hposted
  simp only [Cpu.asked, hphase] at hold
  unfold sendRound
  split_ifs with hk
  · refine i.goto rfl rfl rfl rfl (Cpu.posted.holding hposted) rfl fun _ b hb => ?_
    refine ⟨(hold b hb).1, fun hbk => ?_⟩
    dsimp only
    rw [update_apply]
    split_ifs with hbk'
    · rw [← hbk', (hold b hb).1, Bool.or_true]
    · exact (hold b hb).2 (Nat.lt_of_le_of_ne (Nat.le_of_lt_succ hbk) hbk')
  · refine i.goto rfl rfl rfl rfl (Cpu.posted.holding hposted) rfl fun _ b hb => ?_
    refine ⟨(hold b hb).1, fun _ => (hold b hb).2 ?_⟩
    have hlt := ((i.inside c (by simp [hphase])).2 b (hold b hb).1).1
    exact hlt.trans_le (Nat.le_of_not_lt hk)

lemma TlbInv.wait {c n : ℕ} (hphase : (s.cpus c).phase = .waiting n) :
    TlbInv (waitRound s c n) Q := by
  have hposted : (s.cpus c).posted := by simp [Cpu.posted, hphase]
  have hhold := Cpu.posted.holding hposted
  have hold := i.ack c hposted
  simp only [Cpu.asked, hphase] at hold
  unfold waitRound
  split_ifs
  · exact i.goto rfl rfl rfl rfl hhold rfl nofun
  · exact i.goto rfl rfl rfl rfl hhold rfl nofun
  · exact i.goto rfl rfl rfl rfl hhold rfl fun _ b hb => hold b hb

lemma TlbInv.irqRestore {c : ℕ} (hphase : (s.cpus c).phase = .unlocked) :
    TlbInv (irqRestore s c) Q := by
  refine i.move rfl rfl rfl rfl ?_ (fun h => absurd rfl h) ?_ ?_ ?_ ?_
    (i.ack_of_not_posted rfl rfl rfl rfl)
  all_goals simp [Cpu.ticket, Cpu.queued, Cpu.holding, Cpu.arriving, hphase]

lemma TlbInv.other {c : ℕ} (hphase : (s.cpus c).phase = .outside) (hx : x.phase = .outside)
    (active : ℕ) : TlbInv { s.setCpu c x with activeCpus := active } Q := by
  refine i.move rfl rfl rfl rfl ?_ (fun h => absurd hx h) ?_ ?_ ?_ ?_
    (i.ack_of_not_posted rfl rfl rfl ?_)
  all_goals simp [Cpu.ticket, Cpu.queued, Cpu.holding, Cpu.posted, Cpu.arriving, hphase, hx]

/-- **A CPU takes a ticket**: nobody in the queue targets it. -/
lemma TlbInv.takeTicket {c : ℕ} (hphase : (s.cpus c).phase = .masked) :
    TlbInv (takeTicket s c) (Q ++ [c]) := by
  have hself : (Chimera.takeTicket s c).cpus c =
      { s.cpus c with phase := .spinning, myTicket := s.slNext } := update_self _ _ _
  have hother : ∀ k, k ≠ c → (Chimera.takeTicket s c).cpus k = s.cpus k := fun k hk => update_of_ne hk _ _
  have hmask : ∀ k, ((Chimera.takeTicket s c).cpus k).targetMask = (s.cpus k).targetMask := by
    intro k
    by_cases hkc : k = c
    · rw [hkc, hself]
    · rw [hother k hkc]
  have harr : (s.cpus c).arriving := ⟨.inr hphase, i.irq c (.inr hphase)⟩
  refine ⟨?_, fun k hk => ?_, fun k hk => ?_, fun k hk => ?_, fun j k hjk hj hk => ?_,
    fun j k hj hk => ?_, ?_, i.ack_of_not_posted rfl rfl rfl rfl⟩
  · refine i.tickets.take (by simp [Cpu.ticket, Cpu.queued, hphase]) ?_ fun k hk => ?_
    · rw [hself]
      rfl
    · rw [hother k hk]
  · rw [hmask k]
    by_cases hkc : k = c
    · rw [hkc]
      exact i.inside c (by simp [hphase])
    · rw [hother k hkc] at hk
      exact i.inside k hk
  · by_cases hkc : k = c
    · rw [hkc, hself]
      exact harr.2
    · rw [hother k hkc] at hk ⊢
      exact i.irq k hk
  · have hkc : k ≠ c := by
      rintro rfl
      rw [hself] at hk
      cases hk
    rw [hother k hkc] at hk ⊢
    exact i.owner k hk
  · have hne : ∀ {k}, ((Chimera.takeTicket s c).cpus k).arriving → k ≠ c := by
      rintro k hk rfl
      rw [hself] at hk
      exact Cpu.queued.not_arriving rfl hk
    rw [hmask]
    rw [hother j (hne hj)] at hj
    rw [hother k (hne hk)] at hk
    exact i.arriving j k hjk hj hk
  · have hkc : k ≠ c := by
      rintro rfl
      rw [hself] at hk
      exact Cpu.queued.not_arriving rfl hk
    rw [hmask]
    rw [hother k hkc] at hk
    by_cases hjc : j = c
    · rw [hjc]
      exact i.arriving c k hkc harr hk
    · rw [hother j hjc] at hj
      exact i.coming j k hj hk
  · simp only [hmask]
    refine List.pairwise_append.mpr ⟨i.ahead, List.pairwise_singleton _ _, fun a ha b hb => ?_⟩
    rw [List.mem_singleton.mp hb]
    exact i.coming a c (i.mem.mp ha) harr

/-- **The holder leaves**, and the next in the queue is served. -/
lemma TlbInv.unlock {c : ℕ} (hphase : (s.cpus c).phase = .leaving) :
    ∃ Q', TlbInv (tlbUnlock s c) Q' := by
  have hhold : (s.cpus c).holding := by simp [Cpu.holding, hphase]
  obtain ⟨Q', rfl⟩ := i.holder hhold
  have hself : (tlbUnlock s c).cpus c = { s.cpus c with phase := .unlocked } := update_self _ _ _
  have hother : ∀ k, k ≠ c → (tlbUnlock s c).cpus k = s.cpus k := fun k hk => update_of_ne hk _ _
  have hmask : ∀ k, ((tlbUnlock s c).cpus k).targetMask = (s.cpus k).targetMask := by
    intro k
    by_cases hkc : k = c
    · rw [hkc, hself]
    · rw [hother k hkc]
  have hqueued : ∀ {k}, ((tlbUnlock s c).cpus k).queued → k ≠ c := by
    rintro k hk rfl
    rw [hself] at hk
    cases hk
  have harr : ∀ {k}, ((tlbUnlock s c).cpus k).arriving → k ≠ c := by
    rintro k ⟨hk, -⟩ rfl
    rw [hself] at hk
    simp at hk
  refine ⟨Q', ?_, fun k hk => ?_, fun k hk => ?_, fun k hk => ?_, fun j k hjk hj hk => ?_,
    fun j k hj hk => ?_, ?_, i.ack_of_not_posted rfl rfl rfl rfl⟩
  · refine i.tickets.leave ?_ fun k hk => ?_
    · rw [hself]
      rfl
    · rw [hother k hk]
  · rw [hmask]
    by_cases hkc : k = c
    · rw [hkc]
      exact i.inside c (by simp [hphase])
    · rw [hother k hkc] at hk
      exact i.inside k hk
  · have hkc : k ≠ c := by
      rintro rfl
      rw [hself] at hk
      rcases hk with hk | hk <;> cases hk
    rw [hother k hkc] at hk ⊢
    exact i.irq k hk
  · have hkc := hqueued (Cpu.holding.queued hk)
    rw [hother k hkc] at hk
    exact absurd (i.holder_unique hk hhold) hkc
  · rw [hmask]
    rw [hother j (harr hj)] at hj
    rw [hother k (harr hk)] at hk
    exact i.arriving j k hjk hj hk
  · rw [hmask]
    rw [hother j (hqueued hj)] at hj
    rw [hother k (harr hk)] at hk
    exact i.coming j k hj hk
  · simp only [hmask]
    exact (List.pairwise_cons.mp i.ahead).2

end

/-- The handler clears the bit of its CPU and no other. -/
lemma ackMask_handler {c : ℕ} (hc : c < maxCpus) :
    (smpTlbIpiHandler s c).ackMask.getLsbD b = (s.ackMask.getLsbD b && !(b = c : Bool)) := by
  have hbit : (1#32 <<< c).getLsbD b = (decide (b < 32) && decide (b = c)) := by
    rw [BitVec.getLsbD_shiftLeft, BitVec.getLsbD_one]
    unfold maxCpus at hc
    by_cases hbc : b = c
    · simp [hbc]
    · simp [hbc]
      omega
  rw [smpTlbIpiHandler]
  rw [if_pos hc, BitVec.getLsbD_and, BitVec.getLsbD_not, hbit]
  by_cases hb : b < 32
  · simp [hb]
  · rw [BitVec.getLsbD_of_ge _ _ (Nat.le_of_not_lt hb)]
    simp

lemma TlbInv.handler (i : TlbInv s Q) {c : ℕ} (hirq : (s.cpus c).irq = true) : TlbInv (smpTlbIpiHandler s c) Q := by
  have hidle : (s.cpus c).queued = false := by
    by_contra h
    rw [Bool.not_eq_false] at h
    rw [i.irq c (.inl h)] at hirq
    cases hirq
  refine i.move rfl rfl rfl rfl rfl (i.inside c) (i.irq c) (i.owner c) (fun _ => rfl)
    (fun harr => .inl ⟨harr, rfl⟩) fun k hk b hb => ?_
  have hkc : k ≠ c := by
    rintro rfl
    have hself : ((smpTlbIpiHandler s k).cpus k).queued = (s.cpus k).queued := by
      rw [smpTlbIpiHandler, Smp.setCpu]
      simp only [update_self]
      rfl
    have hq := Cpu.holding.queued (Cpu.posted.holding hk)
    rw [hself, hidle] at hq
    cases hq
  have hcpu : (smpTlbIpiHandler s c).cpus k = s.cpus k := update_of_ne hkc _ _
  rw [hcpu] at hk ⊢
  have hsub : s.ackMask.getLsbD b = true ∧ b ≠ c := by
    by_cases hc : c < maxCpus
    · rw [ackMask_handler hc, Bool.and_eq_true] at hb
      exact ⟨hb.1, by simpa using hb.2⟩
    · have hack : (smpTlbIpiHandler s c).ackMask = s.ackMask := by
        rw [smpTlbIpiHandler]
        exact if_neg hc
      rw [hack] at hb
      refine ⟨hb, ?_⟩
      rintro rfl
      have hlt := ((i.inside k (Cpu.queued.not_outside (Cpu.holding.queued (Cpu.posted.holding hk)))).2 b
        (i.ack k hk b hb).1).1
      exact hc (hlt.trans_le (min_le_right _ _))
  refine ⟨(i.ack k hk b hsub.1).1, fun hasked => ?_⟩
  exact (update_of_ne hsub.2 _ _).trans ((i.ack k hk b hsub.1).2 hasked)

lemma TlbInv.step (i : TlbInv s Q) {op : TlbOp} (hC : op.apart s) (hstep : TlbStep s op s') : ∃ Q', TlbInv s' Q' := by
  cases hstep with
  | call hi h => exact ⟨Q, i.call hi h hC⟩
  | irqSave h => exact ⟨Q, i.irqSave h hC⟩
  | takeTicket h => exact ⟨_, i.takeTicket h⟩
  | spin h => exact ⟨Q, i.spin h⟩
  | post h => exact ⟨Q, i.post h⟩
  | send h => exact ⟨Q, i.send h⟩
  | wait h => exact ⟨Q, i.wait h⟩
  | unlock h => exact i.unlock h
  | irqRestore h => exact ⟨Q, i.irqRestore h⟩
  | handler hirq hp => exact ⟨Q, i.handler hirq⟩
  | other h hx active => exact ⟨Q, i.other h hx active⟩

lemma TlbQuiet.inv (h : TlbQuiet s) : TlbInv s [] := by
  have hnone : ∀ i, (s.cpus i).ticket = none := fun i => by simp [Cpu.ticket, Cpu.queued, h.outside i]
  refine ⟨?_, ?_, ?_, ?_, ?_, ?_, List.Pairwise.nil, ?_⟩
  · rw [h.free]
    exact (TicketQueue.empty _).congr hnone
  all_goals simp [Cpu.queued, Cpu.holding, Cpu.posted, Cpu.arriving, h.outside]

lemma TlbRun.inv (h0 : TlbQuiet s₀) (h : TlbRun (fun s op => op.apart s) s₀ s) : ∃ Q, TlbInv s Q := by
  induction h with
  | start => exact ⟨[], h0.inv⟩
  | step op hrun hC hstep ih =>
    obtain ⟨Q, i⟩ := ih
    exact i.step hC hstep

/-! ## Progress -/

/-- **A CPU that is waited for** is not on its way to the lock nor in its queue, and its interrupt is
pending. -/
lemma TlbInv.awaited (i : TlbInv s Q) (h : s.awaits a b) :
    ¬ (s.cpus b).arriving ∧ (s.cpus b).queued = false ∧ s.pending b = true ∧ b < maxCpus := by
  obtain ⟨⟨n, hn⟩, hb⟩ := h
  have hposted : (s.cpus a).posted := by simp [Cpu.posted, hn]
  have hhold := Cpu.posted.holding hposted
  have hqueued := Cpu.holding.queued hhold
  obtain ⟨hmask, hpending⟩ := i.ack a hposted b hb
  obtain ⟨hlt, hne⟩ := (i.inside a (Cpu.queued.not_outside hqueued)).2 b hmask
  obtain ⟨Q', rfl⟩ := i.holder hhold
  refine ⟨fun harr => ?_, ?_, hpending (by simp [Cpu.asked, hn]), hlt.trans_le (min_le_right _ _)⟩
  · rw [i.coming a b hqueued harr] at hmask
    cases hmask
  · by_contra hq
    rw [Bool.not_eq_false, ← i.mem, List.mem_cons, or_iff_right hne] at hq
    rw [(List.pairwise_cons.mp i.ahead).1 b hq] at hmask
    cases hmask

/-- With its interrupts enabled a CPU acknowledges in one step. -/
lemma ack_of_irq (hrun : TlbRun (fun _ op => op.cpu = b) s₀ s) (hframe : ∀ k, k ≠ b → s.cpus k = s₀.cpus k)
    (hb : b < maxCpus) (hirq : (s.cpus b).irq = true) (hp : s.pending b = true)
    : ∃ s', TlbRun (fun _ op => op.cpu = b) s₀ s' ∧
      s'.ackMask.getLsbD b = false ∧ ∀ k, k ≠ b → s'.cpus k = s₀.cpus k := by
  refine ⟨_, hrun.step (.handler b) rfl (.handler hirq hp), ?_, fun k hk => ?_⟩
  · rw [ackMask_handler hb]
    simp
  · rw [← hframe k hk]
    exact update_of_ne hk _ _

/-- Outside of the call a CPU can enable its interrupts. -/
lemma ack_of_outside (hrun : TlbRun (fun _ op => op.cpu = b) s₀ s) (hframe : ∀ k, k ≠ b → s.cpus k = s₀.cpus k)
    (hb : b < maxCpus) (hout : (s.cpus b).phase = .outside) (hp : s.pending b = true)
    : ∃ s', TlbRun (fun _ op => op.cpu = b) s₀ s' ∧
      s'.ackMask.getLsbD b = false ∧ ∀ k, k ≠ b → s'.cpus k = s₀.cpus k := by
  have hstep := hrun.step (.other b) rfl
    (.other hout (x := { s.cpus b with irq := true }) hout s.activeCpus)
  refine ack_of_irq hstep (fun k hk => ?_) hb ?_ hp
  · rw [← hframe k hk]
    exact update_of_ne hk _ _
  · simp [Smp.setCpu]

end inv

/-- **Shootdowns make progress.** In a run in which every CPU goes for the lock apart, a CPU whose
acknowledgement is waited for does not itself wait for the lock with its interrupts disabled, and it can
acknowledge by steps of its own, so that no timeout is needed. -/
theorem shootdown_progress {s₀ s : Smp} (h₀ : TlbQuiet s₀) (h : TlbRun (fun s op => op.apart s) s₀ s)
    {a b : ℕ} (hab : s.awaits a b) :
    ¬ (s.cpus b).deaf ∧ ∃ s', TlbRun (fun _ op => op.cpu = b) s s' ∧ s'.ackMask.getLsbD b = false ∧
      ∀ k, k ≠ b → s'.cpus k = s.cpus k := by
  obtain ⟨Q, i⟩ := h.inv h₀
  obtain ⟨harr, hqueued, hp, hb⟩ := i.awaited hab
  constructor
  · rintro ⟨hm | hs, hirq⟩
    · exact harr ⟨.inr hm, hirq⟩
    · simp [Cpu.queued, hs] at hqueued
  · cases hphase : (s.cpus b).phase with
    | outside => exact ack_of_outside .start (fun _ _ => rfl) hb hphase hp
    | targeted =>
      have hirq : (s.cpus b).irq = true := by
        by_contra hirq
        exact harr ⟨.inl hphase, Bool.eq_false_of_not_eq_true hirq⟩
      exact ack_of_irq .start (fun _ _ => rfl) hb hirq hp
    | masked => exact absurd ⟨.inr hphase, i.irq b (.inr hphase)⟩ harr
    | unlocked =>
      have hstep := TlbRun.start.step (.irqRestore b) (C := fun _ op => op.cpu = b) rfl (.irqRestore hphase)
      refine ack_of_outside hstep (fun k hk => update_of_ne hk _ _) hb ?_ hp
      simp [irqRestore, Smp.setCpu]
    | spinning | locked | sending | waiting | leaving => simp [Cpu.queued, hphase] at hqueued

/-! ## Two CPUs -/

/-- A CPU that is outside of the call and has every page cached. -/
def idleCpu : Cpu := ⟨true, 0, 0, fun _ => true, true, .outside, 0, 0, 0, 0, false, 0⟩

/-- Two active CPUs. -/
def twoCpus : Smp := ⟨2, 2, fun _ => idleCpu, fun _ => false, 0, 0, 0, 0, 0, 0⟩

lemma twoCpus_quiet : TlbQuiet twoCpus := ⟨fun _ => rfl, rfl⟩

/-- CPU `0` alone: it waits for CPU `1`, which can acknowledge. -/
theorem shootdown_progress_two : ∃ s : Smp, TlbRun (fun s op => op.apart s) twoCpus s ∧ s.awaits 0 1 ∧
    ¬ (s.cpus 1).deaf := by
  have h1 : TlbRun (fun s op => op.apart s) twoCpus _ :=
    .step (.call 0 0 28672 4096) .start nofun (.call (by decide) rfl)
  have hout : ∀ k, k ≠ 0 → (flushCall twoCpus 0 0 28672 4096).cpus k = idleCpu := by
    intro k hk
    rw [flushCall, if_neg (by decide)]
    exact update_of_ne hk _ _
  have hapart : (flushCall twoCpus 0 0 28672 4096).apart 0 2 := by
    intro k hk
    rw [hout k hk]
    exact ⟨by simp [idleCpu, Cpu.arriving, Cpu.queued], by simp [idleCpu, Cpu.arriving]⟩
  have h2 := h1.step (.irqSave 0) (fun _ => hapart) (.irqSave (by decide))
  have h3 := h2.step (.takeTicket 0) trivial (.takeTicket (by decide))
  have h4 := h3.step (.spin 0) trivial (.spin (by decide))
  have h5 := h4.step (.post 0) trivial (.post (by decide))
  have h6 := h5.step (.send 0) trivial (.send (k := 0) (by decide))
  have h7 := h6.step (.send 0) trivial (.send (k := 1) (by decide))
  have h8 := h7.step (.send 0) trivial (.send (k := 2) (by decide))
  refine ⟨_, h8, ?hab, (shootdown_progress twoCpus_quiet h8 ?hab).1⟩
  exact ⟨⟨2000000, by decide⟩, by decide⟩

/-- A CPU can wait until the timeout while nobody acknowledges. -/
lemma wait_out {s₀ s : Smp} {c n : ℕ} (hrun : TlbRun (fun _ _ => True) s₀ s) (hack : s.ackMask ≠ 0)
    (hphase : (s.cpus c).phase = .waiting (n + 1)) : TlbRun (fun _ _ => True) s₀ (s.goto c .leaving) := by
  induction n generalizing s with
  | zero =>
    have h := hrun.step (.wait c) trivial (.wait hphase)
    rwa [waitRound, if_neg hack, if_pos rfl] at h
  | succ n ih =>
    have h := hrun.step (.wait c) trivial (.wait hphase)
    rw [waitRound, if_neg hack, if_neg (by simp)] at h
    have hgoto : (s.goto c (.waiting (n + 1))).goto c .leaving = s.goto c .leaving := by simp [Smp.goto, Smp.setCpu]
    rw [← hgoto]
    exact ih h hack (by simp [Smp.goto, Smp.setCpu])

/-- **Two CPUs wait for each other.** Both flush a page at the same time. CPU `0` gets the lock and waits
for CPU `1`, which waits for the lock with its interrupts disabled; after the timeout CPU `0` returns and
CPU `1` still has page `7` cached. -/
theorem crossFlush_waits : (∃ s : Smp, TlbRun (fun _ _ => True) twoCpus s ∧ s.awaits 0 1 ∧ (s.cpus 1).deaf) ∧
      ∃ s : Smp, TlbRun (fun _ _ => True) twoCpus s ∧ (s.cpus 0).phase = .outside ∧ (s.cpus 1).cached 7 = true := by
  have h1 : TlbRun (fun _ _ => True) twoCpus _ := .step (.call 0 0 28672 4096) .start trivial (.call (by decide) rfl)
  have h2 := h1.step (.call 1 0 36864 4096) trivial (.call (by decide) (by decide))
  have h3 := h2.step (.irqSave 0) trivial (.irqSave (by decide))
  have h4 := h3.step (.irqSave 1) trivial (.irqSave (by decide))
  have h5 := h4.step (.takeTicket 0) trivial (.takeTicket (by decide))
  have h6 := h5.step (.takeTicket 1) trivial (.takeTicket (by decide))
  have h7 := h6.step (.spin 0) trivial (.spin (by decide))
  have h8 := h7.step (.post 0) trivial (.post (by decide))
  have h9 := h8.step (.send 0) trivial (.send (k := 0) (by decide))
  have h10 := h9.step (.send 0) trivial (.send (k := 1) (by decide))
  have h11 := h10.step (.send 0) trivial (.send (k := 2) (by decide))
  have h12 := wait_out (c := 0) (n := 1999999) h11 (by decide) (by decide)
  have h13 := h12.step (.unlock 0) trivial (.unlock (by decide))
  have h14 := h13.step (.irqRestore 0) trivial (.irqRestore (by decide))
  refine ⟨⟨_, h11, ⟨⟨2000000, by decide⟩, by decide⟩, ?_⟩, ⟨_, h14, by decide, by decide⟩⟩
  exact ⟨.inr (by decide), by decide⟩

end Chimera
