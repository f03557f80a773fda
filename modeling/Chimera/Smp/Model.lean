import Mathlib.Tactic
import Chimera.Lib.Loop

/-!
# TLB shootdown: `kernel/arch/x86_64/smp.c`

A CPU that has changed a page table asks the others that may have it loaded to drop their cached
translations: under `s_tlb_lock` it publishes a request, sends an interrupt to its targets, and waits for
each of them to clear its bit of `s_tlb_ack_mask`, or for a timeout. `smp_tlb_flush_range_pml4` is cut at
each point where other CPUs can come in between; a CPU outside of it may do anything else.

* A CPU is named by its number. `s_tlb_lock` is the ticket lock of `spinlock.h`.
* Virtual addresses are numbers, and a range does not wrap; what a CPU has cached is a set of page numbers.
* An interrupt stays pending until the CPU has its interrupts enabled and handles it.
-/

namespace Chimera

open Lib

/-- `CHIMERA_MAX_CPUS`. -/
def maxCpus : ℕ := 16

/-- Two values of CR3 name the same root. -/
def sameRoot (a b : BitVec 64) : Bool := a &&& 0x000FFFFFFFFFF000 = b &&& 0x000FFFFFFFFFF000

/-- Where a CPU is in `smp_tlb_flush_range_pml4`. -/
inductive FlushPhase where
  | outside
  /-- `target_mask` is computed. -/
  | targeted
  /-- After `irq_save`. -/
  | masked
  /-- In the loop of `spinlock_lock`. -/
  | spinning
  | locked
  /-- In the loop that sends the interrupts. -/
  | sending (i : ℕ)
  /-- In the loop that waits for the acknowledgements. -/
  | waiting (timeout : ℕ)
  /-- Behind this loop. -/
  | leaving
  /-- After `spinlock_unlock`. -/
  | unlocked
  deriving DecidableEq, Repr

/-- A CPU, with the local variables of its call. -/
structure Cpu where
  isActive : Bool
  /-- The register CR3. -/
  cr3 : BitVec 64
  /-- `cpu_active_cr3`. -/
  activeCr3 : BitVec 64
  /-- The pages it has cached a translation for. -/
  cached : ℕ → Bool
  /-- Interrupts are enabled. -/
  irq : Bool
  phase : FlushPhase
  pml4 : BitVec 64
  startVa : ℕ
  size : ℕ
  targetMask : BitVec 32
  flags : Bool
  myTicket : BitVec 32

/-- The CPUs, the counters of `s_tlb_lock`, and the request. -/
structure Smp where
  totalCpus : BitVec 32
  activeCpus : ℕ
  cpus : ℕ → Cpu
  /-- A `VECTOR_IPI_TLB` waits to be handled. -/
  pending : ℕ → Bool
  slNext : BitVec 32
  slServing : BitVec 32
  reqCr3 : BitVec 64
  reqVa : ℕ
  reqSize : ℕ
  ackMask : BitVec 32

def Smp.setCpu (s : Smp) (i : ℕ) (x : Cpu) : Smp := { s with cpus := Function.update s.cpus i x }

/-- Go on to another point. -/
def Smp.goto (s : Smp) (i : ℕ) (p : FlushPhase) : Smp := s.setCpu i { s.cpus i with phase := p }

/-- Drop the cached translations of a range, or all of them. -/
def flushPages (va size : ℕ) (cached : ℕ → Bool) : ℕ → Bool :=
  if va = 0 ∨ size = 0 ∨ 2 * 1024 * 1024 ≤ size then fun _ => false
  else fun page => cached page && !(va / 4096 ≤ page ∧ page * 4096 < va + size)

/-- Source: `smp_tlb_ipi_handler` -/
def smpTlbIpiHandler (s : Smp) (i : ℕ) : Smp :=
  let c := s.cpus i
  let cached := if s.reqCr3 = 0 ∨ sameRoot c.cr3 s.reqCr3 then flushPages s.reqVa s.reqSize c.cached
    else c.cached
  { s.setCpu i { c with cached := cached } with
    pending := Function.update s.pending i false
    ackMask := if i < maxCpus then s.ackMask &&& ~~~(1#32 <<< i) else s.ackMask }

/-! ## `smp_tlb_flush_range_pml4` -/

/-- A CPU that a request from `my` goes to. -/
def isTarget (s : Smp) (my : ℕ) (pml4 : BitVec 64) (i : ℕ) : Bool :=
  i ≠ my && (s.cpus i).isActive && (pml4 = 0 || sameRoot (s.cpus i).activeCr3 pml4)

/-- The loop that computes `target_mask`. -/
def targetMask (s : Smp) (my : ℕ) (pml4 : BitVec 64) : BitVec 32 :=
  forUpTo (fun i mask => if isTarget s my pml4 i then mask ||| 1#32 <<< i else mask)
    (min s.totalCpus.toNat maxCpus) 0

/-- The CPU drops its own translations, if the page table is its own. -/
def flushOwn (c : Cpu) (pml4 : BitVec 64) (startVa size : ℕ) : Cpu :=
  { c with cached := if pml4 = 0 ∨ sameRoot c.cr3 pml4 then flushPages startVa size c.cached else c.cached }

/-- From the call to `target_mask`; the call returns where there is no other CPU to ask. -/
def flushCall (s : Smp) (my : ℕ) (pml4 : BitVec 64) (startVa size : ℕ) : Smp :=
  let c := flushOwn (s.cpus my) pml4 startVa size
  if s.totalCpus ≤ 1 ∨ s.activeCpus ≤ 1 ∨ targetMask s my pml4 = 0 then s.setCpu my c
  else s.setCpu my { c with
    phase := .targeted, pml4 := pml4, startVa := startVa, size := size, targetMask := targetMask s my pml4 }

/-- Source: `irq_save` -/
def irqSave (s : Smp) (i : ℕ) : Smp :=
  s.setCpu i { s.cpus i with phase := .masked, flags := (s.cpus i).irq, irq := false }

/-- Source: the `atomic_fetch_add` of `spinlock_lock` -/
def takeTicket (s : Smp) (i : ℕ) : Smp :=
  { s.setCpu i { s.cpus i with phase := .spinning, myTicket := s.slNext } with slNext := s.slNext + 1 }

/-- A round of the loop of `spinlock_lock`. -/
def spinRound (s : Smp) (i : ℕ) : Smp :=
  if s.slServing = (s.cpus i).myTicket then s.goto i .locked else s

/-- Publish the request. -/
def postRequest (s : Smp) (i : ℕ) : Smp :=
  let c := s.cpus i
  { s.goto i (.sending 0) with
    reqCr3 := c.pml4, reqVa := c.startVa, reqSize := c.size, ackMask := c.targetMask }

/-- A round of the loop that sends the interrupts; behind it, `timeout = 2000000`. -/
def sendRound (s : Smp) (i k : ℕ) : Smp :=
  if k < min s.totalCpus.toNat maxCpus then
    { s.goto i (.sending (k + 1)) with
      pending := Function.update s.pending k (s.pending k || (s.cpus i).targetMask.getLsbD k) }
  else s.goto i (.waiting 2000000)

/-- A round of the loop that waits for the acknowledgements. -/
def waitRound (s : Smp) (i timeout : ℕ) : Smp :=
  if s.ackMask = 0 then s.goto i .leaving
  else if timeout - 1 = 0 then s.goto i .leaving
  else s.goto i (.waiting (timeout - 1))

/-- Source: `spinlock_unlock` -/
def tlbUnlock (s : Smp) (i : ℕ) : Smp := { s.goto i .unlocked with slServing := s.slServing + 1 }

/-- Source: `irq_restore` -/
def irqRestore (s : Smp) (i : ℕ) : Smp :=
  s.setCpu i { s.cpus i with phase := .outside, irq := (s.cpus i).flags }

end Chimera
