import Chimera.Lib.Links
import Chimera.Sched.Model
import Chimera.Smp.Model

/-!
# Run queues and dispatch: `kernel/arch/x86_64/scheduler.c`

Each CPU has a run queue, a list through `th_next` in the order of the priorities. `scheduler_yield` puts
the running thread back, takes the first thread of the queue, or steals one from another CPU, and switches
to it; `thread_wake`, `scheduler_add_thread` and `scheduler_remove_thread` are called from any CPU.

Conventions.
* Threads, CPUs and calls are named by numbers. The idle thread of a CPU is in no queue and is never
  woken, so it has no number: a CPU without a current thread runs its idle thread.
* A section under the lock of a queue is one step, and so is an atomic operation together with the plain
  code next to it. The calls between their steps are in `wakes`, `adds` and `removals`, and a CPU inside
  of `scheduler_yield` is at a `CpuPhase`.
* The scans for the least and the most loaded CPU read the counts while these change; so any CPU that the
  scan considers can come out of it.
* `th_cpu_usage` is not read, stacks and page tables do not matter for the queues: they are left out.
-/

namespace Chimera

open Lib
open Function (update update_apply)

/-- The fields of `chimera_thread_t` that the scheduler uses, its link apart. -/
structure RunThread where
  /-- `th_state`. -/
  state : ThreadState
  /-- `th_priority`. -/
  priority : ℕ
  /-- `th_base_priority`. -/
  basePriority : ℕ
  /-- `th_sched_priority`. -/
  schedPriority : ℕ
  /-- `th_assigned_cpu`. -/
  assignedCpu : ℕ
  /-- `th_running_cpu`, without a value for `0xFFFFFFFF`. -/
  runningCpu : Option ℕ
  deriving DecidableEq, Repr

/-- `cpu_runq_t`. -/
structure RunQueue where
  head : Option ℕ
  count : ℕ
  deriving DecidableEq, Repr

/-- Where a CPU is in `scheduler_yield`. -/
inductive CpuPhase where
  /-- Outside. -/
  | running
  /-- Outside, but the current thread waits and calls `scheduler_yield` next. -/
  | parked
  /-- The own queue was empty. -/
  | stealing
  /-- `new_thread` is set, to the idle thread if there is no value. -/
  | chosen (new : Option ℕ)
  /-- In `context_switch`, before `th_running_cpu` of the old thread is reset. -/
  | switching (old : Option ℕ)
  deriving DecidableEq, Repr

structure RunCpu where
  /-- `cpu_is_active`. -/
  isActive : Bool
  /-- `cpu_current_thread`. -/
  current : Option ℕ
  phase : CpuPhase
  deriving DecidableEq, Repr

/-- A call of `thread_wake` between its steps. -/
inductive WakePhase where
  | idle
  /-- The thread is ready. -/
  | woken (t : ℕ)
  /-- The queue is chosen. -/
  | targeted (t cpu : ℕ)
  deriving DecidableEq, Repr

structure RunSched where
  threads : ℕ → RunThread
  /-- `th_next`. -/
  next : ℕ → Option ℕ
  runqs : ℕ → RunQueue
  cpus : ℕ → RunCpu
  totalCpus : ℕ
  wakes : ℕ → WakePhase
  /-- The calls of `scheduler_add_thread` before they enqueue: thread and queue. -/
  adds : ℕ → Option (ℕ × ℕ)
  /-- The calls of `scheduler_remove_thread` before they unlink: thread and queue. -/
  removals : ℕ → Option (ℕ × ℕ)

namespace RunSched

variable (s : RunSched)

@[simps -fullyApplied cpus]
def setThread (t : ℕ) (x : RunThread) : RunSched := { s with threads := update s.threads t x }

def setState (t : ℕ) (x : ThreadState) : RunSched := s.setThread t { s.threads t with state := x }

@[simps -fullyApplied threads]
def setCpu (k : ℕ) (x : RunCpu) : RunSched := { s with cpus := update s.cpus k x }

def goto (k : ℕ) (p : CpuPhase) : RunSched := s.setCpu k { s.cpus k with phase := p }

/-- The queue of a CPU as a list. -/
def links (k : ℕ) : Links ℕ := ⟨(s.runqs k).head, s.next⟩

/-- The queue of a CPU after a change, with its new count. -/
@[simps -fullyApplied threads cpus]
def setLinks (k : ℕ) (l : Links ℕ) (count : ℕ) : RunSched :=
  { s with next := l.next, runqs := update s.runqs k ⟨l.head, count⟩ }

@[simps -fullyApplied threads cpus]
def setWake (w : ℕ) (x : WakePhase) : RunSched := { s with wakes := update s.wakes w x }

variable {s} {k j t u : ℕ}

@[simp] lemma threads_setThread (x : RunThread) :
    (s.setThread t x).threads u = if u = t then x else s.threads u := update_apply _ _ _ _

@[simp] lemma threads_setState (x : ThreadState) :
    (s.setState t x).threads u = if u = t then { s.threads t with state := x } else s.threads u :=
  threads_setThread _

@[simp] lemma cpus_setCpu (x : RunCpu) : (s.setCpu k x).cpus j = if j = k then x else s.cpus j := update_apply _ _ _ _

@[simp] lemma cpus_goto (p : CpuPhase) :
    (s.goto k p).cpus j = if j = k then { s.cpus k with phase := p } else s.cpus j := cpus_setCpu _

@[simp] lemma threads_goto (p : CpuPhase) : (s.goto k p).threads = s.threads := rfl

end RunSched

/-! ## Queues -/

/-- Source: `runq_enqueue_locked` -/
def runqEnqueueLocked (fuel : ℕ) (s : RunSched) (k th : ℕ) : Option RunSched :=
  (Links.insertAfter (fun c => (s.threads th).priority ≤ (s.threads c).priority) th fuel none (s.links k)).map
    fun l => s.setLinks k l ((s.runqs k).count + 1)

/-- Source: `runq_dequeue_locked` -/
def runqDequeueLocked (s : RunSched) (k : ℕ) : Option ℕ × RunSched :=
  match (s.runqs k).head with
  | none => (none, s)
  | some th => (some th,
      s.setLinks k ⟨s.next th, update s.next th none⟩ ((s.runqs k).count - 1))

/-- Source: `runq_remove_locked` -/
def runqRemoveLocked (fuel : ℕ) (s : RunSched) (k th : ℕ) : Option RunSched :=
  (Links.remove th fuel none (s.links k)).map fun r =>
    s.setLinks k r.2 (if r.1 then (s.runqs k).count - 1 else (s.runqs k).count)

/-! ## `scheduler_yield` -/

/-- The priority a thread yields with. -/
def yieldPriority (x : RunThread) : ℕ :=
  if x.basePriority / 2 < x.schedPriority then x.schedPriority - 1 else x.schedPriority

/-- The old thread as it yields. -/
def lowered (x : RunThread) : RunThread :=
  { x with schedPriority := yieldPriority x, priority := yieldPriority x }

/-- The old thread is put back into the queue of its CPU, unless it waits or is halted. -/
def yieldOld (fuel : ℕ) (s : RunSched) (k old : ℕ) : Option RunSched :=
  let x := lowered (s.threads old)
  if x.state = .running then runqEnqueueLocked fuel (s.setThread old { x with state := .ready }) k old
  else some (s.setThread old x)

/-- The first thread of the queue is taken. -/
def yieldNew (s : RunSched) (k : ℕ) : RunSched :=
  match runqDequeueLocked s k with
  | (none, s₁) => s₁.goto k .stealing
  | (some th, s₁) => s₁.goto k (.chosen (some th))

/-- Source: `scheduler_yield`, under the lock -/
def yieldLocked (fuel : ℕ) (s : RunSched) (k : ℕ) : Option RunSched :=
  match (s.cpus k).current with
  | none => some (yieldNew s k)
  | some old => (yieldOld fuel s k old).map fun s₁ => yieldNew s₁ k

/-- Take the last thread of the queue of CPU `victim`, if it has more than one.
Source: `scheduler_steal_work`, under the lock -/
def stealFrom (fuel : ℕ) (s : RunSched) (k victim : ℕ) : Option RunSched :=
  match (s.runqs victim).head with
  | none => some (s.goto k (.chosen none))
  | some curr =>
      if 1 < (s.runqs victim).count then
        (Links.takeLast fuel none curr (s.links victim)).map fun r =>
          let s₁ := s.setLinks victim ⟨r.2.head, update r.2.next r.1 none⟩ ((s.runqs victim).count - 1)
          (s₁.setThread r.1 { s.threads r.1 with assignedCpu := k }).goto k (.chosen (some r.1))
      else some (s.goto k (.chosen none))

/-- Switch to the new thread; for a thread that is still on another CPU this waits.
Source: `scheduler_yield`, from `new_thread == old_thread` on -/
def dispatch (s : RunSched) (k : ℕ) (new : Option ℕ) : RunSched :=
  let old := (s.cpus k).current
  if new = old then
    (match new with
      | none => s
      | some t => s.setState t .running).goto k .running
  else
    let s₁ := match new with
      | none => s
      | some t => s.setThread t { s.threads t with
          state := .running, runningCpu := some k, assignedCpu := k }
    s₁.setCpu k { s.cpus k with current := new, phase := .switching old }

/-- Source: `context_switch`, where it resets `th_running_cpu` of the old thread -/
def switched (s : RunSched) (k : ℕ) (old : Option ℕ) : RunSched :=
  (match old with
    | none => s
    | some t => s.setThread t { s.threads t with runningCpu := none }).goto k .running

/-- The current thread sets its state and is about to yield.
Source: `wait_queue_sleep`, `thread_sleep_until` -/
def park (s : RunSched) (k t : ℕ) : RunSched := (s.setState t .waiting).goto k .parked

/-! ## `thread_wake` -/

/-- The compare-and-swap of `thread_wake`. -/
def wakeSwap (s : RunSched) (w t : ℕ) : RunSched :=
  if (s.threads t).state = .waiting then (s.setState t .ready).setWake w (.woken t) else s

/-- The queue a thread is woken to: that of its CPU, or of CPU `my` that wakes it. -/
def wakeTarget (s : RunSched) (my t : ℕ) : ℕ :=
  let cpu := (s.threads t).assignedCpu
  if s.totalCpus ≤ cpu ∨ (cpu ≠ 0 ∧ (s.cpus cpu).isActive = false) then my else cpu

/-- The new priority and the queue. -/
def wakeBoost (s : RunSched) (w my t : ℕ) : RunSched :=
  let x := s.threads t
  let boosted := min (x.basePriority + 16) 95
  (s.setThread t { x with
    schedPriority := boosted, priority := boosted, assignedCpu := wakeTarget s my t }).setWake w
      (.targeted t (wakeTarget s my t))

/-- The thread goes into the queue. -/
def wakeEnqueue (fuel : ℕ) (s : RunSched) (w t cpu : ℕ) : Option RunSched :=
  (runqEnqueueLocked fuel s cpu t).map fun s₁ => s₁.setWake w .idle

/-! ## `scheduler_add_thread` and `scheduler_remove_thread` -/

/-- A thread as it is added. -/
def added (x : RunThread) (cpu : ℕ) : RunThread :=
  let base := if x.basePriority = 0 then 32 else x.basePriority
  ⟨.ready, base, base, base, cpu, none⟩

/-- A thread is set up for the queue `cpu`.
Source: `scheduler_add_thread`, up to the lock -/
def addStart (s : RunSched) (a t cpu : ℕ) : RunSched :=
  { s.setThread t (added (s.threads t) cpu) with adds := update s.adds a (some (t, cpu)) }

/-- Source: `scheduler_add_thread`, under the lock -/
def addEnqueue (fuel : ℕ) (s : RunSched) (a t cpu : ℕ) : Option RunSched :=
  (runqEnqueueLocked fuel s cpu t).map fun s₁ => { s₁ with adds := update s₁.adds a none }

/-- Source: `scheduler_remove_thread`, up to the lock -/
def removeStart (s : RunSched) (r t : ℕ) : RunSched :=
  { s.setState t .halted with
    removals := update s.removals r (some (t, (s.threads t).assignedCpu)) }

/-- Source: `scheduler_remove_thread`, under the lock -/
def removeLocked (fuel : ℕ) (s : RunSched) (r t cpu : ℕ) : Option RunSched :=
  (if cpu < maxCpus then runqRemoveLocked fuel s cpu t else some s).map fun s₁ =>
    { s₁ with removals := update s₁.removals r none }

/-! ## Runs -/

/-- The steps. -/
inductive RunOp where
  | yield (k : ℕ)
  | steal (k victim : ℕ)
  /-- The scan of `scheduler_steal_work` has found no CPU. -/
  | noVictim (k : ℕ)
  | dispatch (k : ℕ)
  | switched (k : ℕ)
  | park (k : ℕ)
  | wakeSwap (w t : ℕ)
  | wakeBoost (w my : ℕ)
  | wakeEnqueue (w : ℕ)
  | addStart (a t cpu : ℕ)
  | addEnqueue (a : ℕ)
  | removeStart (r t : ℕ)
  | removeLocked (r : ℕ)
  deriving DecidableEq, Repr

/-- A thread is in the queue of a CPU. -/
def RunSched.inQueue (s : RunSched) (k t : ℕ) : Prop := ∃ L, (s.links k).IsList L ∧ t ∈ L

/-- One step. `scheduler_add_thread` is called for threads that are in no queue. -/
inductive RunStep (s : RunSched) : RunOp → RunSched → Prop
  | yield (fuel : ℕ) {k : ℕ} {s' : RunSched} (hk : k < maxCpus)
      (hphase : (s.cpus k).phase = .running ∨ (s.cpus k).phase = .parked)
      (h : yieldLocked fuel s k = some s') : RunStep s (.yield k) s'
  | steal (fuel : ℕ) {k victim : ℕ} {s' : RunSched} (hphase : (s.cpus k).phase = .stealing)
      (hvictim : victim ≠ k ∧ victim < s.totalCpus ∧ (s.cpus victim).isActive = true)
      (h : stealFrom fuel s k victim = some s') : RunStep s (.steal k victim) s'
  | noVictim {k : ℕ} (hphase : (s.cpus k).phase = .stealing) :
      RunStep s (.noVictim k) (s.goto k (.chosen none))
  | dispatch {k : ℕ} {new : Option ℕ} (hphase : (s.cpus k).phase = .chosen new)
      (hfree : ∀ t, new = some t → new ≠ (s.cpus k).current → (s.threads t).runningCpu = none) :
      RunStep s (.dispatch k) (dispatch s k new)
  | switched {k : ℕ} {old : Option ℕ} (hphase : (s.cpus k).phase = .switching old) :
      RunStep s (.switched k) (switched s k old)
  | park {k t : ℕ} (hphase : (s.cpus k).phase = .running) (ht : (s.cpus k).current = some t) :
      RunStep s (.park k) (park s k t)
  | wakeSwap {w t : ℕ} (hw : s.wakes w = .idle) : RunStep s (.wakeSwap w t) (wakeSwap s w t)
  | wakeBoost {w my t : ℕ} (hmy : my < maxCpus) (hw : s.wakes w = .woken t) :
      RunStep s (.wakeBoost w my) (wakeBoost s w my t)
  | wakeEnqueue (fuel : ℕ) {w t cpu : ℕ} {s' : RunSched} (hw : s.wakes w = .targeted t cpu)
      (h : wakeEnqueue fuel s w t cpu = some s') : RunStep s (.wakeEnqueue w) s'
  | addStart {a t cpu : ℕ} (ha : s.adds a = none) (hqueue : ∀ k, ¬ s.inQueue k t)
      (hcpu : cpu = 0 ∨ (cpu < s.totalCpus ∧ cpu < maxCpus ∧ (s.cpus cpu).isActive = true)) :
      RunStep s (.addStart a t cpu) (addStart s a t cpu)
  | addEnqueue (fuel : ℕ) {a t cpu : ℕ} {s' : RunSched} (ha : s.adds a = some (t, cpu))
      (h : addEnqueue fuel s a t cpu = some s') : RunStep s (.addEnqueue a) s'
  | removeStart {r t : ℕ} (hr : s.removals r = none) : RunStep s (.removeStart r t) (removeStart s r t)
  | removeLocked (fuel : ℕ) {r t cpu : ℕ} {s' : RunSched} (hr : s.removals r = some (t, cpu))
      (h : removeLocked fuel s r t cpu = some s') : RunStep s (.removeLocked r) s'

/-- Empty queues and no call under way; a CPU runs its idle thread or a thread that is on no other. -/
structure RunStart (s : RunSched) : Prop where
  runqs : ∀ k, s.runqs k = ⟨none, 0⟩
  next : ∀ t, s.next t = none
  wakes : ∀ w, s.wakes w = .idle
  adds : ∀ a, s.adds a = none
  removals : ∀ r, s.removals r = none
  phase : ∀ k, (s.cpus k).phase = .running
  current : ∀ k t, (s.cpus k).current = some t →
    (s.threads t).state = .running ∧ (s.threads t).runningCpu = some k ∧ (s.threads t).assignedCpu = k
  total : s.totalCpus ≤ maxCpus

end Chimera
