import Mathlib.Tactic

/-!
# Sleeping threads: `kernel/mach/wait_queue.c` and the sleep list of `scheduler.c`

A thread that waits is linked through its field `th_wait_next`: in a wait queue, or in the list of
threads that sleep until a deadline, or, for the length of a call, in the chain of threads which that
call is about to wake. All of them use the one field.

Conventions.
* Threads, queues and calls are named by numbers; a pointer is an `Option`.
* A section under a lock is one step. A call that wakes threads after it has let go of its lock is
  kept in `calls` until it is done, so that other steps come in between.
* A loop over a list that may be cyclic takes fuel and returns `none` without it.
* `th_wait_result` only ever is `CHIMERA_SUCCESS`; priorities and run queues do not concern the lists.
  Both are left out.
-/

namespace Chimera

/-- `thread_state_t`. -/
inductive ThreadState where
  | ready
  | stopped
  | waiting
  | halted
  | running
  deriving DecidableEq, Repr

/-- The fields of `chimera_thread_t` that sleeping uses. -/
structure Thread where
  /-- `th_state`. -/
  state : ThreadState
  /-- `th_wait_next`. -/
  waitNext : Option ℕ
  /-- `th_sleep_deadline`. -/
  sleepDeadline : ℕ
  deriving DecidableEq, Repr

/-- `wait_queue_t`. -/
structure WaitQueue where
  head : Option ℕ
  tail : Option ℕ
  deriving DecidableEq, Repr

/-- Which function a call that wakes threads is in. -/
inductive WakeCall where
  /-- `wait_queue_wakeup_one` or `wait_queue_wakeup_all`. -/
  | wakeup
  /-- `timer_wake_sleepers`. -/
  | timer
  deriving DecidableEq, Repr

/-- A call after its locked section: the thread it has unlinked and not yet woken, and the rest of
its chain. -/
structure Waker where
  call : WakeCall
  waking : Option ℕ
  rest : Option ℕ
  deriving DecidableEq, Repr

/-- The call is over, or there is none. -/
def Waker.idle (w : Waker) : Prop := w.waking = none ∧ w.rest = none

instance (w : Waker) : Decidable w.idle := inferInstanceAs (Decidable (_ ∧ _))

/-- Threads, wait queues, `s_sleep_list` and the calls that are waking threads. -/
structure Sched where
  threads : ℕ → Thread
  queues : ℕ → WaitQueue
  sleepList : Option ℕ
  calls : ℕ → Waker

namespace Sched

variable (s : Sched)

/-- The link of a thread. -/
def next (t : ℕ) : Option ℕ := (s.threads t).waitNext

def setThread (t : ℕ) (x : Thread) : Sched := { s with threads := Function.update s.threads t x }

def setNext (t : ℕ) (n : Option ℕ) : Sched := s.setThread t { s.threads t with waitNext := n }

def setState (t : ℕ) (x : ThreadState) : Sched := s.setThread t { s.threads t with state := x }

@[simps -fullyApplied threads calls sleepList]
def setQueue (q : ℕ) (x : WaitQueue) : Sched := { s with queues := Function.update s.queues q x }

@[simps -fullyApplied threads queues sleepList]
def setCall (c : ℕ) (x : Waker) : Sched := { s with calls := Function.update s.calls c x }

variable {s} {t u q q' c c' : ℕ}

lemma threads_setThread (x : Thread) :
    (s.setThread t x).threads u = if u = t then x else s.threads u := Function.update_apply _ _ _ _

@[simp] lemma next_setNext (n : Option ℕ) : (s.setNext t n).next u = if u = t then n else s.next u := by
  rw [next, setNext, threads_setThread]
  split_ifs <;> rfl

@[simp] lemma state_setNext (n : Option ℕ) : ((s.setNext t n).threads u).state = (s.threads u).state := by
  rw [setNext, threads_setThread]
  split_ifs with h
  · rw [h]
  · rfl

@[simp] lemma next_setState (x : ThreadState) : (s.setState t x).next u = s.next u := by
  rw [next, setState, threads_setThread]
  split_ifs with h
  · rw [h]
    rfl
  · rfl

@[simp] lemma state_setState (x : ThreadState) :
    ((s.setState t x).threads u).state = if u = t then x else (s.threads u).state := by
  rw [setState, threads_setThread]
  split_ifs <;> rfl

@[simp] lemma queues_setQueue (x : WaitQueue) :
    (s.setQueue q x).queues q' = if q' = q then x else s.queues q' := Function.update_apply _ _ _ _

@[simp] lemma calls_setCall (x : Waker) :
    (s.setCall c x).calls c' = if c' = c then x else s.calls c' := Function.update_apply _ _ _ _

@[simp] lemma next_setQueue (x : WaitQueue) : (s.setQueue q x).next t = s.next t := rfl
@[simp] lemma next_setCall (x : Waker) : (s.setCall c x).next t = s.next t := rfl

end Sched

/-! ## Waking -/

/-- Source: `thread_wake` -/
def threadWake (s : Sched) (t : ℕ) : Sched :=
  if (s.threads t).state = .waiting then s.setState t .ready else s

/-- Take the first thread off a queue; the call `c` then has to wake it.
Source: `wait_queue_wakeup_one`, under the lock -/
def waitQueueWakeupOne (s : Sched) (c q : ℕ) : Sched :=
  match (s.queues q).head with
  | none => s
  | some th =>
      let head := s.next th
      let s₁ := s.setQueue q ⟨head, if head = none then none else (s.queues q).tail⟩
      (s₁.setNext th none).setCall c ⟨.wakeup, some th, none⟩

/-- Take all threads off a queue; the call `c` then has to wake them.
Source: `wait_queue_wakeup_all`, under the lock -/
def waitQueueWakeupAll (s : Sched) (c q : ℕ) : Sched :=
  (s.setQueue q ⟨none, none⟩).setCall c ⟨.wakeup, none, (s.queues q).head⟩

/-- The first half of a round of the loops that wake a chain: `next = list->th_wait_next;
list->th_wait_next = nullptr`. -/
def unlinkNext (s : Sched) (c : ℕ) : Sched :=
  match (s.calls c).waking, (s.calls c).rest with
  | none, some th => (s.setNext th none).setCall c { s.calls c with waking := some th, rest := s.next th }
  | _, _ => s

/-- The second half: `thread_wake(list)`. -/
def wakeUnlinked (s : Sched) (c : ℕ) : Sched :=
  match (s.calls c).waking with
  | none => s
  | some th => (threadWake s th).setCall c { s.calls c with waking := none }

/-! ## Sleeping -/

/-- Put the running thread at the end of a queue.
Source: `wait_queue_sleep`, `wait_queue_sleep_irqrestore`, under the lock -/
def waitQueueSleep (s : Sched) (q t : ℕ) : Sched :=
  let s₁ := s.setThread t { s.threads t with state := .waiting, waitNext := none }
  match (s.queues q).tail with
  | some u => (s₁.setNext u (some t)).setQueue q ⟨(s.queues q).head, some t⟩
  | none => s₁.setQueue q ⟨some t, some t⟩

/-- `*pp`, where `pp` is the address of `s_sleep_list` (`none`) or of the link of a thread. -/
def Sched.getLink (s : Sched) : Option ℕ → Option ℕ
  | none => s.sleepList
  | some u => s.next u

/-- `*pp = n`. -/
def Sched.setLink (s : Sched) (pp n : Option ℕ) : Sched :=
  match pp with
  | none => { s with sleepList := n }
  | some u => s.setNext u n

/-- Source: `sleep_list_remove`, from the link `pp` on -/
def sleepListRemove (th : ℕ) : ℕ → Option ℕ → Sched → Option Sched
  | 0, _, _ => none
  | n + 1, pp, s =>
      match s.getLink pp with
      | none => some s
      | some c =>
          if c = th then some ((s.setLink pp (s.next th)).setNext th none)
          else sleepListRemove th n (some c) s

/-- Source: `thread_sleep_list_add` -/
def threadSleepListAdd (fuel : ℕ) (s : Sched) (th deadlineMs : ℕ) : Option Sched :=
  (sleepListRemove th fuel none s).map fun s₁ =>
    { s₁.setThread th { s₁.threads th with sleepDeadline := deadlineMs, waitNext := s₁.sleepList } with
      sleepList := some th }

/-- Source: `thread_sleep_until` -/
def threadSleepUntil (fuel : ℕ) (s : Sched) (th deadlineMs : ℕ) : Option Sched :=
  (threadSleepListAdd fuel s th deadlineMs).map fun s₁ => s₁.setState th .waiting

/-- Put the running thread at the end of a queue and on the sleep list.
Source: `wait_queue_sleep_until_irqrestore` -/
def waitQueueSleepUntilIrqrestore (fuel : ℕ) (s : Sched) (q t deadlineMs : ℕ) : Option Sched :=
  threadSleepListAdd fuel (waitQueueSleep s q t) t deadlineMs

/-- `(i64)(deadline - now) <= 0`. -/
def deadlinePassed (deadline now : ℕ) : Bool :=
  let d := (deadline + (2 ^ 64 - now % 2 ^ 64)) % 2 ^ 64
  d = 0 ∨ 2 ^ 63 ≤ d

/-- The loop of `timer_wake_sleepers` under the lock: move the threads whose deadline has passed to
the chain `expired`. -/
def timerScan (now : ℕ) : ℕ → Option ℕ → Option ℕ → Sched → Option (Option ℕ × Sched)
  | 0, _, _, _ => none
  | n + 1, pp, expired, s =>
      match s.getLink pp with
      | none => some (expired, s)
      | some th =>
          if deadlinePassed (s.threads th).sleepDeadline now then
            timerScan now n pp (some th) ((s.setLink pp (s.next th)).setNext th expired)
          else timerScan now n (some th) expired s

/-- Take the expired threads off the sleep list; the call `c` then has to wake them.
Source: `timer_wake_sleepers`, under the lock -/
def timerWakeSleepers (fuel : ℕ) (s : Sched) (c now : ℕ) : Option Sched :=
  (timerScan now fuel none none s).map fun r => r.2.setCall c ⟨.timer, none, r.1⟩

end Chimera
