import Chimera.Lib.SList
import Chimera.Sched.Model

/-!
# Integrity of the wait queues

A thread is asleep on a queue from the time it puts itself there until it is woken. What a wait queue
owes its callers is that its list holds such threads only. The invariant `WqInv` gives every thread
that is asleep on a queue one place at most, in the list of its queue or in the chain of a call that
is about to wake it, and says that nothing else refers to such a thread: the sleep list, the links of
other threads and the chains of the timer stay among themselves.

Three things break it, because the sleep list uses the same link and because a wake-up does not
unlink. `wait_queue_sleep_until_irqrestore` puts its thread on both lists; a direct `thread_wake`
reaches a thread that is linked in a queue; and a thread that was woken early is still on the sleep
list when it goes to sleep on a queue. The result is for runs without them (`SchedOp.careful`), and
`timedSleep_breaks_queue` is a run with the first.
-/

namespace Chimera

open Lib
open Function (update update_self update_of_ne update_apply update_eq_self)

/-! ## Runs -/

/-- The steps of a run. -/
inductive SchedOp where
  /-- `wait_queue_sleep` or `wait_queue_sleep_irqrestore`, by thread `t`. -/
  | sleep (q t : ℕ)
  /-- `wait_queue_sleep_until_irqrestore`, by thread `t`. -/
  | sleepUntil (q t deadline : ℕ)
  /-- `thread_sleep_until`, by thread `t`. -/
  | threadSleep (t deadline : ℕ)
  /-- The locked part of `wait_queue_wakeup_one`, as call `c`. -/
  | wakeupOne (c q : ℕ)
  /-- The locked part of `wait_queue_wakeup_all`, as call `c`. -/
  | wakeupAll (c q : ℕ)
  /-- The locked part of `timer_wake_sleepers`, as call `c`. -/
  | timer (c now : ℕ)
  /-- Call `c` unlinks the next thread of its chain. -/
  | unlink (c : ℕ)
  /-- Call `c` wakes the thread it has unlinked. -/
  | wakeNext (c : ℕ)
  /-- A direct `thread_wake`. -/
  | wake (t : ℕ)
  /-- A CPU picks up a thread. -/
  | dispatch (t : ℕ)
  deriving DecidableEq, Repr

/-- The queues threads are asleep on, after a thread has been woken. -/
def wokenOn (s : Sched) (on : ℕ → Option ℕ) (t : ℕ) : ℕ → Option ℕ :=
  if (s.threads t).state = .waiting then update on t none else on

/-- One step, on the state and on the record of which queue each thread is asleep on: the one it went
to sleep on, until it is woken. -/
inductive SchedStep (s : Sched) (on : ℕ → Option ℕ) : SchedOp → Sched → (ℕ → Option ℕ) → Prop
  | sleep {q t : ℕ} (ht : (s.threads t).state = .running) :
      SchedStep s on (.sleep q t) (waitQueueSleep s q t) (update on t (some q))
  | sleepUntil {q t d fuel : ℕ} {s' : Sched} (ht : (s.threads t).state = .running)
      (hs : waitQueueSleepUntilIrqrestore fuel s q t d = some s') :
      SchedStep s on (.sleepUntil q t d) s' (update on t (some q))
  | threadSleep {t d fuel : ℕ} {s' : Sched} (ht : (s.threads t).state = .running)
      (hs : threadSleepUntil fuel s t d = some s') : SchedStep s on (.threadSleep t d) s' on
  | wakeupOne {c q : ℕ} (hc : (s.calls c).idle) :
      SchedStep s on (.wakeupOne c q) (waitQueueWakeupOne s c q) on
  | wakeupAll {c q : ℕ} (hc : (s.calls c).idle) :
      SchedStep s on (.wakeupAll c q) (waitQueueWakeupAll s c q) on
  | timer {c now fuel : ℕ} {s' : Sched} (hc : (s.calls c).idle)
      (hs : timerWakeSleepers fuel s c now = some s') : SchedStep s on (.timer c now) s' on
  | unlink {c : ℕ} : SchedStep s on (.unlink c) (unlinkNext s c) on
  | wakeNext {c : ℕ} : SchedStep s on (.wakeNext c) (wakeUnlinked s c)
      ((s.calls c).waking.elim on (wokenOn s on))
  | wake {t : ℕ} : SchedStep s on (.wake t) (threadWake s t) (wokenOn s on t)
  | dispatch {t : ℕ} (ht : (s.threads t).state = .ready) :
      SchedStep s on (.dispatch t) (s.setState t .running) on

/-- Something refers to a thread: the sleep list, the link of a thread, or a call. -/
def Sched.refersTo (s : Sched) (t : ℕ) : Prop :=
  s.sleepList = some t ∨ (∃ u, s.next u = some t) ∨ ∃ c, (s.calls c).waking = some t ∨ (s.calls c).rest = some t

/-- A step that leaves the wait queues alone: no timed sleep on a queue, no direct wake-up of a thread
that is asleep on a queue, and nothing refers to a thread that goes to sleep on a queue. -/
def SchedOp.careful (s : Sched) (on : ℕ → Option ℕ) : SchedOp → Prop
  | .sleep _ t => ¬ s.refersTo t
  | .sleepUntil _ _ _ => False
  | .wake t => on t = none
  | _ => True

/-- Runs from `s₀` each of whose steps satisfies `C` in the state it is taken in; at the start no
thread is asleep on a queue. -/
inductive SchedRun (C : Sched → (ℕ → Option ℕ) → SchedOp → Prop) (s₀ : Sched) :
    Sched → (ℕ → Option ℕ) → Prop
  | start : SchedRun C s₀ s₀ fun _ => none
  | step {s s' : Sched} {on on' : ℕ → Option ℕ} (op : SchedOp) (hrun : SchedRun C s₀ s on)
      (hC : C s on op) (hstep : SchedStep s on op s' on') : SchedRun C s₀ s' on'

/-- Empty queues, and no call under way. -/
structure QuietStart (s : Sched) : Prop where
  queues : ∀ q, s.queues q = ⟨none, none⟩
  calls : ∀ c, (s.calls c).idle

/-- **What a wait queue promises**: its list ends, at `tail`, and holds only threads that are asleep on
this queue; no thread is in two queues. -/
structure QueuesOk (s : Sched) (on : ℕ → Option ℕ) : Prop where
  list : ∀ q, ∃ L, Chain s.next (s.queues q).head L ∧ L.Nodup ∧ (s.queues q).tail = L.getLast? ∧
    ∀ t ∈ L, on t = some q
  apart : ∀ q q' L L', Chain s.next (s.queues q).head L → Chain s.next (s.queues q').head L' → q ≠ q' →
    L.Disjoint L'

/-! ## The invariant -/

/-- Where a thread that is asleep on a queue is linked. -/
inductive Place where
  | queue (q : ℕ)
  | call (c : ℕ)
  deriving DecidableEq, Repr

/-- The threads a call is about to wake are `C`, those of a timer apart, which are asleep on no
queue. -/
def HeldBy (s : Sched) (on : ℕ → Option ℕ) (w : Waker) (C : List ℕ) : Prop :=
  match w.call with
  | .wakeup => ∃ D, C = w.waking.toList ++ D ∧ Chain s.next w.rest D ∧ ∀ t ∈ w.waking, s.next t = none
  | .timer => C = [] ∧ (∀ t ∈ w.waking, on t = none) ∧ ∀ t ∈ w.rest, on t = none

/-- **The invariant of the wait queues**, with the threads at each place. -/
structure WqInv (s : Sched) (on : ℕ → Option ℕ) (A : Place → List ℕ) : Prop where
  queue : ∀ q, Chain s.next (s.queues q).head (A (.queue q)) ∧
    (s.queues q).tail = (A (.queue q)).getLast?
  queue_on : ∀ q, ∀ t ∈ A (.queue q), on t = some q
  call : ∀ c, HeldBy s on (s.calls c) (A (.call c))
  call_on : ∀ c, ∀ t ∈ A (.call c), on t ≠ none
  nodup : ∀ p, (A p).Nodup
  excl : ∀ {t p p'}, t ∈ A p → t ∈ A p' → p = p'
  waiting : ∀ t, on t ≠ none → (s.threads t).state = .waiting
  closed : ∀ u v, on u = none → s.next u = some v → on v = none
  sleep : ∀ v, s.sleepList = some v → on v = none

section steps

variable {s s' : Sched} {on : ℕ → Option ℕ} {A : Place → List ℕ} {t th fuel now c : ℕ}

lemma WqInv.on_of_mem (i : WqInv s on A) {p : Place} (ht : t ∈ A p) : on t ≠ none := by
  cases p with
  | queue q => simp [i.queue_on q t ht]
  | call c => exact i.call_on c t ht

/-- A thread that is not asleep on a queue is at no place. -/
lemma WqInv.notMem (i : WqInv s on A) (ht : on t = none) (p : Place) : t ∉ A p := fun h => i.on_of_mem h ht

/-- Only threads that are asleep on no queue have changed, and they stay among themselves. -/
structure Aside (s s' : Sched) (on : ℕ → Option ℕ) : Prop where
  queues : s'.queues = s.queues
  calls : s'.calls = s.calls
  threads : ∀ t, on t ≠ none → s'.threads t = s.threads t
  closed : ∀ u v, on u = none → s'.next u = some v → on v = none
  sleep : ∀ v, s'.sleepList = some v → on v = none

variable {w : Waker} {C : List ℕ} {n pp : Option ℕ}

lemma HeldBy.congr (h : HeldBy s on w C) {on' : ℕ → Option ℕ} (hn : ∀ t ∈ C, s'.next t = s.next t)
    (hon : ∀ t, (t ∈ w.waking ∨ t ∈ w.rest) → on t = none → on' t = none) : HeldBy s' on' w C := by
  unfold HeldBy at h ⊢
  cases hcall : w.call with
  | wakeup =>
    rw [hcall] at h
    obtain ⟨D, hC, hD, hw⟩ := h
    refine ⟨D, hC, hD.congr fun x hx => hn x ?_, fun t ht => ?_⟩
    · rw [hC]
      exact List.mem_append_right _ hx
    · rw [hn t, hw t ht]
      rw [hC]
      exact List.mem_append_left _ (Option.mem_toList.mpr ht)
  | timer =>
    rw [hcall] at h
    obtain ⟨hC, hw, hr⟩ := h
    exact ⟨hC, fun t ht => hon t (.inl ht) (hw t ht), fun t ht => hon t (.inr ht) (hr t ht)⟩

/-- **Frame.** What happens among the other threads does not matter. -/
lemma WqInv.aside (i : WqInv s on A) (a : Aside s s' on) : WqInv s' on A := by
  have hn : ∀ p, ∀ t ∈ A p, s'.next t = s.next t := fun p t ht => by
    rw [Sched.next, Sched.next, a.threads t (i.on_of_mem ht)]
  refine ⟨fun q => ?_, i.queue_on, fun c => ?_, i.call_on, i.nodup, i.excl, fun t ht => ?_, a.closed, a.sleep⟩
  · rw [a.queues]
    exact ⟨(i.queue q).1.congr (hn _), (i.queue q).2⟩
  · rw [a.calls]
    exact (i.call c).congr (hn _) fun _ _ h => h
  · rw [a.threads t ht]
    exact i.waiting t ht

/-! ## The sleep list and the timer -/

lemma WqInv.refl (i : WqInv s on A) : Aside s s on := ⟨rfl, rfl, fun _ _ => rfl, i.closed, i.sleep⟩

section

variable (a : Aside s s' on)
include a

/-- A thread that is asleep on no queue may change, its link among its like. -/
lemma Aside.setThread (ht : on t = none) {x : Thread}
    (hx : ∀ v, x.waitNext = some v → on v = none) : Aside s (s'.setThread t x) on := by
  refine ⟨a.queues, a.calls, fun u hu => ?_, fun u v hu hv => ?_, a.sleep⟩
  · rw [Sched.threads_setThread, if_neg, a.threads u hu]
    rintro rfl
    exact hu ht
  · rw [Sched.next, Sched.threads_setThread] at hv
    split_ifs at hv
    · exact hx v hv
    · exact a.closed u v hu hv

lemma Aside.setNext (ht : on t = none) (hn : ∀ v, n = some v → on v = none)
    : Aside s (s'.setNext t n) on :=
  a.setThread ht hn

lemma Aside.setState (ht : on t = none) (x : ThreadState) : Aside s (s'.setState t x) on :=
  a.setThread ht fun v hv => a.closed t v ht hv

lemma Aside.setSleepList (hn : ∀ v, n = some v → on v = none) :
    Aside s { s' with sleepList := n } on :=
  ⟨a.queues, a.calls, a.threads, a.closed, hn⟩

/-- A link of the sleep list leads to a thread that is asleep on no queue. -/
lemma Aside.getLink (hpp : ∀ u, pp = some u → on u = none) {v : ℕ}
    (hv : s'.getLink pp = some v) : on v = none := by
  cases pp with
  | none => exact a.sleep v hv
  | some u => exact a.closed u v (hpp u rfl) hv

lemma Aside.setLink (hpp : ∀ u, pp = some u → on u = none)
    (hn : ∀ v, n = some v → on v = none) : Aside s (s'.setLink pp n) on := by
  cases pp with
  | none => exact a.setSleepList hn
  | some u => exact a.setNext (hpp u rfl) hn

end

lemma sleepListRemove_aside {n : ℕ} {t t' : Sched} (a : Aside s t on) (hth : on th = none)
    (hpp : ∀ u, pp = some u → on u = none) (h : sleepListRemove th n pp t = some t') : Aside s t' on := by
  induction n generalizing pp with
  | zero => cases h
  | succ n ih =>
    rw [sleepListRemove] at h
    cases hlink : t.getLink pp with
    | none =>
      rw [hlink] at h
      cases h
      exact a
    | some c =>
      rw [hlink] at h
      dsimp only at h
      split_ifs at h with hc
      · cases h
        exact (a.setLink hpp fun v hv => a.closed th v hth hv).setNext hth fun v hv => by cases hv
      · refine ih (fun u hu => ?_) h
        rw [← Option.some.inj hu]
        exact a.getLink hpp hlink

lemma threadSleepUntil_aside (i : WqInv s on A) {d : ℕ} (hth : on th = none)
    (h : threadSleepUntil fuel s th d = some s') : Aside s s' on := by
  obtain ⟨s2, h2, rfl⟩ := Option.map_eq_some_iff.mp h
  obtain ⟨s1, h1, rfl⟩ := Option.map_eq_some_iff.mp h2
  have a := sleepListRemove_aside i.refl hth (fun u hu => by cases hu) h1
  apply Aside.setState _ hth
  apply (a.setThread hth a.sleep).setSleepList
  intro v hv
  rwa [← Option.some.inj hv]

/-- The loop of the timer stays aside, and so does the chain it collects. -/
lemma timerScan_aside {n : ℕ} {expired : Option ℕ} {t : Sched} (a : Aside s t on)
    (hpp : ∀ u, pp = some u → on u = none) (hex : ∀ u, expired = some u → on u = none) {r : Option ℕ × Sched}
    (h : timerScan now n pp expired t = some r) :
    Aside s r.2 on ∧ ∀ u, r.1 = some u → on u = none := by
  induction n generalizing pp expired t with
  | zero => cases h
  | succ n ih =>
    rw [timerScan] at h
    cases hlink : t.getLink pp with
    | none =>
      rw [hlink] at h
      cases h
      exact ⟨a, hex⟩
    | some th =>
      have hth := a.getLink hpp hlink
      have hone : ∀ u, some th = some u → on u = none := by
        intro u hu
        rwa [← Option.some.inj hu]
      rw [hlink] at h
      dsimp only at h
      split_ifs at h with hd
      · exact ih ((a.setLink hpp fun v hv => a.closed th v hth hv).setNext hth hex) hpp hone h
      · exact ih a hone hex h

/-- An idle call holds no thread. -/
lemma HeldBy.eq_nil (h : HeldBy s on w C) (hw : w.idle) : C = [] := by
  unfold HeldBy at h
  cases hcall : w.call with
  | wakeup =>
    rw [hcall] at h
    obtain ⟨D, hC, hD, -⟩ := h
    rw [hw.1] at hC
    rw [hw.2] at hD
    rw [hC, hD.unique (chain_nil.mpr rfl)]
    rfl
  | timer =>
    rw [hcall] at h
    exact h.1

/-- The chain of a timer stays aside. -/
lemma WqInv.setTimer (i : WqInv s on A) {w r : Option ℕ} (hc : A (.call c) = [])
    (hw : ∀ t, w = some t → on t = none) (hr : ∀ t, r = some t → on t = none) :
    WqInv (s.setCall c ⟨.timer, w, r⟩) on A := by
  refine ⟨i.queue, i.queue_on, fun c' => ?_, i.call_on, i.nodup, i.excl, i.waiting, i.closed, i.sleep⟩
  rw [Sched.calls_setCall]
  split_ifs with hcc
  · rw [hcc, hc]
    exact ⟨rfl, hw, hr⟩
  · exact i.call c'

lemma WqInv.timer (i : WqInv s on A) (hc : (s.calls c).idle)
    (h : timerWakeSleepers fuel s c now = some s') : WqInv s' on A := by
  obtain ⟨r, hr, rfl⟩ := Option.map_eq_some_iff.mp h
  obtain ⟨a, hex⟩ := timerScan_aside i.refl (fun u hu => by cases hu) (fun u hu => by cases hu) hr
  exact (i.aside a).setTimer ((i.call c).eq_nil hc) (fun t ht => by cases ht) hex

lemma threadWake_aside (i : WqInv s on A) (ht : on t = none) : Aside s (threadWake s t) on := by
  rw [threadWake]
  split_ifs
  · exact i.refl.setState ht _
  · exact i.refl

lemma wokenOn_of_none (ht : on t = none) : wokenOn s on t = on := by
  rw [wokenOn]
  split_ifs
  · rw [← ht, update_eq_self]
  · rfl

/-! ## Sleeping on a queue -/

section sleep

variable {q q' u : ℕ}

lemma waitQueueSleep_calls : (waitQueueSleep s q t).calls = s.calls := by
  unfold waitQueueSleep
  cases (s.queues q).tail <;> rfl

lemma waitQueueSleep_sleepList : (waitQueueSleep s q t).sleepList = s.sleepList := by
  unfold waitQueueSleep
  cases (s.queues q).tail <;> rfl

lemma waitQueueSleep_queues (hq : q' ≠ q) : (waitQueueSleep s q t).queues q' = s.queues q' := by
  unfold waitQueueSleep
  cases (s.queues q).tail <;> exact update_of_ne hq _ _

/-- Only the thread itself and the last one of the queue have their links set. -/
lemma waitQueueSleep_next (hu : u ≠ t) (htail : (s.queues q).tail ≠ some u) :
    (waitQueueSleep s q t).next u = s.next u := by
  unfold waitQueueSleep
  cases h : (s.queues q).tail with
  | none => simp [Sched.next, Sched.threads_setThread, hu]
  | some y =>
    have huy : u ≠ y := fun e => htail (e ▸ h)
    rw [Sched.next_setQueue, Sched.next_setNext, if_neg huy, Sched.next, Sched.threads_setThread, if_neg hu]
    rfl

lemma waitQueueSleep_state_of_ne (hu : u ≠ t) : ((waitQueueSleep s q t).threads u).state = (s.threads u).state := by
  unfold waitQueueSleep
  cases (s.queues q).tail <;> simp [Sched.threads_setThread, hu]

lemma waitQueueSleep_state_self : ((waitQueueSleep s q t).threads t).state = .waiting := by
  unfold waitQueueSleep
  cases (s.queues q).tail <;> simp [Sched.threads_setThread]

/-- The thread joins at the end of the list. -/
lemma waitQueueSleep_chain {L : List ℕ} (hL : Chain s.next (s.queues q).head L)
    (htail : (s.queues q).tail = L.getLast?) (ht : t ∉ L) :
    Chain (waitQueueSleep s q t).next ((waitQueueSleep s q t).queues q).head (L ++ [t]) ∧
      ((waitQueueSleep s q t).queues q).tail = some t := by
  obtain rfl | ⟨a, y, rfl⟩ := List.eq_nil_or_concat' L
  · unfold waitQueueSleep
    rw [htail]
    simp [chain_cons, chain_nil, Sched.next, Sched.threads_setThread]
  · have hy : (s.queues q).tail = some y := by simpa using htail
    have hyt : t ≠ y := fun e => ht (by simp [e])
    have hnd := hL.nodup
    have hnext : ∀ u, (waitQueueSleep s q t).next u =
        if u = y then some t else if u = t then none else s.next u := by
      intro u
      unfold waitQueueSleep
      rw [hy]
      simp only [Sched.next_setQueue, Sched.next_setNext]
      split_ifs <;> simp_all [Sched.next, Sched.threads_setThread]
    have hhead : (waitQueueSleep s q t).queues q = ⟨(s.queues q).head, some t⟩ := by
      unfold waitQueueSleep
      rw [hy]
      exact update_self _ _ _
    rw [hhead]
    refine ⟨hL.concat (fun z hz => ?_) ?_ ?_, rfl⟩
    · have hzy : z ≠ y := by
        rintro rfl
        exact List.disjoint_of_nodup_append hnd hz (List.mem_singleton_self z)
      have hzt : z ≠ t := fun e => ht (by simp [← e, hz])
      rw [hnext, if_neg hzy, if_neg hzt]
    · rw [hnext, if_pos rfl]
    · rw [hnext, if_neg hyt, if_pos rfl]

/-- **A thread goes to sleep on a queue.** -/
lemma WqInv.sleepOn (i : WqInv s on A) (ht : on t = none) (href : ¬ s.refersTo t) :
    WqInv (waitQueueSleep s q t) (update on t (some q))
      (update A (.queue q) (A (.queue q) ++ [t])) := by
  have hne : ∀ {p u}, u ∈ A p → u ≠ t := fun hu e => i.notMem ht _ (e ▸ hu)
  have hmem : ∀ {p u}, u ∈ update A (.queue q) (A (.queue q) ++ [t]) p → u ∈ A p ∨ (u = t ∧ p = .queue q) := by
    intro p u hu
    rw [update_apply] at hu
    split_ifs at hu with hp
    · rcases List.mem_append.mp hu with hu | hu
      · exact .inl (hp ▸ hu)
      · exact .inr ⟨List.mem_singleton.mp hu, hp⟩
    · exact .inl hu
  have htail : ∀ {p u}, u ∈ A p → p ≠ .queue q → (s.queues q).tail ≠ some u := by
    intro p u hu hp h
    rw [(i.queue q).2] at h
    exact hp (i.excl hu (List.mem_of_getLast? h))
  have hnext : ∀ {p u}, u ∈ A p → p ≠ .queue q → (waitQueueSleep s q t).next u = s.next u :=
    fun hu hp => waitQueueSleep_next (hne hu) (htail hu hp)
  refine ⟨fun q' => ?_, fun q' u hu => ?_, fun c => ?_, fun c u hu => ?_, fun p => ?_, ?_, fun u hu => ?_,
    fun u v hu hv => ?_, fun v hv => ?_⟩
  · by_cases hq : q' = q
    · obtain ⟨hchain, hlast⟩ := waitQueueSleep_chain (i.queue q).1 (i.queue q).2 (i.notMem ht _)
      rw [hq, update_self, hlast, List.getLast?_concat]
      exact ⟨hchain, rfl⟩
    · have hp : Place.queue q' ≠ .queue q := fun e => hq (Place.queue.inj e)
      rw [update_of_ne hp, waitQueueSleep_queues hq]
      exact ⟨(i.queue q').1.congr fun u hu => hnext hu hp, (i.queue q').2⟩
  · rcases hmem hu with hu | ⟨rfl, hp⟩
    · rw [update_of_ne (hne hu)]
      exact i.queue_on q' u hu
    · rw [update_self, Place.queue.inj hp]
  · rw [waitQueueSleep_calls, update_of_ne (by simp)]
    refine (i.call c).congr (fun u hu => hnext hu (by simp)) fun u hu h => ?_
    rw [update_of_ne, h]
    rintro rfl
    exact href (.inr (.inr ⟨c, hu⟩))
  · rcases hmem hu with hu | ⟨-, hp⟩
    · rw [update_of_ne (hne hu)]
      exact i.call_on c u hu
    · cases hp
  · rw [update_apply]
    split_ifs
    · refine List.nodup_append'.mpr ⟨i.nodup _, List.nodup_singleton t, fun u hu hu' => ?_⟩
      exact hne hu (List.mem_singleton.mp hu')
    · exact i.nodup p
  · intro u p p' hu hu'
    rcases hmem hu with h | ⟨h, hp⟩ <;> rcases hmem hu' with h' | ⟨h', hp'⟩
    · exact i.excl h h'
    · exact absurd h' (hne h)
    · exact absurd h (hne h')
    · rw [hp, hp']
  · by_cases hut : u = t
    · rw [hut, waitQueueSleep_state_self]
    · rw [update_of_ne hut] at hu
      rw [waitQueueSleep_state_of_ne hut, i.waiting u hu]
  · have hut : u ≠ t := by
      rintro rfl
      simp at hu
    rw [update_of_ne hut] at hu
    rw [waitQueueSleep_next hut] at hv
    · rw [update_of_ne, i.closed u v hu hv]
      rintro rfl
      exact href (.inr (.inl ⟨u, hv⟩))
    · intro h
      rw [(i.queue q).2] at h
      exact i.notMem hu _ (List.mem_of_getLast? h)
  · rw [waitQueueSleep_sleepList] at hv
    rw [update_of_ne, i.sleep v hv]
    rintro rfl
    exact href (.inl hv)

end sleep

/-! ## Waking a queue -/

/-- The threads `M` have moved from queue `q` to call `c`, the threads `R` have stayed. -/
def takenBy (A : Place → List ℕ) (q c : ℕ) (M R : List ℕ) : Place → List ℕ :=
  update (update A (.queue q) R) (.call c) M

section take

variable {q : ℕ} {M R : List ℕ}

lemma takenBy_call : takenBy A q c M R (.call c) = M := update_self _ _ _

lemma takenBy_queue : takenBy A q c M R (.queue q) = R := by rw [takenBy, update_of_ne (by simp), update_self]

variable {p : Place}

lemma takenBy_of_ne (hq : p ≠ .queue q) (hc : p ≠ .call c) : takenBy A q c M R p = A p := by
  rw [takenBy, update_of_ne hc, update_of_ne hq]

/-- Where the threads of a place were before. -/
lemma mem_takenBy (hA : A (.queue q) = M ++ R) {u : ℕ} (hu : u ∈ takenBy A q c M R p) :
    (p = .call c ∧ u ∈ M ∧ u ∈ A (.queue q)) ∨ (p ≠ .call c ∧ u ∈ A p ∧ (p = .queue q → u ∈ R)) := by
  by_cases hc : p = .call c
  · subst hc
    rw [takenBy_call] at hu
    exact .inl ⟨rfl, hu, hA ▸ List.mem_append_left _ hu⟩
  · by_cases hq : p = .queue q
    · subst hq
      rw [takenBy_queue] at hu
      exact .inr ⟨hc, hA ▸ List.mem_append_right _ hu, fun _ => hu⟩
    · rw [takenBy_of_ne hq hc] at hu
      exact .inr ⟨hc, hu, fun h => absurd h hq⟩

/-- **The first threads of a queue go over to a call.** -/
lemma WqInv.take (i : WqInv s on A) {hd tl : Option ℕ} {w : Waker} (hA : A (.queue q) = M ++ R)
    (hqueues : s'.queues = update s.queues q ⟨hd, tl⟩) (hR : Chain s.next hd R)
    (htl : tl = R.getLast?) (hcalls : s'.calls = update s.calls c w) (hw : HeldBy s' on w M)
    (hnext : ∀ u ∉ M, s'.next u = s.next u)
    (hstate : ∀ u, (s'.threads u).state = (s.threads u).state) (hsleep : s'.sleepList = s.sleepList) :
    WqInv s' on (takenBy A q c M R) := by
  have hnd : (M ++ R).Nodup := hA ▸ i.nodup _
  have hMA : ∀ {u}, u ∈ M → u ∈ A (.queue q) := fun hu => hA ▸ List.mem_append_left _ hu
  have hMR : ∀ {u}, u ∈ R → u ∉ M := fun hu hM => List.disjoint_of_nodup_append hnd hM hu
  have hother : ∀ {p u}, u ∈ A p → p ≠ .queue q → s'.next u = s.next u :=
    fun hu hp => hnext _ fun hM => hp (i.excl hu (hMA hM))
  refine ⟨fun q' => ?_, fun q' u hu => ?_, fun c' => ?_, fun c' u hu => ?_, fun p => ?_, ?_, fun u hu => ?_,
    fun u v hu hv => ?_, hsleep ▸ i.sleep⟩
  · rw [hqueues]
    by_cases hq : q' = q
    · rw [hq, takenBy_queue, update_self]
      exact ⟨hR.congr fun u hu => hnext u (hMR hu), htl⟩
    · have hp : Place.queue q' ≠ .queue q := fun e => hq (Place.queue.inj e)
      rw [takenBy_of_ne hp (by simp), update_of_ne hq]
      exact ⟨(i.queue q').1.congr fun u hu => hother hu hp, (i.queue q').2⟩
  · obtain ⟨hp, -⟩ | ⟨-, hu, -⟩ := mem_takenBy hA hu
    · cases hp
    · exact i.queue_on q' u hu
  · rw [hcalls]
    by_cases hc : c' = c
    · rw [hc, takenBy_call, update_self]
      exact hw
    · have hp : Place.call c' ≠ .call c := fun e => hc (Place.call.inj e)
      rw [takenBy_of_ne (by simp) hp, update_of_ne hc]
      exact (i.call c').congr (fun u hu => hother hu (by simp)) fun _ _ h => h
  · obtain ⟨-, -, hu⟩ | ⟨-, hu, -⟩ := mem_takenBy hA hu <;> exact i.on_of_mem hu
  · by_cases hc : p = .call c
    · rw [hc, takenBy_call]
      exact hnd.of_append_left
    · by_cases hq : p = .queue q
      · rw [hq, takenBy_queue]
        exact hnd.of_append_right
      · rw [takenBy_of_ne hq hc]
        exact i.nodup p
  · intro u p p' hu hu'
    obtain ⟨hp, hM, hq⟩ | ⟨-, h, hR⟩ := mem_takenBy hA hu <;>
      obtain ⟨hp', hM', hq'⟩ | ⟨-, h', hR'⟩ := mem_takenBy hA hu'
    · rw [hp, hp']
    · exact absurd hM (hMR (hR' (i.excl h' hq)))
    · exact absurd hM' (hMR (hR (i.excl h hq')))
    · exact i.excl h h'
  · rw [hstate]
    exact i.waiting u hu
  · rw [hnext u fun hM => i.notMem hu _ (hMA hM)] at hv
    exact i.closed u v hu hv

/-- **`wait_queue_wakeup_one` takes the first thread.** -/
lemma WqInv.wakeupOne (i : WqInv s on A) (q c : ℕ) : ∃ A', WqInv (waitQueueWakeupOne s c q) on A' := by
  obtain ⟨hchain, htail⟩ := i.queue q
  rw [waitQueueWakeupOne]
  cases hL : A (.queue q) with
  | nil =>
    rw [hL] at hchain
    rw [chain_nil.mp hchain]
    exact ⟨A, i⟩
  | cons th R =>
    rw [hL] at hchain htail
    obtain ⟨hhead, hR⟩ := hchain
    rw [hhead]
    refine ⟨takenBy A q c [th] R, i.take hL rfl hR ?_ rfl ?_ (fun u hu => ?_) (fun u => by simp) rfl⟩
    · rw [htail]
      cases R with
      | nil => rw [if_pos (chain_nil.mp hR), List.getLast?_nil]
      | cons y R => rw [if_neg (by rw [hR.1]; simp), List.getLast?_cons_cons]
    · refine ⟨[], rfl, chain_nil.mpr rfl, fun t ht => ?_⟩
      rw [← Option.some.inj ht]
      simp
    · rw [List.mem_singleton] at hu
      simp [hu]

/-- **`wait_queue_wakeup_all` takes them all.** -/
lemma WqInv.wakeupAll (i : WqInv s on A) (q c : ℕ) :
    WqInv (waitQueueWakeupAll s c q) on (takenBy A q c (A (.queue q)) []) := by
  refine i.take (List.append_nil _).symm rfl (chain_nil.mpr rfl) rfl rfl ?_ (fun u _ => rfl)
    (fun u => rfl) rfl
  exact ⟨_, rfl, (i.queue q).1, fun t ht => by cases ht⟩

end take

/-! ## The rounds of a call -/

/-- The chain of a call on a queue, and the thread it is about to wake. -/
lemma HeldBy.wakeup (h : HeldBy s on w C) (hw : w.call = .wakeup) :
    ∃ D, C = w.waking.toList ++ D ∧ Chain s.next w.rest D ∧ ∀ t ∈ w.waking, s.next t = none := by
  unfold HeldBy at h
  rwa [hw] at h

lemma HeldBy.timer (h : HeldBy s on w C) (hw : w.call = .timer) :
    C = [] ∧ (∀ t ∈ w.waking, on t = none) ∧ ∀ t ∈ w.rest, on t = none := by
  unfold HeldBy at h
  rwa [hw] at h

lemma WqInv.unlink (i : WqInv s on A) (c : ℕ) : WqInv (unlinkNext s c) on A := by
  unfold unlinkNext
  split
  next th hw hr =>
    cases hcall : (s.calls c).call with
    | wakeup =>
      obtain ⟨D, hA, hD, -⟩ := (i.call c).wakeup hcall
      rw [hw, Option.toList_none, List.nil_append] at hA
      rw [hr] at hD
      -- the chain of the call begins with the thread it unlinks
      cases D with
      | nil => cases hD
      | cons x D =>
        obtain ⟨hx, hD⟩ := hD
        cases hx
        have hmem : th ∈ A (.call c) := hA ▸ List.mem_cons_self
        have hnd : (th :: D).Nodup := hA ▸ i.nodup _
        have hne : ∀ {p u}, u ∈ A p → p ≠ .call c → u ≠ th := by
          rintro p u hu hp rfl
          exact hp (i.excl hu hmem)
        refine ⟨fun q => ?_, i.queue_on, fun c' => ?_, i.call_on, i.nodup, i.excl, fun u hu => ?_,
          fun u v hu hv => ?_, i.sleep⟩
        · refine ⟨(i.queue q).1.congr fun u hu => ?_, (i.queue q).2⟩
          simp [hne hu (by simp)]
        · rw [Sched.calls_setCall]
          split_ifs with hc
          · rw [hc, hA]
            simp only [HeldBy, hcall]
            refine ⟨D, rfl, hD.congr fun u hu => ?_, fun t ht => ?_⟩
            · have hu' : u ≠ th := fun e => (List.nodup_cons.mp hnd).1 (e ▸ hu)
              simp [hu']
            · rw [← Option.some.inj ht]
              simp
          · have hp : Place.call c' ≠ .call c := fun e => hc (Place.call.inj e)
            refine (i.call c').congr (fun u hu => ?_) fun _ _ h => h
            simp [hne hu hp]
        · simpa using i.waiting u hu
        · have hu' : u ≠ th := by
            rintro rfl
            exact i.notMem hu _ hmem
          simp only [Sched.next_setCall, Sched.next_setNext, if_neg hu'] at hv
          exact i.closed u v hu hv
    | timer =>
      obtain ⟨hA, -, hrest⟩ := (i.call c).timer hcall
      have hth := hrest th hr
      have a := i.refl.setNext hth (n := none) fun v hv => by cases hv
      have h := (i.aside a).setTimer hA
        (fun t ht => by rwa [← Option.some.inj ht]) fun v hv => i.closed th v hth hv
      rwa [← hcall] at h
  next => exact i

lemma WqInv.wakeNext (i : WqInv s on A) (c : ℕ) :
    ∃ A', WqInv (wakeUnlinked s c) ((s.calls c).waking.elim on (wokenOn s on)) A' := by
  unfold wakeUnlinked
  cases hw : (s.calls c).waking with
  | none => exact ⟨A, i⟩
  | some th =>
    dsimp only [Option.elim_some]
    cases hcall : (s.calls c).call with
    | wakeup =>
      obtain ⟨D, hA, hD, hnext⟩ := (i.call c).wakeup hcall
      rw [hw] at hA
      have hA : A (.call c) = th :: D := hA
      have hmem : th ∈ A (.call c) := hA ▸ List.mem_cons_self
      have hnd : (th :: D).Nodup := hA ▸ i.nodup _
      have hwait := i.waiting th (i.on_of_mem hmem)
      have hon : wokenOn s on th = update on th none := if_pos hwait
      have hwake : threadWake s th = s.setState th .ready := if_pos hwait
      rw [hon, hwake]
      have hsub : ∀ {p u}, u ∈ update A (.call c) D p → u ∈ A p ∧ u ≠ th := by
        intro p u hu
        rw [update_apply] at hu
        split_ifs at hu with hp
        · refine ⟨by rw [hp, hA]; exact List.mem_cons_of_mem _ hu, ?_⟩
          rintro rfl
          exact (List.nodup_cons.mp hnd).1 hu
        · refine ⟨hu, ?_⟩
          rintro rfl
          exact hp (i.excl hu hmem)
      refine ⟨update A (.call c) D, fun q => ?_, fun q u hu => ?_, fun c' => ?_,
        fun c' u hu => ?_, fun p => ?_, fun hu hu' => i.excl (hsub hu).1 (hsub hu').1, fun u hu => ?_,
        fun u v hu hv => ?_, fun v hv => ?_⟩
      · rw [update_of_ne (by simp)]
        exact ⟨(i.queue q).1.congr fun u _ => by simp, (i.queue q).2⟩
      · rw [update_of_ne (hsub hu).2]
        exact i.queue_on q u (hsub hu).1
      · rw [Sched.calls_setCall]
        split_ifs with hc
        · rw [hc, update_self]
          exact ⟨D, rfl, hD.congr fun u _ => by simp, fun t ht => by cases ht⟩
        · have hp : Place.call c' ≠ .call c := fun e => hc (Place.call.inj e)
          rw [update_of_ne hp]
          refine (i.call c').congr (fun u _ => by simp) fun u _ h => ?_
          rw [update_apply]
          split_ifs
          · rfl
          · exact h
      · rw [update_of_ne (hsub hu).2]
        exact i.call_on c' u (hsub hu).1
      · rw [update_apply]
        split_ifs
        · exact (List.nodup_cons.mp hnd).2
        · exact i.nodup p
      · have hut : u ≠ th := by
          rintro rfl
          simp at hu
        rw [update_of_ne hut] at hu
        simpa [hut] using i.waiting u hu
      · simp only [Sched.next_setCall, Sched.next_setState] at hv
        by_cases hut : u = th
        · rw [hut, hnext th hw] at hv
          cases hv
        · rw [update_of_ne hut] at hu
          rw [update_apply, i.closed u v hu hv, ite_self]
      · rw [update_apply, i.sleep v hv, ite_self]
    | timer =>
      obtain ⟨hA, hwaking, hrest⟩ := (i.call c).timer hcall
      have hth := hwaking th hw
      have h := (i.aside (threadWake_aside i hth)).setTimer (w := none) hA
        (fun t ht => by cases ht) hrest
      rw [wokenOn_of_none hth]
      exact ⟨A, h⟩

end steps

/-! ## Runs -/

variable {A : Place → List ℕ} {on : ℕ → Option ℕ} {s : Sched}

lemma WqInv.step {s' : Sched} {on' : ℕ → Option ℕ} {op : SchedOp}
    (i : WqInv s on A) (hC : op.careful s on) (h : SchedStep s on op s' on') : ∃ A', WqInv s' on' A' := by
  -- only waiting threads are asleep on a queue
  have hawake : ∀ {t}, (s.threads t).state ≠ .waiting → on t = none := fun {t} ht => by
    by_contra hon
    exact ht (i.waiting t hon)
  cases h with
  | sleep ht => exact ⟨_, i.sleepOn (hawake (by rw [ht]; decide)) hC⟩
  | sleepUntil => exact hC.elim
  | threadSleep ht hs => exact ⟨A, i.aside (threadSleepUntil_aside i (hawake (by rw [ht]; decide)) hs)⟩
  | wakeupOne => exact i.wakeupOne _ _
  | wakeupAll => exact ⟨_, i.wakeupAll _ _⟩
  | timer hc hs => exact ⟨A, i.timer hc hs⟩
  | unlink => exact ⟨A, i.unlink _⟩
  | wakeNext => exact i.wakeNext _
  | wake =>
    rw [wokenOn_of_none hC]
    exact ⟨A, i.aside (threadWake_aside i hC)⟩
  | dispatch ht => exact ⟨A, i.aside (i.refl.setState (hawake (by rw [ht]; decide)) _)⟩

lemma SchedRun.inv {s0 : Sched} (h0 : QuietStart s0)
    (h : SchedRun (fun s on op => op.careful s on) s0 s on) : ∃ A, WqInv s on A := by
  induction h with
  | start =>
    refine ⟨fun _ => [], fun q => ?_, fun _ _ ht => absurd ht List.not_mem_nil, fun c => ?_,
      fun _ _ ht => absurd ht List.not_mem_nil, fun _ => List.nodup_nil,
      fun ht => absurd ht List.not_mem_nil, fun _ ht => absurd rfl ht, fun _ _ _ _ => rfl,
      fun _ _ => rfl⟩
    · rw [h0.queues q]
      exact ⟨rfl, rfl⟩
    · obtain ⟨hw, hr⟩ := h0.calls c
      unfold HeldBy
      cases (s0.calls c).call with
      | wakeup => exact ⟨[], by rw [hw]; rfl, hr, fun t ht => by rw [hw] at ht; cases ht⟩
      | timer => exact ⟨rfl, fun _ _ => rfl, fun _ _ => rfl⟩
  | step op _ hC hstep ih =>
    obtain ⟨A, i⟩ := ih
    exact i.step hC hstep

lemma WqInv.queuesOk (i : WqInv s on A) : QueuesOk s on := by
  refine ⟨fun q => ⟨A (.queue q), (i.queue q).1, i.nodup _, (i.queue q).2, i.queue_on q⟩, ?_⟩
  intro q q' L L' hL hL' hq t ht ht'
  rw [hL.unique (i.queue q).1] at ht
  rw [hL'.unique (i.queue q').1] at ht'
  exact hq (Place.queue.inj (i.excl ht ht'))

/-- **Integrity of the wait queues.** In every run without timed sleeps on queues, without direct
wake-ups of threads that are asleep on a queue, and in which nothing refers to a thread when it goes to
sleep on a queue, every queue is an acyclic list that ends at its tail and holds only threads that are
asleep on it, and no thread is in two queues. -/
theorem wait_queue_integrity {s₀ s : Sched} {on : ℕ → Option ℕ} (h₀ : QuietStart s₀)
    (h : SchedRun (fun s on op => op.careful s on) s₀ s on) : QueuesOk s on := by
  obtain ⟨A, i⟩ := h.inv h₀
  exact i.queuesOk

/-- All threads are running, and nothing is queued. -/
def restingSched : Sched :=
  ⟨fun _ => ⟨.running, none, 0⟩, fun _ => ⟨none, none⟩, none, fun _ => ⟨.wakeup, none, none⟩⟩

lemma restingSched_quiet : QuietStart restingSched := ⟨fun _ => rfl, fun _ => ⟨rfl, rfl⟩⟩

/-- Nothing refers to a thread of the resting system. -/
lemma restingSched_refersTo (t : ℕ) : ¬ restingSched.refersTo t := by rintro (h | ⟨u, h⟩ | ⟨c, h | h⟩) <;> cases h

/-- A thread goes to sleep on a queue, and another one takes it off. -/
theorem wait_queue_integrity_resting : QueuesOk (waitQueueWakeupOne (waitQueueSleep restingSched 0 0) 0 0)
      (update (fun _ => none) 0 (some 0)) := by
  have h1 : SchedRun (fun s on op => op.careful s on) restingSched (waitQueueSleep restingSched 0 0)
      (update (fun _ => none) 0 (some 0)) :=
    .step (.sleep 0 0) .start (restingSched_refersTo 0) (.sleep rfl)
  exact wait_queue_integrity restingSched_quiet
    (.step (.wakeupOne 0 0) h1 trivial (.wakeupOne ⟨rfl, rfl⟩))

/-- **A timed sleep breaks a queue.** Thread `0` is in `thread_sleep_until` when thread `1` goes to
sleep on queue `0` until a deadline: the one link of thread `1` now leads to thread `0`, which the
queue's list holds from then on. -/
theorem timedSleep_breaks_queue : ∃ s on, QuietStart restingSched ∧
    SchedRun (fun _ _ _ => True) restingSched s on ∧ ¬ QueuesOk s on := by
  obtain ⟨s1, hs1⟩ : ∃ s1, threadSleepUntil 1 restingSched 0 100 = some s1 := ⟨_, rfl⟩
  obtain ⟨s2, hs2⟩ : ∃ s2, waitQueueSleepUntilIrqrestore 2 s1 0 1 50 = some s2 := by
    cases hs1
    exact ⟨_, rfl⟩
  refine ⟨s2, update (fun _ => none) 1 (some 0), restingSched_quiet, ?_, fun h => ?_⟩
  · refine .step (.sleepUntil 0 1 50) (.step (.threadSleep 0 100) .start trivial (.threadSleep rfl hs1))
      trivial (.sleepUntil ?_ hs2)
    cases hs1
    rfl
  · cases hs1
    cases hs2
    obtain ⟨L, hL, -, -, hon⟩ := h.list 0
    have hlist : L = [1, 0] := hL.unique ⟨rfl, rfl, rfl⟩
    have h0 := hon 0 (by rw [hlist]; decide)
    cases h0

end Chimera
