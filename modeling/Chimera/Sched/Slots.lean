import Chimera.Sched.Halted

/-!
# Thread slots: `sys_fork` and `sys_spawn` of `kernel/bsd/syscall.c`

The threads of user processes are in two static arrays. `sys_fork` and `sys_spawn` look for a slot that is
not in use, clear it, and start a new thread on its kernel stack; a thread that exits leaves its slot behind
while it still runs on that stack. A slot is not cleared while its thread is on a CPU
(`thread_slot_reuse`), if a call takes a slot only when no other call has it and `th_running_cpu` is reset.
The code does not always look: a slot without signature is free for both, and a halted one for `sys_spawn`
(`exitingThread_reinitialised`).

Conventions. The threads `0` to `255` are `s_fork_threads`, the next `256` are `s_spawn_threads`, all others
are in no pool. The steps of `scheduler.c` are those of `RunStep`; a call is named by the thread that makes
it. The tests of two slots by a scan are two steps.
-/

namespace Chimera

open Lib
open Function (update update_self update_of_ne update_eq_self update_idem)

/-! ## The model -/

/-- The two arrays. -/
inductive Pool where
  | fork
  | spawn
  deriving DecidableEq, Repr

/-- The size of `s_fork_threads` and `s_spawn_threads`. -/
def poolSize : ℕ := 256

def Pool.thread : Pool → ℕ → ℕ
  | .fork, i => i
  | .spawn, i => poolSize + i

/-- The fields of `chimera_thread_t` that only fork, spawn and exit use. -/
structure ThreadSlot where
  /-- `th_signature` is `CHIMERA_THREAD_MAGIC`. -/
  magic : Bool
  /-- `th_kernel_stack` is not null. -/
  hasStack : Bool
  deriving DecidableEq, Repr

/-- A call of `sys_fork` or `sys_spawn`. -/
inductive SlotCall where
  | idle
  /-- Before the test of slot `i`. -/
  | scanning (pool : Pool) (i : ℕ)
  /-- A slot is found. -/
  | taken (pool : Pool) (t : ℕ)
  /-- It is cleared and set up, without a stack. -/
  | inited (t : ℕ)
  /-- Before `scheduler_add_thread`. -/
  | stacked (t : ℕ)
  /-- In `scheduler_add_thread`. -/
  | adding (t : ℕ)
  /-- There was no memory for a stack. -/
  | failing (t : ℕ)
  /-- In `proc_mark_exited`, with `scheduler_remove_thread` as call `r`. -/
  | removing (t r : ℕ)
  deriving DecidableEq, Repr

/-- The slot that a call has taken. -/
def SlotCall.holds : SlotCall → Option ℕ
  | .idle | .scanning _ _ => none
  | .taken _ t | .inited t | .stacked t | .adding t | .failing t | .removing t _ => some t

/-- Where a thread is in `sys_exit_direct`. -/
inductive ExitPhase where
  | alive
  /-- In `proc_mark_exited`, with `scheduler_remove_thread` as call `r`. -/
  | removing (r : ℕ)
  /-- `th_signature` is cleared. -/
  | cleared
  /-- It only yields. -/
  | done
  deriving DecidableEq, Repr

structure SlotSched where
  sched : RunSched
  slots : ℕ → ThreadSlot
  calls : ℕ → SlotCall
  exits : ℕ → ExitPhase

namespace SlotSched

variable (s : SlotSched)

def setCall (c : ℕ) (x : SlotCall) : SlotSched := { s with calls := update s.calls c x }

def setSlot (t : ℕ) (x : ThreadSlot) : SlotSched := { s with slots := update s.slots t x }

def setExit (t : ℕ) (x : ExitPhase) : SlotSched := { s with exits := update s.exits t x }

def setSched (x : RunSched) : SlotSched := { s with sched := x }

variable {s} {c : ℕ}

lemma calls_setCall_self (x : SlotCall) : (s.setCall c x).calls c = x := update_self _ _ _

lemma calls_setCall_of_ne {c' : ℕ} (h : c' ≠ c) (x : SlotCall) : (s.setCall c x).calls c' = s.calls c' :=
  update_of_ne h _ _

end SlotSched

/-- The tests of the two scans. -/
def slotFree (pool : Pool) (x : RunThread) (slot : ThreadSlot) : Bool :=
  match pool with
  | .fork => !slot.magic || (x.state = .halted && x.runningCpu = none)
  | .spawn => !slot.magic || x.state = .halted

/-- One round of the scan; at the end of the array the call fails. `sys_fork` marks the slot as ready. -/
def scanSlot (s : SlotSched) (c : ℕ) (pool : Pool) (i : ℕ) : SlotSched :=
  let t := pool.thread i
  if slotFree pool (s.sched.threads t) (s.slots t) then
    (match pool with
      | .fork => s.setSched (s.sched.setState t .ready)
      | .spawn => s).setCall c (.taken pool t)
  else s.setCall c (if i + 1 < poolSize then .scanning pool (i + 1) else .idle)

/-- `th_priority` of a new thread. -/
def initPriority (s : RunSched) (c : ℕ) : Pool → ℕ
  | .fork => (s.threads c).priority
  | .spawn => 0

/-- The slot is cleared, its stack apart. `th_running_cpu` is zero then. -/
def initSlot (s : SlotSched) (c : ℕ) (pool : Pool) (t : ℕ) : SlotSched :=
  let x : RunThread := ⟨.ready, initPriority s.sched c pool, 0, 0, 0, some 0⟩
  (((s.setSched { s.sched.setThread t x with next := update s.sched.next t none }).setSlot t
    { s.slots t with magic := true }).setExit t .alive).setCall c (.inited t)

/-- `pages`: there are four pages for a new stack.
Source: `thread_init_stack`, and what `sys_fork` and `sys_spawn` do when it fails -/
def threadInitStack (s : SlotSched) (c t : ℕ) (pages : Bool) : SlotSched :=
  if (s.slots t).hasStack || pages then
    ((s.setSched (s.sched.setThread t { s.sched.threads t with runningCpu := none })).setSlot t
      { s.slots t with hasStack := true }).setCall c (.stacked t)
  else ((s.setSched (s.sched.setState t .halted)).setSlot t { s.slots t with magic := false }).setCall c
    (.failing t)

/-- `th_signature = 0`. -/
def clearMagic (s : SlotSched) (t : ℕ) : SlotSched := s.setSlot t { s.slots t with magic := false }

/-- The steps. -/
inductive SlotOp where
  | run (op : RunOp)
  /-- The thread of CPU `k` calls `sys_exit_direct`. -/
  | exitHalt (r k : ℕ)
  | exitClear (k : ℕ)
  /-- Behind `proc_mark_exited` it is removed once more. -/
  | exitAgain (r k : ℕ)
  | enter (c : ℕ) (pool : Pool)
  | scan (c : ℕ)
  | init (c : ℕ)
  | stack (c : ℕ) (pages : Bool)
  | add (c cpu : ℕ)
  | enqueue (c : ℕ)
  | failHalt (c r : ℕ)
  | failClear (c : ℕ)
  deriving DecidableEq, Repr

/-- The steps of the scheduler itself; threads are added by calls, and removed by calls and by exits. -/
def RunOp.schedules : RunOp → Prop
  | .addStart _ _ _ | .addEnqueue _ | .removeStart _ _ => False
  | _ => True

/-- One step. A thread that exits does not sleep. -/
inductive SlotStep (s : SlotSched) : SlotOp → SlotSched → Prop
  | run {op : RunOp} {s' : RunSched} (hop : op.schedules)
      (hpark : ∀ k t, op = .park k → (s.sched.cpus k).current = some t → s.exits t = .alive)
      (h : RunStep s.sched op s') : SlotStep s (.run op) (s.setSched s')
  | exitHalt {r k t : ℕ} (hphase : (s.sched.cpus k).phase = .running)
      (ht : (s.sched.cpus k).current = some t) (hexit : s.exits t = .alive)
      (hr : s.sched.removals r = none) :
      SlotStep s (.exitHalt r k) ((s.setSched (removeStart s.sched r t)).setExit t (.removing r))
  | exitClear {r k t : ℕ} (hphase : (s.sched.cpus k).phase = .running)
      (ht : (s.sched.cpus k).current = some t) (hexit : s.exits t = .removing r)
      (hr : s.sched.removals r = none) :
      SlotStep s (.exitClear k) ((clearMagic s t).setExit t .cleared)
  | exitAgain {r k t : ℕ} (hphase : (s.sched.cpus k).phase = .running)
      (ht : (s.sched.cpus k).current = some t) (hexit : s.exits t = .cleared)
      (hr : s.sched.removals r = none) :
      SlotStep s (.exitAgain r k) ((s.setSched (removeStart s.sched r t)).setExit t .done)
  /-- `sys_fork` has the lock of its array while it scans, `sys_spawn` has none. -/
  | enter {c : ℕ} {pool : Pool} (hc : s.calls c = .idle)
      (hlock : pool = .fork → ∀ c' i, s.calls c' ≠ .scanning .fork i) :
      SlotStep s (.enter c pool) (s.setCall c (.scanning pool 0))
  | scan {c i : ℕ} {pool : Pool} (hc : s.calls c = .scanning pool i) :
      SlotStep s (.scan c) (scanSlot s c pool i)
  | init {c t : ℕ} {pool : Pool} (hc : s.calls c = .taken pool t) :
      SlotStep s (.init c) (initSlot s c pool t)
  | stack {c t : ℕ} {pages : Bool} (hc : s.calls c = .inited t) :
      SlotStep s (.stack c pages) (threadInitStack s c t pages)
  | add {c t cpu : ℕ} (hc : s.calls c = .stacked t) (ha : s.sched.adds c = none)
      (hcpu : cpu = 0 ∨ (cpu < s.sched.totalCpus ∧ cpu < maxCpus ∧ (s.sched.cpus cpu).isActive = true)) :
      SlotStep s (.add c cpu) ((s.setSched (addStart s.sched c t cpu)).setCall c (.adding t))
  | enqueue {c t : ℕ} {s' : RunSched} (hc : s.calls c = .adding t) (h : RunStep s.sched (.addEnqueue c) s') :
      SlotStep s (.enqueue c) ((s.setSched s').setCall c .idle)
  | failHalt {c r t : ℕ} (hc : s.calls c = .failing t) (hr : s.sched.removals r = none) :
      SlotStep s (.failHalt c r) ((s.setSched (removeStart s.sched r t)).setCall c (.removing t r))
  | failClear {c r t : ℕ} (hc : s.calls c = .removing t r) (hr : s.sched.removals r = none) :
      SlotStep s (.failClear c) ((clearMagic s t).setCall c .idle)

/-- At the start no call and no exit is under way, and the threads that run or wait have their slots. -/
structure SlotStart (s : SlotSched) : Prop where
  sched : RunStart s.sched
  calls : ∀ c, s.calls c = .idle
  exits : ∀ t, s.exits t = .alive
  current : ∀ k t, (s.sched.cpus k).current = some t → s.slots t = ⟨true, true⟩
  waiting : ∀ t, (s.sched.threads t).state = .waiting → s.slots t = ⟨true, true⟩

/-! ## Idle threads -/

/-- A CPU executes a thread, or is still about to leave it. -/
def RunSched.executing (s : RunSched) (t : ℕ) : Prop :=
  ∃ k, (s.cpus k).current = some t ∨ (s.cpus k).phase.leaves = some t

/-- **A thread that nobody uses**: it stays where it is, and that is on no CPU. -/
structure Idle (s : RunSched) (L : ℕ → List ℕ) (t : ℕ) : Prop where
  still : Still s L t
  off : ¬ s.executing t

section idle

variable {s s' : RunSched} {L L' : ℕ → List ℕ} {k t u : ℕ} {op : RunOp}

lemma CpuPhase.leaves_eq_some {p : CpuPhase} : p.leaves = some t ↔ p = .switching (some t) := by
  constructor
  · intro h
    cases p <;> simp_all [CpuPhase.leaves]
  · rintro rfl
    rfl

lemma Idle.not_on (h : Idle s L t) (j : ℕ) :
    ¬ ((s.cpus j).current = some t ∨ (s.cpus j).phase = .switching (some t)) := fun hj =>
  h.off ⟨j, hj.imp_right CpuPhase.leaves_eq_some.mpr⟩

/-- **An idle thread stays idle** until it is added. -/
lemma Idle.moved (h : Idle s L t) (hadd : ∀ a cpu, op ≠ .addStart a t cpu) (hm : RunMoved s L op s' L') :
    Idle s' L' t := by
  refine ⟨h.still.moved hadd (fun k _ hk => h.off ⟨k, .inl hk⟩) hm, ?_⟩
  rintro ⟨k, hk | hk⟩
  · rcases hm.current hk with hk | hk
    · exact h.off ⟨k, .inl hk⟩
    · exact h.still.free _ hk
  · rcases hm.leaves hk with hk | hk
    · exact h.off ⟨k, .inr hk⟩
    · exact h.off ⟨k, .inl hk⟩

variable {x : RunThread}

/-- An idle thread may change, as long as it does not wait. -/
lemma Idle.setThread (h : Idle s L t) (hx : u = t → x.state ≠ .waiting) : Idle (s.setThread u x) L t := by
  refine ⟨⟨fun p hp => h.still.free p ((placed_setThread x).mp hp), ?_, fun k hk => ?_⟩, h.off⟩
  · rw [RunSched.threads_setThread]
    split_ifs with htu
    · exact hx htu.symm
    · exact h.still.awake
  · exact absurd (.inl hk) (h.not_on k)

lemma halted_setThread (h : ((s.setThread u x).threads t).state = .halted)
    (hx : x.state = .halted → (s.threads u).state = .halted) : (s.threads t).state = .halted := by
  rw [RunSched.threads_setThread] at h
  split_ifs at h with htu
  · rw [htu]
    exact hx h
  · exact h

lemma YieldOld.halted (hold : YieldOld s L k s' L') (h : (s'.threads t).state = .halted) :
    (s.threads t).state = .halted := by
  cases hold with
  | idle _ => exact h
  | back _ _ l n => exact halted_setThread h nofun
  | away _ _ => exact halted_setThread h id

/-- **Who halts a thread**: only the one who removes it. -/
lemma RunMoved.halted (hm : RunMoved s L op s' L') (hop : ∀ r, op ≠ .removeStart r t)
    (h : (s'.threads t).state = .halted) : (s.threads t).state = .halted := by
  cases hm with
  | yield _ hold hnew => cases hnew <;> exact hold.halted h
  | @steal _ _ th _ _ _ _ => exact halted_setThread h id
  | noSteal | noVictim => exact h
  | @dispatch j new _ _ =>
    cases new with
    | none =>
      rw [Chimera.dispatch] at h
      split_ifs at h <;> exact h
    | some u =>
      rw [Chimera.dispatch] at h
      split_ifs at h
      · exact halted_setThread h (by simp)
      · exact halted_setThread h (by simp)
  | @switched _ old _ =>
    cases old with
    | none => exact h
    | some u => exact halted_setThread h id
  | park _ _ => exact halted_setThread h (by simp)
  | @wakeSwap w u =>
    rw [Chimera.wakeSwap] at h
    split_ifs at h
    · exact halted_setThread h (by simp)
    · exact h
  | @wakeBoost w my u _ _ => exact halted_setThread h id
  | wakeEnqueue | addEnqueue | removeLocked | removeNothing => exact h
  | addStart => exact halted_setThread h (by rintro ⟨⟩)
  | @removeStart r u =>
    have hne : t ≠ u := by
      rintro rfl
      exact hop r rfl
    simpa [Chimera.removeStart, hne] using h

lemma RunMoved.adds (hm : RunMoved s L op s' L') (hop : op.schedules) : s'.adds = s.adds := by
  cases hm with
  | yield _ hold hnew => cases hold <;> cases hnew <;> rfl
  | @dispatch j new _ _ => cases new <;> rw [Chimera.dispatch] <;> split_ifs <;> rfl
  | @switched _ old _ => cases old <;> rfl
  | @wakeSwap w u =>
    rw [Chimera.wakeSwap]
    split_ifs <;> rfl
  | steal | noSteal | noVictim | park | wakeBoost | wakeEnqueue | removeLocked | removeNothing => rfl
  | addStart | addEnqueue | removeStart => exact hop.elim

end idle

/-! ## The invariant -/

/-- **What a call knows** of the slot it has taken: the slot is idle until the call adds its thread, and once
it is cleared nothing is left of its old thread. -/
def CallOk (s : SlotSched) (L : ℕ → List ℕ) (c : ℕ) : SlotCall → Prop
  | .idle | .scanning _ _ => True
  | .taken _ t => Idle s.sched L t
  | .inited t => Idle s.sched L t ∧ s.exits t = .alive ∧ (s.slots t).magic = true
  | .stacked t => Idle s.sched L t ∧ s.exits t = .alive ∧ s.slots t = ⟨true, true⟩
  | .adding t => QueuePlaced s.sched L t (.add c) ∧ s.exits t = .alive
  | .failing t | .removing t _ => Idle s.sched L t ∧ s.exits t = .alive

/-- **The invariant of the slots.** -/
structure SlotInv (s : SlotSched) (L : ℕ → List ℕ) : Prop where
  run : RunInv s.sched L
  /-- A thread that is in use has its slot, until it exits. -/
  used : ∀ t, Idle s.sched L t ∨ s.exits t ≠ .alive ∨
    (s.slots t = ⟨true, true⟩ ∧ (s.sched.threads t).state ≠ .halted)
  /-- A thread that has begun to exit stays where it is, until a call takes its slot. -/
  exiting : ∀ t, s.exits t ≠ .alive → (∃ c, (s.calls c).holds = some t) ∨
    (Still s.sched L t ∧ (s.slots t).hasStack = true)
  call : ∀ c, CallOk s L c (s.calls c)
  /-- A slot is taken by one call. -/
  one : ∀ c c' t, (s.calls c).holds = some t → (s.calls c').holds = some t → c = c'

section invariant

variable {s s' : SlotSched} {L L' : ℕ → List ℕ} {c k t : ℕ} {x : SlotCall}

lemma CallOk.idle_or_added (h : CallOk s L c x) (hx : x.holds = some t) :
    Idle s.sched L t ∨ QueuePlaced s.sched L t (.add c) := by
  cases x with
  | idle | scanning => cases hx
  | taken =>
    cases hx
    exact .inl h
  | inited | stacked | failing | removing =>
    cases hx
    exact .inl h.1
  | adding =>
    cases hx
    exact .inr h.1

/-- **Frame.** Only the slot that the call has taken matters. -/
lemma CallOk.frame (h : CallOk s L c x)
    (hidle : ∀ u, x.holds = some u → Idle s.sched L u → Idle s'.sched L' u)
    (hadd : ∀ u, x = .adding u → QueuePlaced s.sched L u (.add c) → QueuePlaced s'.sched L' u (.add c))
    (hexit : ∀ u, x.holds = some u → s.exits u = .alive → s'.exits u = .alive)
    (hslot : ∀ u, x.holds = some u → s'.slots u = s.slots u) : CallOk s' L' c x := by
  cases x with
  | idle | scanning => trivial
  | taken => exact hidle _ rfl h
  | inited t =>
    refine ⟨hidle _ rfl h.1, hexit _ rfl h.2.1, ?_⟩
    rw [hslot t rfl]
    exact h.2.2
  | stacked => exact ⟨hidle _ rfl h.1, hexit _ rfl h.2.1, (hslot _ rfl).trans h.2.2⟩
  | adding => exact ⟨hadd _ rfl h.1, hexit _ rfl h.2⟩
  | failing | removing => exact ⟨hidle _ rfl h.1, hexit _ rfl h.2⟩

lemma callOk_of_none (hx : x.holds = none) : CallOk s L c x := by
  cases x with
  | idle | scanning => trivial
  | taken | inited | stacked | adding | failing | removing => cases hx

/-- A thread on a CPU outside of `scheduler_yield` is in no call's hands. -/
lemma SlotInv.not_held (i : SlotInv s L) (hphase : (s.sched.cpus k).phase = .running)
    (ht : (s.sched.cpus k).current = some t) (c : ℕ) : (s.calls c).holds ≠ some t := by
  intro hc
  rcases (i.call c).idle_or_added hc with h | h
  · exact h.off ⟨k, .inl ht⟩
  · exact (i.run.hands.busy k t (.inl hphase) ht).1 _ h

/-- **The scheduler moves**, and neither slots nor calls nor exits change. A thread that is added has its
slot and is in no call's hands, one that is removed is idle, and one that exits does not park. -/
lemma SlotInv.moved (i : SlotInv s L) {op : RunOp} {x : RunSched} (hm : RunMoved s.sched L op x L')
    (hrun : RunInv x L')
    (hadd : ∀ u a cpu, op = .addStart a u cpu → s.slots u = ⟨true, true⟩ ∧ s.exits u = .alive ∧
      (∀ c, (s.calls c).holds ≠ some u) ∧ (x.threads u).state ≠ .halted)
    (hremove : ∀ u r, op = .removeStart r u → Idle s.sched L u)
    (hpark : ∀ k u, op = .park k → (s.sched.cpus k).current = some u → s.exits u = .alive)
    (hadds : ∀ c u, s.calls c = .adding u → x.adds c = s.sched.adds c) : SlotInv (s.setSched x) L' := by
  refine ⟨hrun, fun u => ?_, fun u hu => ?_, fun c => (i.call c).frame (fun u hc h => h.moved ?_ hm)
    (fun u hc hp => ?_) (fun _ _ h => h) fun _ _ => rfl, i.one⟩
  · by_cases hop : ∃ a cpu, op = .addStart a u cpu
    · obtain ⟨a, cpu, hop⟩ := hop
      obtain ⟨hslot, -, -, hstate⟩ := hadd u a cpu hop
      exact .inr (.inr ⟨hslot, hstate⟩)
    · push Not at hop
      rcases i.used u with h | h | ⟨hslot, hstate⟩
      · exact .inl (h.moved hop hm)
      · exact .inr (.inl h)
      · by_cases hrem : ∃ r, op = .removeStart r u
        · obtain ⟨r, hrem⟩ := hrem
          exact .inl ((hremove u r hrem).moved hop hm)
        · push Not at hrem
          exact .inr (.inr ⟨hslot, fun h => hstate (hm.halted hrem h)⟩)
  · refine (i.exiting u hu).imp_right fun ⟨h, hstack⟩ => ⟨h.moved ?_ (fun k hk hcur => ?_) hm, hstack⟩
    · rintro a cpu hop
      exact hu (hadd u a cpu hop).2.1
    · exact hu (hpark k u hk hcur)
  · rintro a cpu hop
    exact (hadd u a cpu hop).2.2.1 c hc
  · have hp : (s.sched.adds c).map Prod.fst = some u := hp
    rw [← hadds c u hc] at hp
    exact hp

/-! ### Exits -/

section

variable (i : SlotInv s L) (hphase : (s.sched.cpus k).phase = .running) (ht : (s.sched.cpus k).current = some t)
include i hphase ht

/-- **A thread that exits removes itself.** -/
lemma SlotInv.exitRemove {r : ℕ} {x : ExitPhase}
    (hstack : (s.slots t).hasStack = true) (hx : x ≠ .alive) :
    SlotInv ((s.setSched (removeStart s.sched r t)).setExit t x) L := by
  have hm : RunMoved s.sched L (.removeStart r t) (removeStart s.sched r t) L := .removeStart
  have hadd : ∀ u a cpu, RunOp.removeStart r t ≠ .addStart a u cpu := by simp
  have hself : (update s.exits t x) t = x := update_self _ _ _
  have hother : ∀ u, u ≠ t → (update s.exits t x) u = s.exits u := fun u hu => update_of_ne hu _ _
  have hne : ∀ c u, (s.calls c).holds = some u → u ≠ t := by
    rintro c u hc rfl
    exact i.not_held hphase ht c hc
  refine ⟨⟨i.run.lists.frame rfl rfl, i.run.hands.removeStart⟩, fun u => ?_, fun u hu => ?_,
    fun c => (i.call c).frame (fun u _ h => h.moved (hadd u) hm) (fun _ _ hp => hp)
      (fun u hc h => (hother u (hne c u hc)).trans h) fun _ _ => rfl, i.one⟩
  · by_cases hut : u = t
    · rw [hut]
      exact .inr (.inl (hself.trans_ne hx))
    · rcases i.used u with h | h | ⟨hslot, hstate⟩
      · exact .inl (h.moved (hadd u) hm)
      · exact .inr (.inl ((hother u hut).trans_ne h))
      · refine .inr (.inr ⟨hslot, fun h => hstate (hm.halted ?_ h)⟩)
        rintro r' ⟨⟩
        exact hut rfl
  · by_cases hut : u = t
    · rw [hut]
      have hbusy := (i.run.hands.busy k t (.inl hphase) ht).1
      have hhalted : ((removeStart s.sched r t).threads t).state = .halted := by simp [removeStart]
      refine .inr ⟨⟨fun p hp => hbusy p ?_, ?_, fun _ _ => ?_⟩, hstack⟩
      · exact (placed_congr rfl rfl rfl).mp hp
      · exact hhalted.trans_ne (by simp)
      · exact hhalted.trans_ne (by simp)
    · have hu' : s.exits u ≠ .alive := (hother u hut).symm.trans_ne hu
      have hpark : ∀ j, RunOp.removeStart r t = .park j → (s.sched.cpus j).current ≠ some u := by simp
      exact (i.exiting u hu').imp_right (And.imp_left fun h => h.moved (hadd u) hpark hm)

/-- A thread on a CPU outside of `scheduler_yield` has its stack. -/
lemma SlotInv.hasStack : (s.slots t).hasStack = true := by
  by_cases hexit : s.exits t = .alive
  · rcases i.used t with h | h | ⟨hslot, -⟩
    · exact absurd ⟨k, .inl ht⟩ h.off
    · exact absurd hexit h
    · rw [hslot]
  · rcases i.exiting t hexit with ⟨c, hc⟩ | ⟨-, hstack⟩
    · exact absurd hc (i.not_held hphase ht c)
    · exact hstack

/-- **A thread that exits clears its signature.** -/
lemma SlotInv.exitClear (hexit : s.exits t ≠ .alive) :
    SlotInv ((clearMagic s t).setExit t .cleared) L := by
  have hslot : ∀ u, u ≠ t → (clearMagic s t).slots u = s.slots u := fun u hu => update_of_ne hu _ _
  have hstack : ∀ u, ((clearMagic s t).slots u).hasStack = (s.slots u).hasStack := by
    intro u
    by_cases hut : u = t
    · rw [hut, clearMagic, SlotSched.setSlot]
      dsimp only
      rw [update_self]
    · rw [hslot u hut]
  have hexits : ∀ u, u ≠ t → (update s.exits t .cleared) u = s.exits u := fun u hu => update_of_ne hu _ _
  have hne : ∀ c u, (s.calls c).holds = some u → u ≠ t := by
    rintro c u hc rfl
    exact i.not_held hphase ht c hc
  refine ⟨i.run, fun u => ?_, fun u hu => ?_, fun c => (i.call c).frame (fun _ _ h => h) (fun _ _ h => h)
    (fun u hc h => (hexits u (hne c u hc)).trans h) fun u hc => hslot u (hne c u hc), i.one⟩
  · by_cases hut : u = t
    · rw [hut]
      refine .inr (.inl ?_)
      rw [SlotSched.setExit]
      dsimp only
      rw [update_self]
      exact nofun
    · rcases i.used u with h | h | h
      · exact .inl h
      · exact .inr (.inl ((hexits u hut).trans_ne h))
      · refine .inr (.inr ?_)
        rwa [← hslot u hut] at h
  · have hu' : s.exits u ≠ .alive := by
      by_cases hut : u = t
      · rwa [hut]
      · exact (hexits u hut).symm.trans_ne hu
    refine (i.exiting u hu').imp_right fun ⟨h, hs⟩ => ⟨h, ?_⟩
    exact (hstack u).trans hs

end

/-! ### Calls -/

section

variable (i : SlotInv s L)
include i

lemma SlotInv.setCall (hok : CallOk s L c x)
    (hone : ∀ c' u, c' ≠ c → x.holds = some u → (s.calls c').holds ≠ some u)
    (hexit : ∀ u, (s.calls c).holds = some u → x.holds = some u ∨ s.exits u = .alive) :
    SlotInv (s.setCall c x) L := by
  have hself : (s.setCall c x).calls c = x := update_self _ _ _
  have hother : ∀ c', c' ≠ c → (s.setCall c x).calls c' = s.calls c' := fun c' hc' => update_of_ne hc' _ _
  refine ⟨i.run, i.used, fun u hu => ?_, fun c' => ?_, fun c1 c2 u h1 h2 => ?_⟩
  · rcases i.exiting u hu with ⟨c', hc'⟩ | h
    · refine .inl ?_
      by_cases he : c' = c
      · rw [he] at hc'
        refine ⟨c, ?_⟩
        rw [hself]
        exact (hexit u hc').resolve_right hu
      · refine ⟨c', ?_⟩
        rwa [hother c' he]
    · exact .inr h
  · suffices hcall : CallOk s L c' ((s.setCall c x).calls c') from
      hcall.frame (fun _ _ h => h) (fun _ _ h => h) (fun _ _ h => h) fun _ _ => rfl
    by_cases he : c' = c
    · rw [he, hself]
      exact hok
    · rw [hother c' he]
      exact i.call c'
  · by_cases he1 : c1 = c <;> by_cases he2 : c2 = c
    · rw [he1, he2]
    · rw [he1, hself] at h1
      rw [hother c2 he2] at h2
      exact absurd h2 (hone c2 u he2 h1)
    · rw [hother c1 he1] at h1
      rw [he2, hself] at h2
      exact absurd h1 (hone c1 u he1 h2)
    · rw [hother c1 he1] at h1
      rw [hother c2 he2] at h2
      exact i.one c1 c2 u h1 h2

/-- A call with the slot `t` goes on, with the same slot or with none. -/
lemma SlotInv.setCall_of_holds (hc : (s.calls c).holds = some t)
    (hok : CallOk s L c x) (hx : ∀ u, x.holds = some u → u = t) (halive : s.exits t = .alive) :
    SlotInv (s.setCall c x) L := by
  refine i.setCall hok (fun c' u hc' hu hold => ?_) fun u hu => .inr ?_
  · obtain rfl := hx u hu
    exact hc' (i.one c' c u hold hc)
  · rw [hc] at hu
    rwa [← Option.some.inj hu]

/-- A call without a slot goes on without one. -/
lemma SlotInv.setCall_of_none (hc : (s.calls c).holds = none)
    (hx : x.holds = none) : SlotInv (s.setCall c x) L := by
  refine i.setCall (callOk_of_none hx) (fun _ u _ hu => ?_) fun u hu => ?_
  · rw [hx] at hu
    cases hu
  · rw [hc] at hu
    cases hu

/-- **A call changes the slot it has taken.** -/
lemma SlotInv.setHeld {x : RunThread} {y : ThreadSlot} (hc : (s.calls c).holds = some t)
    (hidle : Idle s.sched L t) (hx : x.state ≠ .waiting) (hok : Idle (s.sched.setThread t x) L t →
      CallOk ((s.setSched (s.sched.setThread t x)).setSlot t y) L c (s.calls c)) :
    SlotInv ((s.setSched (s.sched.setThread t x)).setSlot t y) L := by
  have hslot : ∀ u, u ≠ t → (update s.slots t y) u = s.slots u := fun u hu => update_of_ne hu _ _
  refine ⟨⟨i.run.lists.frame rfl rfl, i.run.hands.reset hidle.still.free hidle.not_on x⟩, fun u => ?_,
    fun u hu => ?_, fun c' => ?_, i.one⟩
  · by_cases hut : u = t
    · rw [hut]
      exact .inl (hidle.setThread fun _ => hx)
    · rcases i.used u with h | h | ⟨h, hstate⟩
      · exact .inl (h.setThread fun _ => hx)
      · exact .inr (.inl h)
      · refine .inr (.inr ⟨(hslot u hut).trans h, ?_⟩)
        rw [SlotSched.setSlot, SlotSched.setSched]
        rwa [RunSched.threads_setThread, if_neg hut]
  · by_cases hut : u = t
    · rw [hut]
      exact .inl ⟨c, hc⟩
    · refine (i.exiting u hu).imp_right fun ⟨h, hs⟩ => ⟨h.setOther (Ne.symm hut) x, ?_⟩
      exact (congrArg ThreadSlot.hasStack (hslot u hut)).trans hs
  · by_cases he : c' = c
    · rw [he]
      exact hok (hidle.setThread fun _ => hx)
    · refine (i.call c').frame (fun _ _ h => h.setThread fun _ => hx) (fun _ _ => (placed_setThread x).mpr)
        (fun _ _ h => h) fun u hu => hslot u ?_
      rintro rfl
      exact he (i.one c' c u hu hc)

lemma SlotInv.setAlive (hidle : Idle s.sched L t) : SlotInv (s.setExit t .alive) L := by
  have hself : (update s.exits t .alive) t = .alive := update_self _ _ _
  have hother : ∀ u, u ≠ t → (update s.exits t .alive) u = s.exits u := fun u hu => update_of_ne hu _ _
  refine ⟨i.run, fun u => ?_, fun u hu => ?_, fun c => (i.call c).frame (fun _ _ h => h) (fun _ _ h => h)
    (fun u _ h => ?_) fun _ _ => rfl, i.one⟩
  · by_cases hut : u = t
    · rw [hut]
      exact .inl hidle
    · exact (i.used u).imp_right (Or.imp_left (hother u hut).trans_ne)
  · by_cases hut : u = t
    · rw [hut] at hu
      exact absurd hself hu
    · exact i.exiting u ((hother u hut).symm.trans_ne hu)
  · by_cases hut : u = t
    · rw [hut]
      exact hself
    · exact (hother u hut).trans h

/-- The thread of the slot changes and nothing else. -/
lemma SlotInv.setThread {x : RunThread} {pool : Pool} (hc : s.calls c = .taken pool t)
    (hx : x.state ≠ .waiting) : SlotInv (s.setSched (s.sched.setThread t x)) L := by
  have hidle : CallOk s L c (.taken pool t) := hc ▸ i.call c
  have h := i.setHeld (y := s.slots t) (congrArg SlotCall.holds hc) hidle hx fun h => hc.symm ▸ h
  rwa [SlotSched.setSlot, SlotSched.setSched, update_eq_self] at h

/-- **A call takes a slot** that nobody uses. -/
lemma SlotInv.take (pool : Pool) (hc : (s.calls c).holds = none)
    (hfree : ∀ c', (s.calls c').holds ≠ some t) (hidle : Idle s.sched L t) :
    SlotInv (s.setCall c (.taken pool t)) L := by
  refine i.setCall hidle (fun c' u _ hu => ?_) fun u hu => ?_
  · cases hu
    exact hfree c'
  · rw [hc] at hu
    cases hu

end

end invariant

/-! ## Runs -/

/-- **Slots are taken when they are free**: no other call has the slot, and its thread is off its CPU, or
has never had a stack to run on. -/
def SlotOp.takesFree (s : SlotSched) : SlotOp → Prop
  | .scan c => ∀ pool i, s.calls c = .scanning pool i →
      slotFree pool (s.sched.threads (pool.thread i)) (s.slots (pool.thread i)) = true →
      (∀ c', (s.calls c').holds ≠ some (pool.thread i)) ∧
        ((s.sched.threads (pool.thread i)).runningCpu = none ∨ (s.slots (pool.thread i)).hasStack = false)
  | _ => True

section runs

variable {s s' : SlotSched} {L : ℕ → List ℕ} {c t : ℕ}

/-- **A slot that passes the test**, off its CPU and in nobody's hands, is idle. -/
lemma SlotInv.idle_of_free (i : SlotInv s L) {pool : Pool}
    (htest : slotFree pool (s.sched.threads t) (s.slots t) = true)
    (hfree : ∀ c, (s.calls c).holds ≠ some t)
    (hoff : (s.sched.threads t).runningCpu = none ∨ (s.slots t).hasStack = false) : Idle s.sched L t := by
  rcases i.used t with h | h | ⟨hslot, hstate⟩
  · exact h
  · rcases i.exiting t h with ⟨c, hc⟩ | ⟨hstill, hstack⟩
    · exact absurd hc (hfree c)
    · have hrun : (s.sched.threads t).runningCpu = none := by
        refine hoff.resolve_right fun hno => ?_
        rw [hstack] at hno
        cases hno
      refine ⟨hstill, ?_⟩
      rintro ⟨k, hk⟩
      exact i.run.hands.off_of_runningCpu hrun k (hk.imp_right CpuPhase.leaves_eq_some.mp)
  · cases pool <;> simp [slotFree, hslot, hstate] at htest

/-- A call that adds a thread is another one than one that has just ended. -/
lemma ne_of_setCall_idle {c' : ℕ} (h : (s.setCall c .idle).calls c' = .adding t) : c' ≠ c := by
  rintro rfl
  rw [SlotSched.calls_setCall_self] at h
  cases h

lemma SlotInv.step (i : SlotInv s L) {op : SlotOp} (hC : op.takesFree s) (h : SlotStep s op s') :
    ∃ L', SlotInv s' L' := by
  cases h with
  | @run op s' hop hpark h =>
    have hfree : op.addsFree s.sched := by cases op <;> first | exact trivial | exact hop.elim
    obtain ⟨L', hm, hrun⟩ := i.run.step hfree h
    refine ⟨L', i.moved hm hrun ?_ ?_ hpark fun c u _ => by rw [hm.adds hop]⟩
    · rintro u a cpu rfl
      exact hop.elim
    · rintro u r rfl
      exact hop.elim
  | @exitHalt r k t hphase ht hexit hr => exact ⟨L, i.exitRemove hphase ht (i.hasStack hphase ht) (by simp)⟩
  | @exitClear r k t hphase ht hexit hr =>
    refine ⟨L, i.exitClear hphase ht ?_⟩
    rw [hexit]
    simp
  | @exitAgain r k t hphase ht hexit hr => exact ⟨L, i.exitRemove hphase ht (i.hasStack hphase ht) (by simp)⟩
  | @enter c pool hc hlock => exact ⟨L, i.setCall_of_none (congrArg SlotCall.holds hc) rfl⟩
  | @scan c j pool hc =>
    have hnone : (s.calls c).holds = none := congrArg SlotCall.holds hc
    by_cases htest : slotFree pool (s.sched.threads (pool.thread j)) (s.slots (pool.thread j)) = true
    · obtain ⟨hfree, hoff⟩ := hC pool j hc htest
      have i1 := i.take pool hnone hfree (i.idle_of_free htest hfree hoff)
      cases pool with
      | fork =>
        rw [scanSlot, if_pos htest]
        exact ⟨L, i1.setThread (SlotSched.calls_setCall_self _) (by simp)⟩
      | spawn =>
        rw [scanSlot, if_pos htest]
        exact ⟨L, i1⟩
    · have hscan : scanSlot s c pool j =
          s.setCall c (if j + 1 < poolSize then .scanning pool (j + 1) else .idle) := by
        cases pool <;> rw [scanSlot, if_neg htest]
      rw [hscan]
      refine ⟨L, i.setCall_of_none hnone ?_⟩
      split_ifs <;> rfl
  | @init c t pool hc =>
    have hholds : (s.calls c).holds = some t := congrArg SlotCall.holds hc
    have hidle : CallOk s L c (.taken pool t) := hc ▸ i.call c
    -- the thread is in no queue, so that its link was clear before
    have hnext : update s.sched.next t none = s.sched.next := by
      rw [Function.update_eq_self_iff]
      exact (i.run.lists.unlinked t fun k => hidle.still.free (.queue k)).symm
    have i1 := i.setHeld (x := ⟨.ready, initPriority s.sched c pool, 0, 0, 0, some 0⟩)
      (y := { s.slots t with magic := true }) hholds hidle (by simp) fun h => hc.symm ▸ h
    have hidle1 : Idle (s.sched.setThread t ⟨.ready, initPriority s.sched c pool, 0, 0, 0, some 0⟩) L t :=
      hidle.setThread (by simp)
    have hinit : initSlot s c pool t = (((s.setSched (s.sched.setThread t
        ⟨.ready, initPriority s.sched c pool, 0, 0, 0, some 0⟩)).setSlot t
        { s.slots t with magic := true }).setExit t .alive).setCall c (.inited t) := by
      rw [initSlot, hnext]
      rfl
    rw [hinit]
    refine ⟨L, (i1.setAlive hidle1).setCall_of_holds hholds ⟨hidle1, update_self _ _ _, ?_⟩
      (fun u hu => (Option.some.inj hu).symm) (update_self _ _ _)⟩
    have hslot : (update s.slots t { s.slots t with magic := true }) t =
        { s.slots t with magic := true } := update_self _ _ _
    exact congrArg ThreadSlot.magic hslot
  | @stack c t pages hc =>
    have hholds : (s.calls c).holds = some t := congrArg SlotCall.holds hc
    obtain ⟨hidle, halive, hmagic⟩ : CallOk s L c (.inited t) := hc ▸ i.call c
    rw [threadInitStack]
    split_ifs with hstack
    · have hslot : (update s.slots t { s.slots t with hasStack := true }) t = ⟨true, true⟩ := by
        rw [update_self]
        dsimp only
        rw [hmagic]
      have i1 := i.setHeld (x := { s.sched.threads t with runningCpu := none })
        (y := { s.slots t with hasStack := true }) hholds hidle hidle.still.awake fun h =>
          hc.symm ▸ ⟨h, halive, congrArg ThreadSlot.magic hslot⟩
      exact ⟨L, i1.setCall_of_holds hholds ⟨hidle.setThread fun _ => hidle.still.awake, halive, hslot⟩
        (fun u hu => (Option.some.inj hu).symm) halive⟩
    · -- the call fails: without a signature the slot is no longer `inited`
      have i1 := i.setCall_of_holds (x := .failing t) hholds ⟨hidle, halive⟩
        (fun u hu => (Option.some.inj hu).symm) halive
      have hself := SlotSched.calls_setCall_self (s := s) (c := c) (.failing t)
      exact ⟨L, i1.setHeld (congrArg SlotCall.holds hself) hidle (by simp) fun h => hself.symm ▸ ⟨h, halive⟩⟩
  | @add c t cpu hc ha hcpu =>
    have hholds : (s.calls c).holds = some t := congrArg SlotCall.holds hc
    obtain ⟨hidle, halive, hslot⟩ : CallOk s L c (.stacked t) := hc ▸ i.call c
    have hm : RunMoved s.sched L (.addStart c t cpu) (addStart s.sched c t cpu) L :=
      .addStart (fun k => hidle.still.free (.queue k)) hcpu
    have hrun : RunInv (addStart s.sched c t cpu) L :=
      ⟨i.run.lists.frame rfl rfl, i.run.hands.addStart hidle.still.free hidle.not_on⟩
    -- the call lets go of its slot while the thread is added
    have i1 : SlotInv (s.setCall c .idle) L := i.setCall_of_holds hholds trivial (by rintro _ ⟨⟩) halive
    have hfree : ∀ c', ((s.setCall c .idle).calls c').holds ≠ some t := by
      intro c' hc'
      by_cases he : c' = c
      · rw [he, SlotSched.calls_setCall_self] at hc'
        cases hc'
      · rw [SlotSched.calls_setCall_of_ne he] at hc'
        exact he (i.one c' c t hc' hholds)
    have i2 : SlotInv ((s.setCall c .idle).setSched (addStart s.sched c t cpu)) L := by
      refine i1.moved hm hrun ?_ (by simp) (by simp) fun c' u hc' => ?_
      · rintro u a cpu' ⟨⟩
        exact ⟨hslot, halive, hfree, by simp [addStart, added]⟩
      · exact update_of_ne (ne_of_setCall_idle hc') _ _
    have hadds : (addStart s.sched c t cpu).adds c = some (t, cpu) := update_self _ _ _
    have i3 : SlotInv (((s.setCall c .idle).setSched (addStart s.sched c t cpu)).setCall c (.adding t)) L := by
      refine i2.setCall ⟨congrArg (Option.map Prod.fst) hadds, halive⟩ (fun c' u _ hu => ?_) fun u hu => ?_
      · cases hu
        exact hfree c'
      · rw [SlotSched.setSched, SlotSched.calls_setCall_self] at hu
        cases hu
    refine ⟨L, ?_⟩
    rw [SlotSched.setCall, SlotSched.setSched, SlotSched.setCall, update_idem] at i3
    exact i3
  | @enqueue c t s' hc h =>
    obtain ⟨-, halive⟩ : CallOk s L c (.adding t) := hc ▸ i.call c
    have i1 : SlotInv (s.setCall c .idle) L :=
      i.setCall_of_holds (congrArg SlotCall.holds hc) trivial (by rintro _ ⟨⟩) halive
    have hfree : (RunOp.addEnqueue c).addsFree s.sched := trivial
    obtain ⟨L', hm, hrun⟩ := i.run.step hfree h
    refine ⟨L', i1.moved hm hrun (by simp) (by simp) (by simp) fun c' u hc' => ?_⟩
    cases hm with
    | addEnqueue ha => exact update_of_ne (ne_of_setCall_idle hc') _ _
  | @failHalt c r t hc hr =>
    have hholds : (s.calls c).holds = some t := congrArg SlotCall.holds hc
    obtain ⟨hidle, halive⟩ : CallOk s L c (.failing t) := hc ▸ i.call c
    have hm : RunMoved s.sched L (.removeStart r t) (removeStart s.sched r t) L := .removeStart
    have i1 : SlotInv (s.setSched (removeStart s.sched r t)) L := by
      refine i.moved hm ⟨i.run.lists.frame rfl rfl, i.run.hands.removeStart⟩ (by simp) ?_ (by simp) fun _ _ _ => rfl
      rintro u r' ⟨⟩
      exact hidle
    exact ⟨L, i1.setCall_of_holds hholds ⟨hidle.moved (by simp) hm, halive⟩
      (fun u hu => (Option.some.inj hu).symm) halive⟩
  | @failClear c r t hc hr =>
    have hholds : (s.calls c).holds = some t := congrArg SlotCall.holds hc
    obtain ⟨hidle, halive⟩ : CallOk s L c (.removing t r) := hc ▸ i.call c
    have i1 := i.setHeld (y := { s.slots t with magic := false }) hholds hidle
      hidle.still.awake fun h => hc.symm ▸ ⟨h, halive⟩
    rw [RunSched.setThread, update_eq_self] at i1
    exact ⟨L, i1.setCall_of_holds hholds trivial (by rintro _ ⟨⟩) halive⟩

/-- At the start nobody has begun anything. -/
lemma SlotStart.inv (h : SlotStart s) : SlotInv s fun _ => [] := by
  have hrun := h.sched.inv
  have hnone : ∀ c, (s.calls c).holds = none := fun c => congrArg SlotCall.holds (h.calls c)
  refine ⟨hrun, fun t => ?_, fun t ht => absurd (h.exits t) ht, fun c => callOk_of_none (hnone c),
    fun c _ t hc => absurd ((hnone c).symm.trans hc) nofun⟩
  by_cases hcur : ∃ k, (s.sched.cpus k).current = some t
  · obtain ⟨k, hk⟩ := hcur
    refine .inr (.inr ⟨h.current k t hk, ?_⟩)
    rw [(h.sched.current k t hk).1]
    exact nofun
  · by_cases hwait : (s.sched.threads t).state = .waiting
    · refine .inr (.inr ⟨h.waiting t hwait, ?_⟩)
      rw [hwait]
      exact nofun
    · push Not at hcur
      refine .inl ⟨⟨fun p hp => ?_, hwait, fun k hk => absurd hk (hcur k)⟩, ?_⟩
      · cases p with
        | queue k => cases hp
        | cpu k =>
          rw [QueuePlaced, h.sched.phase] at hp
          cases hp
        | wake w =>
          rw [QueuePlaced, h.sched.wakes] at hp
          cases hp
        | add a =>
          rw [QueuePlaced, h.sched.adds] at hp
          cases hp
      · rintro ⟨k, hk | hk⟩
        · exact hcur k hk
        · rw [h.sched.phase] at hk
          cases hk

end runs

/-- Runs from `s₀` each of whose steps satisfies `C` in the state it is taken in. -/
inductive SlotRun (C : SlotSched → SlotOp → Prop) (s₀ : SlotSched) : SlotSched → Prop
  | start : SlotRun C s₀ s₀
  | step {s s' : SlotSched} (op : SlotOp) (hrun : SlotRun C s₀ s) (hC : C s op) (hstep : SlotStep s op s') :
      SlotRun C s₀ s'

/-- **Reuse of thread slots.** In every run in which slots are taken when they are free, `sys_fork` and
`sys_spawn` clear a slot only while no CPU executes its thread. -/
theorem thread_slot_reuse {s₀ s s' : SlotSched} {c t : ℕ} {pool : Pool} (h₀ : SlotStart s₀)
    (h : SlotRun (fun s op => op.takesFree s) s₀ s) (hc : s.calls c = .taken pool t)
    (_hstep : SlotStep s (.init c) s') : ¬ s.sched.executing t := by
  have hinv : ∃ L, SlotInv s L := by
    clear hc _hstep
    induction h with
    | start => exact ⟨_, h₀.inv⟩
    | step op _ hC hstep ih =>
      obtain ⟨L, i⟩ := ih
      exact i.step hC hstep
  obtain ⟨L, i⟩ := hinv
  have hidle : CallOk s L c (.taken pool t) := hc ▸ i.call c
  exact hidle.off

/-! ## A thread that still exits -/

/-- Two CPUs; thread `512` runs on CPU `0` and thread `0`, from the pool of `sys_fork`, on CPU `1`. -/
def forkSched : SlotSched where
  sched := {
    threads := fun t => if t = 512 then ⟨.running, 32, 32, 32, 0, some 0⟩ else
      if t = 0 then ⟨.running, 32, 32, 32, 1, some 1⟩ else ⟨.stopped, 0, 0, 0, 0, some 0⟩
    next := fun _ => none
    runqs := fun _ => ⟨none, 0⟩
    cpus := fun k => ⟨k < 2, if k = 0 then some 512 else if k = 1 then some 0 else none, .running⟩
    totalCpus := 2
    wakes := fun _ => .idle
    adds := fun _ => none
    removals := fun _ => none }
  slots t := if t = 512 ∨ t = 0 then ⟨true, true⟩ else ⟨false, false⟩
  calls _ := .idle
  exits _ := .alive

lemma forkSched_start : SlotStart forkSched := by
  have hcurrent : ∀ k t, (forkSched.sched.cpus k).current = some t → (k = 0 ∧ t = 512) ∨ (k = 1 ∧ t = 0) := by
    intro k t h
    by_cases h0 : k = 0
    · rw [h0] at h
      exact .inl ⟨h0, (Option.some.inj h).symm⟩
    · by_cases h1 : k = 1
      · rw [h1] at h
        exact .inr ⟨h1, (Option.some.inj h).symm⟩
      · simp [forkSched, h0, h1] at h
  refine ⟨⟨fun _ => rfl, fun _ => rfl, fun _ => rfl, fun _ => rfl, fun _ => rfl, fun _ => rfl,
    fun k t h => ?_, by decide⟩, fun _ => rfl, fun _ => rfl, fun k t h => ?_, fun t h => ?_⟩
  · rcases hcurrent k t h with ⟨rfl, rfl⟩ | ⟨rfl, rfl⟩ <;> exact ⟨rfl, rfl, rfl⟩
  · rcases hcurrent k t h with ⟨rfl, rfl⟩ | ⟨rfl, rfl⟩ <;> rfl
  · simp only [forkSched] at h
    split_ifs at h

/-- Thread `512` calls `sys_fork`, and gets the second slot. -/
theorem thread_slot_reuse_fork : ∃ s s', SlotRun (fun s op => op.takesFree s) forkSched s ∧
    s.calls 512 = .taken .fork 1 ∧ SlotStep s (.init 512) s' ∧ ¬ s.sched.executing 1 := by
  have h1 : SlotRun (fun s op => op.takesFree s) forkSched _ :=
    .step (.enter 512 .fork) .start trivial (.enter rfl nofun)
  have h2 := h1.step (.scan 512) ?first (.scan rfl)
  have h3 := h2.step (.scan 512) ?second (.scan rfl)
  · exact ⟨_, _, h3, rfl, .init rfl, thread_slot_reuse (c := 512) forkSched_start h3 rfl (.init rfl)⟩
  case first =>
    rintro pool i hc htest
    obtain ⟨rfl, rfl⟩ := SlotCall.scanning.inj hc
    cases htest
  case second =>
    rintro pool i hc -
    obtain ⟨rfl, rfl⟩ := SlotCall.scanning.inj hc
    refine ⟨fun c hheld => ?_, .inr rfl⟩
    by_cases he : c = 512
    · rw [he] at hheld
      cases hheld
    · have hscan : scanSlot (forkSched.setCall 512 (.scanning .fork 0)) 512 .fork 0 =
          (forkSched.setCall 512 (.scanning .fork 0)).setCall 512 (.scanning .fork 1) := rfl
      rw [hscan, SlotSched.calls_setCall_of_ne he, SlotSched.calls_setCall_of_ne he] at hheld
      cases hheld

/-- **A slot is cleared under a thread that exits.** Thread `0` on CPU `1` has cleared its signature, and
runs on; thread `512` on CPU `0` calls `sys_fork`, which takes the slot. -/
theorem exitingThread_reinitialised : ∃ s s', SlotStart forkSched ∧
    SlotRun (fun _ _ => True) forkSched s ∧ s.calls 512 = .taken .fork 0 ∧ SlotStep s (.init 512) s' ∧
    s.sched.executing 0 := by
  have h1 : SlotRun (fun _ _ => True) forkSched _ := .step (.exitHalt 0 1) .start trivial (.exitHalt rfl rfl rfl rfl)
  have h2 := h1.step (.run (.removeLocked 0)) trivial (.run trivial nofun (.removeLocked 1 rfl rfl))
  have h3 := h2.step (.exitClear 1) trivial (.exitClear rfl rfl rfl rfl)
  have h4 := h3.step (.enter 512 .fork) trivial (.enter rfl nofun)
  have h5 := h4.step (.scan 512) trivial (.scan rfl)
  exact ⟨_, _, forkSched_start, h5, rfl, .init rfl, 1, .inl rfl⟩

end Chimera
