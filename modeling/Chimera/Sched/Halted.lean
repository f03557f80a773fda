import Chimera.Sched.RunQueue

/-!
# Removed threads

`scheduler_remove_thread` marks a thread as halted and takes it out of the queue of the CPU it is assigned
to. A thread that is then in no queue and in nobody's hands is not dispatched until it is added again
(`removed_not_dispatched`): a wake-up does not take a halted thread, and nothing else puts a thread back
that is not on a CPU (`Still`).

The call does not see a thread that is in no queue because another CPU has just taken it, and that CPU
dispatches it whatever its state is (`takenThread_dispatched`). The result is for the runs in which a
thread is within reach of the call that removes it (`RunOp.removesWhole`).
-/

namespace Chimera

open Lib

/-- **A thread that stays where it is**: it is at no spot, it does not wait for a wake-up, and if it is the
current one of a CPU, that CPU does not put it back when it yields. -/
structure Still (s : RunSched) (L : ℕ → List ℕ) (t : ℕ) : Prop where
  free : ∀ p, ¬ QueuePlaced s L t p
  awake : (s.threads t).state ≠ .waiting
  stops : ∀ k, (s.cpus k).current = some t → (s.threads t).state ≠ .running

/-! ## What keeps a thread still -/

section keeps

variable {s : RunSched} {L : ℕ → List ℕ} {k t u : ℕ}

section

variable (h : Still s L t)
include h

lemma Still.setThread {x : RunThread}
    (hx : u = t → x.state = (s.threads t).state ∨ x.state = .halted) : Still (s.setThread u x) L t := by
  have hstate : ((s.setThread u x).threads t).state = (s.threads t).state ∨
      ((s.setThread u x).threads t).state = .halted := by
    rw [RunSched.threads_setThread]
    split_ifs with htu
    · exact hx htu.symm
    · exact .inl rfl
  refine ⟨fun p hp => h.free p ((placed_setThread x).mp hp), ?_, fun k hk => ?_⟩
  · rcases hstate with e | e <;> rw [e]
    · exact h.awake
    · exact nofun
  · rcases hstate with e | e <;> rw [e]
    · exact h.stops k hk
    · exact nofun

lemma Still.setOther (hu : u ≠ t) (x : RunThread) : Still (s.setThread u x) L t :=
  h.setThread fun e => absurd e hu

lemma Still.setLinks (l : Links ℕ) (n : ℕ) : Still (s.setLinks k l n) L t :=
  ⟨fun p hp => h.free p ((placed_setLinks l n).mp hp), h.awake, h.stops⟩

lemma Still.setCpu {x : RunCpu} (hhand : x.phase.inHand ≠ some t)
    (hcur : x.current = some t → (s.cpus k).current = some t) : Still (s.setCpu k x) L t := by
  refine ⟨fun p hp => ?_, h.awake, fun j hj => ?_⟩
  · rcases placed_setCpu hp with ⟨-, hx⟩ | ⟨-, hp⟩
    · exact hhand hx
    · exact h.free p hp
  · rw [RunSched.cpus_setCpu] at hj
    split_ifs at hj
    · exact h.stops k (hcur hj)
    · exact h.stops j hj

/-- A CPU goes on with its current thread. -/
lemma Still.goto {p : CpuPhase} (hp : p.inHand ≠ some t) : Still (s.goto k p) L t := h.setCpu hp id

lemma Still.setWake {w : ℕ} {x : WakePhase} (hx : x.thread ≠ some t) :
    Still (s.setWake w x) L t := by
  refine ⟨fun p hp => ?_, h.awake, h.stops⟩
  rcases placed_setWake hp with ⟨-, hw⟩ | ⟨-, hp⟩
  · exact hx hw
  · exact h.free p hp

lemma Still.setAdd {a : ℕ} {x : Option (ℕ × ℕ)} (hx : x.map Prod.fst ≠ some t) :
    Still { s with adds := Function.update s.adds a x } L t := by
  refine ⟨fun p hp => ?_, h.awake, h.stops⟩
  rcases placed_setAdd hp with ⟨-, ha⟩ | ⟨-, hp⟩
  · exact hx ha
  · exact h.free p hp

lemma Still.setRemovals (f : ℕ → Option (ℕ × ℕ)) : Still { s with removals := f } L t :=
  ⟨fun p hp => h.free p ((placed_congr rfl rfl rfl).mp hp), h.awake, h.stops⟩

lemma Still.update {M : List ℕ} (hM : t ∉ M) : Still s (Function.update L k M) t := by
  refine ⟨fun p hp => ?_, h.awake, h.stops⟩
  rcases placed_update hp with ⟨-, ht⟩ | ⟨-, hp⟩
  · exact hM ht
  · exact h.free p hp

lemma Still.not_mem (k : ℕ) : t ∉ L k := h.free (.queue k)

/-- Another thread joins a queue. -/
lemma Still.joined {s' : RunSched} (hu : u ≠ t) : t ∉ joined s' (L k) u := by
  rw [mem_joined]
  rintro (rfl | ht)
  · exact hu rfl
  · exact h.not_mem k ht

/-- A thread at a spot is another one. -/
lemma Still.ne_of_placed {p : Spot} (hp : QueuePlaced s L u p) : u ≠ t := by
  rintro rfl
  exact h.free p hp

end

end keeps

/-! ## Steps -/

section steps

variable {s s' : RunSched} {L L' : ℕ → List ℕ} {t : ℕ} {op : RunOp} {k : ℕ}

lemma Still.yieldOld (h : Still s L t) (hold : YieldOld s L k s' L') : Still s' L' t := by
  cases hold with
  | idle _ => exact h
  | @back u hcur hrun l n =>
    have hu : u ≠ t := by
      rintro rfl
      exact h.stops k hcur hrun
    exact ((h.setOther hu _).setLinks l n).update (h.joined hu)
  | @away u hcur hrun =>
    refine h.setThread fun e => .inl ?_
    rw [e]
    rfl

lemma Still.yieldNew (h : Still s L t) (hnew : YieldNew s L k s' L') : Still s' L' t := by
  cases hnew with
  | empty _ => exact h.goto nofun
  | @taken th M hL l n =>
    have ht : t ∉ th :: M := hL ▸ h.not_mem k
    refine ((h.setLinks l n).update fun hM => ht (List.mem_cons_of_mem _ hM)).goto fun e => ht ?_
    rw [← Option.some.inj e]
    exact List.mem_cons_self

/-- The thread that a CPU has chosen is in its hands. -/
lemma placed_chosen (hphase : (s.cpus k).phase = .chosen (some t)) : QueuePlaced s L t (.cpu k) := by
  rw [QueuePlaced, hphase]
  rfl

lemma Still.dispatch (h : Still s L t) {k : ℕ} {new : Option ℕ} (hphase : (s.cpus k).phase = .chosen new) :
    Still (dispatch s k new) L t := by
  cases new with
  | none =>
    rw [Chimera.dispatch]
    split_ifs
    · exact h.goto (by rintro ⟨⟩)
    · exact h.setCpu (by rintro ⟨⟩) (by simp)
  | some u =>
    have hu : u ≠ t := h.ne_of_placed (placed_chosen hphase)
    rw [Chimera.dispatch]
    split_ifs
    · exact (h.setOther hu _).goto (by rintro ⟨⟩)
    · exact (h.setOther hu _).setCpu (by rintro ⟨⟩) fun e => absurd (Option.some.inj e) hu

lemma Still.wakeSwap (h : Still s L t) (w u : ℕ) : Still (wakeSwap s w u) L t := by
  rw [Chimera.wakeSwap]
  split_ifs with hwait
  · have hu : u ≠ t := by
      rintro rfl
      exact h.awake hwait
    exact (h.setOther hu _).setWake fun e => hu (Option.some.inj e)
  · exact h

/-- **A thread stays still** until it is added, or parks. -/
lemma Still.moved (h : Still s L t) (hadd : ∀ a cpu, op ≠ .addStart a t cpu)
    (hpark : ∀ k, op = .park k → (s.cpus k).current ≠ some t) (hm : RunMoved s L op s' L') :
    Still s' L' t := by
  cases hm with
  | yield _ hold hnew => exact (h.yieldOld hold).yieldNew hnew
  | @steal k victim th n M l hL =>
    have ht : t ∉ M ++ [th] := hL ▸ h.not_mem victim
    have hth : th ≠ t := by
      rintro rfl
      exact ht (List.mem_append_right _ (List.mem_singleton_self _))
    refine (((h.setLinks l n).update fun hM => ht (List.mem_append_left _ hM)).setOther hth _).goto ?_
    exact fun e => hth (Option.some.inj e)
  | noSteal | noVictim => exact h.goto nofun
  | dispatch hphase _ => exact h.dispatch hphase
  | @switched k old hphase =>
    cases old with
    | none => exact h.goto nofun
    | some u =>
      refine (h.setThread fun e => .inl ?_).goto nofun
      rw [e]
  | @park k u hphase hu =>
    refine (h.setThread fun e => ?_).goto nofun
    rw [e] at hu
    exact absurd hu (hpark k rfl)
  | wakeSwap => exact h.wakeSwap _ _
  | @wakeBoost w my u hmy hw =>
    have hu : u ≠ t := h.ne_of_placed (p := .wake w) (congrArg WakePhase.thread hw)
    exact (h.setOther hu _).setWake fun e => hu (Option.some.inj e)
  | @wakeEnqueue w u cpu n l hw =>
    have hu : u ≠ t := h.ne_of_placed (p := .wake w) (congrArg WakePhase.thread hw)
    exact ((h.setLinks l n).setWake (x := .idle) nofun).update (h.joined hu)
  | @addStart a u cpu hqueue hcpu =>
    have hu : u ≠ t := by
      rintro rfl
      exact hadd a cpu rfl
    exact (h.setOther hu _).setAdd fun e => hu (Option.some.inj e)
  | @addEnqueue a u cpu n l ha =>
    have hu : u ≠ t := h.ne_of_placed (p := .add a) (congrArg (Option.map Prod.fst) ha)
    exact ((h.setLinks l n).setAdd (x := none) nofun).update (h.joined hu)
  | removeStart => exact (h.setThread fun _ => .inr rfl).setRemovals _
  | @removeLocked r u cpu n l hr hcpu =>
    exact ((h.setLinks l n).setRemovals _).update fun ht => h.not_mem cpu (List.mem_of_mem_erase ht)
  | removeNothing _ _ => exact h.setRemovals _

lemma YieldOld.cpus (h : YieldOld s L k s' L') : s'.cpus = s.cpus := by cases h <;> rfl

/-- The thread that a CPU is switching away from. -/
def CpuPhase.leaves : CpuPhase → Option ℕ
  | .switching old => old
  | _ => none

/-- **What a step does to a CPU**: nothing, or it goes on with its current thread, or it switches to the one
it has chosen. -/
inductive CpuMove (c : RunCpu) : RunCpu → Prop
  | stay : CpuMove c c
  | goOn (p : CpuPhase) (hp : p.leaves = none) : CpuMove c { c with phase := p }
  | switch (new : Option ℕ) (h : c.phase = .chosen new) :
      CpuMove c { c with current := new, phase := .switching c.current }

lemma cpuMove_goto {p : CpuPhase} (hcpus : s'.cpus = s.cpus) (hp : p.leaves = none) (j k : ℕ) :
    CpuMove (s.cpus k) ((s'.goto j p).cpus k) := by
  rw [RunSched.cpus_goto, hcpus]
  split_ifs with hk
  · rw [hk]
    exact .goOn p hp
  · exact .stay

lemma cpuMove_dispatch {j : ℕ} {new : Option ℕ} (hphase : (s.cpus j).phase = .chosen new) (k : ℕ) :
    CpuMove (s.cpus k) ((dispatch s j new).cpus k) := by
  have hswitch : ∀ s1 : RunSched, s1.cpus = s.cpus → CpuMove (s.cpus k) ((s1.setCpu j
      { s.cpus j with current := new, phase := .switching (s.cpus j).current }).cpus k) := by
    intro s1 hs1
    rw [RunSched.cpus_setCpu, hs1]
    split_ifs with hk
    · rw [hk]
      exact .switch new hphase
    · exact .stay
  cases new with
  | none =>
    rw [dispatch]
    split_ifs
    · exact cpuMove_goto rfl rfl j k
    · exact hswitch s rfl
  | some u =>
    rw [dispatch]
    split_ifs
    · exact cpuMove_goto rfl rfl j k
    · exact hswitch _ rfl

lemma RunMoved.cpus (hm : RunMoved s L op s' L') (k : ℕ) : CpuMove (s.cpus k) (s'.cpus k) := by
  cases hm with
  | yield _ hold hnew =>
    cases hnew with
    | empty _ => exact cpuMove_goto hold.cpus rfl _ k
    | taken _ l n => exact cpuMove_goto hold.cpus rfl _ k
  | steal _ | noSteal | noVictim => exact cpuMove_goto rfl rfl _ k
  | dispatch hphase _ => exact cpuMove_dispatch hphase k
  | @switched j old hphase => cases old <;> exact cpuMove_goto rfl rfl _ k
  | park _ _ => exact cpuMove_goto rfl rfl _ k
  | @wakeSwap w u =>
    have hcpus : (Chimera.wakeSwap s w u).cpus = s.cpus := by
      rw [Chimera.wakeSwap]
      split_ifs <;> rfl
    rw [hcpus]
    exact .stay
  | wakeBoost | wakeEnqueue | addStart | addEnqueue | removeStart | removeLocked | removeNothing => exact .stay

/-- A CPU gets a current thread that it has chosen. -/
lemma RunMoved.current (hm : RunMoved s L op s' L') (h : (s'.cpus k).current = some t) :
    (s.cpus k).current = some t ∨ QueuePlaced s L t (.cpu k) := by
  generalize hc : s'.cpus k = c at h
  cases hc ▸ hm.cpus k with
  | stay => exact .inl h
  | goOn p _ => exact .inl h
  | switch new hphase =>
    obtain rfl : new = some t := h
    exact .inr (placed_chosen hphase)

/-- A CPU switches away from its current thread. -/
lemma RunMoved.leaves (hm : RunMoved s L op s' L') (h : (s'.cpus k).phase.leaves = some t) :
    (s.cpus k).phase.leaves = some t ∨ (s.cpus k).current = some t := by
  generalize hc : s'.cpus k = c at h
  cases hc ▸ hm.cpus k with
  | stay => exact .inl h
  | goOn p hp =>
    rw [hp] at h
    cases h
  | switch new hphase => exact .inr h

end steps

/-! ## Runs -/

/-- The call that removes thread `t` from the queue of CPU `cpu` reaches it: it does not wait for a wake-up,
it is in nobody's hands, and in no other queue. -/
def RunSched.withinReach (s : RunSched) (t cpu : ℕ) : Prop :=
  (s.threads t).state ≠ .waiting ∧ ¬ s.inHands t ∧ ∀ k, s.inQueue k t → k = cpu ∧ cpu < maxCpus

/-- **Whole removals**: a thread is added only when it is free, and a thread that is on no CPU is removed
only within reach. -/
def RunOp.removesWhole (s : RunSched) : RunOp → Prop
  | .removeLocked r => ∀ t cpu, s.removals r = some (t, cpu) → (∀ k, (s.cpus k).current ≠ some t) →
      s.withinReach t cpu
  | op => op.addsFree s

variable {s : RunSched} {L : ℕ → List ℕ}

lemma RunOp.removesWhole.addsFree {op : RunOp} (h : op.removesWhole s) : op.addsFree s := by
  cases op <;> first | exact h | exact trivial

/-- Some CPU can switch to a thread now. -/
def RunSched.dispatches (s : RunSched) (t : ℕ) : Prop :=
  ∃ k s', (s.cpus k).phase = .chosen (some t) ∧ RunStep s (.dispatch k) s'

/-- The lists of the queues at the end of a run. -/
lemma RunRun.inv {C : RunSched → RunOp → Prop} {s0 : RunSched} (hC : ∀ s op, C s op → op.addsFree s)
    (i : RunInv s0 L) (h : RunRun C s0 s) : ∃ L', RunInv s L' := by
  induction h with
  | start => exact ⟨L, i⟩
  | step op _ hop hstep ih =>
    obtain ⟨L', i'⟩ := ih
    obtain ⟨L'', -, i''⟩ := i'.step (hC _ _ hop) hstep
    exact ⟨L'', i''⟩

/-- **A thread within reach is gone** when the call that removes it returns. -/
lemma RunInv.removed {s' : RunSched} (i : RunInv s L) {r t cpu : ℕ}
    (hr : s.removals r = some (t, cpu)) (hoff : ∀ k, (s.cpus k).current ≠ some t)
    (hreach : s.withinReach t cpu) (h : RunStep s (.removeLocked r) s') :
    ∃ L', RunInv s' L' ∧ Still s' L' t ∧ ∀ k, (s'.cpus k).current ≠ some t := by
  obtain ⟨hawake, hhands, hqueue⟩ := hreach
  have hadds : (RunOp.removeLocked r).addsFree s := trivial
  obtain ⟨L', hm, i'⟩ := i.step hadds h
  have hfree : ∀ p, (∀ k, p ≠ .queue k) → ¬ QueuePlaced s L t p := by
    intro p hp hplaced
    cases p with
    | queue k => exact hp k rfl
    | cpu k => exact hhands (.inl ⟨k, hplaced⟩)
    | wake w => exact hhands (.inr (.inl ⟨w, hplaced⟩))
    | add a => exact hhands (.inr (.inr ⟨a, hplaced⟩))
  refine ⟨L', i', ?_⟩
  cases hm with
  | @removeLocked _ u c n l hr' hcpu =>
    obtain ⟨rfl, rfl⟩ := Prod.mk.inj (Option.some.inj (hr.symm.trans hr'))
    refine ⟨⟨fun p hp => ?_, hawake, fun k hk => absurd hk (hoff k)⟩, hoff⟩
    rcases placed_update ((placed_congr rfl rfl rfl).mp hp) with ⟨-, ht⟩ | ⟨hne, hp⟩
    · exact (i.lists.list cpu).nodup.not_mem_erase ht
    · refine hfree p (fun k e => hne ?_) hp
      rw [e] at hp ⊢
      rw [(hqueue k (i.lists.inQueue_iff.mpr hp)).1]
  | @removeNothing _ u c hr' hcpu =>
    obtain ⟨rfl, rfl⟩ := Prod.mk.inj (Option.some.inj (hr.symm.trans hr'))
    refine ⟨⟨fun p hp => ?_, hawake, fun k hk => absurd hk (hoff k)⟩, hoff⟩
    have hp' : QueuePlaced s L t p := (placed_congr rfl rfl rfl).mp hp
    refine hfree p (fun k e => ?_) hp'
    rw [e] at hp'
    exact absurd (hqueue k (i.lists.inQueue_iff.mpr hp')).2 (Nat.not_lt.mpr hcpu)

/-- **Halted threads never run.** In every run in which removals are whole: when `scheduler_remove_thread`
has returned for a thread that is on no CPU, no CPU dispatches it as long as it is not added again. -/
theorem removed_not_dispatched {s₀ s₁ s₂ s : RunSched} {r t cpu : ℕ} (h₀ : RunStart s₀)
    (h₁ : RunRun (fun s op => op.removesWhole s) s₀ s₁) (hr : s₁.removals r = some (t, cpu))
    (hoff : ∀ k, (s₁.cpus k).current ≠ some t) (hwhole : (RunOp.removeLocked r).removesWhole s₁)
    (hreturn : RunStep s₁ (.removeLocked r) s₂)
    (h₂ : RunRun (fun s op => op.removesWhole s ∧ ∀ a cpu, op ≠ .addStart a t cpu) s₂ s) :
    ¬ s.dispatches t := by
  obtain ⟨L1, i1⟩ := h₁.inv (fun _ _ h => h.addsFree) h₀.inv
  have hgone : ∃ L, RunInv s L ∧ Still s L t ∧ ∀ k, (s.cpus k).current ≠ some t := by
    induction h₂ with
    | start => exact i1.removed hr hoff (hwhole t cpu hr hoff) hreturn
    | step op _ hC hstep ih =>
      obtain ⟨L, i, hstill, hcur⟩ := ih
      obtain ⟨L', hm, i'⟩ := i.step hC.1.addsFree hstep
      refine ⟨L', i', hstill.moved hC.2 (fun k _ => hcur k) hm, fun k hk => ?_⟩
      rcases hm.current hk with hk | hk
      · exact hcur k hk
      · exact hstill.free _ hk
  obtain ⟨L, -, hstill, -⟩ := hgone
  rintro ⟨k, s', hphase, -⟩
  exact hstill.free (.cpu k) (placed_chosen hphase)

/-- Thread `2` is added and removed. -/
theorem removed_not_dispatched_boot : ∃ s₁ s₂, RunRun (fun s op => op.removesWhole s) bootSched s₁ ∧
    s₁.inQueue 0 2 ∧ RunStep s₁ (.removeLocked 0) s₂ ∧ ¬ s₂.dispatches 2 := by
  have h1 : RunRun (fun s op => op.removesWhole s) bootSched _ :=
    .step (.addStart 0 2 0) .start ⟨rfl, bootSched_free 2⟩
      (.addStart rfl (fun k => bootSched_inQueue k 2) (.inl rfl))
  have h2 := h1.step (.addEnqueue 0) trivial (.addEnqueue 1 rfl rfl)
  have h3 := h2.step (.removeStart 0 2) trivial (.removeStart rfl)
  refine ⟨_, _, h3, ⟨[2], ⟨rfl, rfl⟩, List.mem_singleton_self 2⟩, .removeLocked 1 rfl rfl, ?_⟩
  refine removed_not_dispatched (r := 0) bootSched_start h3 rfl (fun k => ?_) (fun t cpu hr _ => ?_)
    (.removeLocked 1 rfl rfl) .start
  · cases k <;> exact nofun
  · cases hr
    refine ⟨nofun, ?_, ?_⟩
    · rintro (⟨k, h⟩ | ⟨w, h⟩ | ⟨a, h⟩)
      · cases h
      · cases h
      · cases a <;> cases h
    · rintro k ⟨L, hL, ht⟩
      cases k with
      | zero => exact ⟨rfl, by decide⟩
      | succ k =>
        have hlist : L = [] := Chain.unique hL rfl
        rw [hlist] at ht
        cases ht

/-- **A thread that was taken is dispatched.** CPU `0` takes thread `2` out of its queue; before it switches
to it, a call removes the thread, finds it in no queue, and returns. -/
theorem takenThread_dispatched : ∃ s₁ s₂, RunStart bootSched ∧ RunRun (fun _ _ => True) bootSched s₁ ∧
    s₁.removals 0 = some (2, 0) ∧ (∀ k, (s₁.cpus k).current ≠ some 2) ∧
    RunStep s₁ (.removeLocked 0) s₂ ∧ s₂.dispatches 2 := by
  have h1 : RunRun (fun _ _ => True) bootSched _ :=
    .step (.addStart 0 2 0) .start trivial (.addStart rfl (fun k => bootSched_inQueue k 2) (.inl rfl))
  have h2 := h1.step (.addEnqueue 0) trivial (.addEnqueue 1 rfl rfl)
  have h3 := h2.step (.yield 0) trivial (.yield 2 (by decide) (.inl rfl) rfl)
  have h4 := h3.step (.removeStart 0 2) trivial (.removeStart rfl)
  refine ⟨_, _, bootSched_start, h4, rfl, fun k => ?_, .removeLocked 2 rfl rfl, 0, _, rfl, .dispatch rfl ?_⟩
  · cases k <;> exact nofun
  · intro t ht _
    cases ht
    rfl

end Chimera
