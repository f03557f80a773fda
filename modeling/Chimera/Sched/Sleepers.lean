import Chimera.Sched.WaitQueues

/-!
# Threads that sleep until a deadline

A thread that has registered a deadline must stay on the sleep list until it is woken: the timer looks
nowhere else. The list is linked through the same field as the wait queues, so a queue that sets the link
of a thread cuts the sleep list behind it (`earlyWakeup_forgets`). `no_sleeper_forgotten` is for the runs
in which a queue never sets the link of a thread that has another one behind it on the sleep list
(`SchedOp.linksFree`).
-/

namespace Chimera

open Lib
open Function (update update_self update_of_ne)
open Sched (calls_setCall next_setNext next_setCall threads_setThread state_setState setCall_threads)

/-! ## Runs -/

/-- The threads that have registered a deadline and have not been woken since. -/
def registeredAfter (s : Sched) (reg : ℕ → Bool) : SchedOp → ℕ → Bool
  | .threadSleep t _ | .sleepUntil _ t _ => update reg t true
  | .wake t => if (s.threads t).state = .waiting then update reg t false else reg
  | .wakeNext c => (s.calls c).waking.elim reg fun t =>
      if (s.threads t).state = .waiting then update reg t false else reg
  | _ => reg

/-- Runs from `s₀` each of whose steps satisfies `C` in the state it is taken in, with the threads that
are registered. -/
inductive SleeperRun (C : Sched → SchedOp → Prop) (s₀ : Sched) : Sched → (ℕ → Bool) → Prop
  | start : SleeperRun C s₀ s₀ fun _ => false
  | step {s s' : Sched} {reg : ℕ → Bool} (op : SchedOp) (on : ℕ → Option ℕ) {on' : ℕ → Option ℕ}
      (hrun : SleeperRun C s₀ s reg) (hC : C s op) (hstep : SchedStep s on op s' on') :
      SleeperRun C s₀ s' (registeredAfter s reg op)

/-- What a timer call has still to wake, after the thread it has just unlinked. -/
def Waker.timerRest (w : Waker) : Option ℕ := if w.call = .timer then w.rest else none

/-- The thread that a timer call has unlinked and not yet woken. -/
def Waker.timerWaking (w : Waker) : Option ℕ := if w.call = .timer then w.waking else none

namespace Sched

variable (s : Sched)

/-- A thread is reachable from `s_sleep_list`. -/
def onSleepList (t : ℕ) : Prop := ∃ L, Chain s.next s.sleepList L ∧ t ∈ L

/-- A thread is in the chain of the timer call `c`. -/
def inTimerChain (c t : ℕ) : Prop := ∃ E, Chain s.next (s.calls c).timerRest E ∧ t ∈ E

/-- The timer call `c` has still to wake a thread. -/
def heldByTimer (c t : ℕ) : Prop := s.inTimerChain c t ∨ (s.calls c).timerWaking = some t

/-- The link of a thread belongs to the sleep list or to a timer call. -/
def linkInUse (t : ℕ) : Prop := s.onSleepList t ∨ ∃ c, s.inTimerChain c t

/-- The link of a thread can be cleared: it is not in use, or the thread is the last one. -/
def clearable (t : ℕ) : Prop := s.linkInUse t → s.next t = none

end Sched

/-- **The links of sleepers are left alone**: a queue clears only links that can be cleared, it links
nothing behind a thread whose link is in use, and a thread goes on the sleep list only when it is in no
chain of the timer. -/
def SchedOp.linksFree (s : Sched) : SchedOp → Prop
  | .sleep q t => s.clearable t ∧ ∀ u, (s.queues q).tail = some u → ¬ s.linkInUse u
  | .sleepUntil q t _ => s.clearable t ∧ (∀ u, (s.queues q).tail = some u → ¬ s.linkInUse u) ∧
      ∀ c, ¬ s.inTimerChain c t
  | .threadSleep t _ => ∀ c, ¬ s.inTimerChain c t
  | .wakeupOne _ q => ∀ t, (s.queues q).head = some t → s.clearable t
  | .unlink c => (s.calls c).call = .wakeup → ∀ t, (s.calls c).rest = some t → s.clearable t
  | _ => True

/-! ## Walking the sleep list -/

/-- Only links of the threads `M` have changed, and the head of the sleep list. -/
structure Relinked (s s' : Sched) (M : List ℕ) : Prop where
  next : ∀ x, x ∉ M → s'.next x = s.next x
  state : ∀ x, (s'.threads x).state = (s.threads x).state
  deadline : ∀ x, (s'.threads x).sleepDeadline = (s.threads x).sleepDeadline
  calls : s'.calls = s.calls

section walk

variable {s s' : Sched} {A B M : List ℕ}

lemma Relinked.refl (s : Sched) (M : List ℕ) : Relinked s s M := ⟨fun _ _ => rfl, fun _ => rfl, fun _ => rfl, rfl⟩

lemma Relinked.trans {s'' : Sched} (h : Relinked s s' M) (h' : Relinked s' s'' M) : Relinked s s'' M :=
  ⟨fun x hx => (h'.next x hx).trans (h.next x hx), fun x => (h'.state x).trans (h.state x),
    fun x => (h'.deadline x).trans (h.deadline x), h'.calls.trans h.calls⟩

lemma Relinked.mono {M' : List ℕ} (h : Relinked s s' M) (hM : M ⊆ M') : Relinked s s' M' :=
  ⟨fun x hx => h.next x fun hm => hx (hM hm), h.state, h.deadline, h.calls⟩

lemma relinked_setNext {t : ℕ} (ht : t ∈ M) (n : Option ℕ) : Relinked s (s.setNext t n) M := by
  refine ⟨fun x hx => ?_, fun x => by simp, fun x => ?_, rfl⟩
  · rw [next_setNext, if_neg]
    rintro rfl
    exact hx ht
  · rw [Sched.setNext, threads_setThread]
    split_ifs with h
    · rw [h]
    · rfl

lemma relinked_setLink {pp : Option ℕ} (hpp : ∀ u, pp = some u → u ∈ M) (n : Option ℕ) :
    Relinked s (s.setLink pp n) M := by
  cases pp with
  | none => exact ⟨fun _ _ => rfl, fun _ => rfl, fun _ => rfl, rfl⟩
  | some u => exact relinked_setNext (hpp u rfl) n

/-- The link behind `A` leads to the rest. -/
lemma chain_getLink (h : Chain s.next s.sleepList (A ++ B)) : Chain s.next (s.getLink A.getLast?) B := by
  obtain rfl | ⟨a, y, rfl⟩ := List.eq_nil_or_concat' A
  · exact h
  · rw [List.getLast?_concat]
    rw [List.append_assoc, List.singleton_append] at h
    exact h.tail_of_mem

lemma chain_setLink {B' : List ℕ} {n : Option ℕ} (h : Chain s.next s.sleepList (A ++ B))
    (hn : Chain (s.setLink A.getLast? n).next n B') :
    Chain (s.setLink A.getLast? n).next (s.setLink A.getLast? n).sleepList (A ++ B') := by
  obtain rfl | ⟨a, y, rfl⟩ := List.eq_nil_or_concat' A
  · exact hn
  · rw [List.getLast?_concat] at hn ⊢
    rw [List.append_assoc, List.singleton_append] at h ⊢
    refine h.relink (fun z hz => ?_) ?_
    · rw [Sched.setLink, next_setNext, if_neg]
      rintro rfl
      exact List.disjoint_of_nodup_append h.nodup hz List.mem_cons_self
    · rw [Sched.setLink, next_setNext, if_pos rfl]
      exact hn

lemma mem_of_getLast? {u : ℕ} (h : A.getLast? = some u) : u ∈ A ++ B :=
  List.mem_append_left _ (List.mem_of_getLast? h)

variable {th n : ℕ}

/-- **A thread is taken out of the list**: `s'` is the state behind `*pp = th->th_wait_next`, and the link
of the thread is set. -/
lemma chain_unlink (h : Chain s.next s.sleepList (A ++ th :: B)) (n : Option ℕ) :
    Chain ((s.setLink A.getLast? (s.next th)).setNext th n).next
        ((s.setLink A.getLast? (s.next th)).setNext th n).sleepList (A ++ B) ∧
      Relinked s ((s.setLink A.getLast? (s.next th)).setNext th n) (A ++ th :: B) := by
  have hnd := h.nodup
  have hthA : th ∉ A := fun hA => List.disjoint_of_nodup_append hnd hA List.mem_cons_self
  have hthB : th ∉ B := (List.nodup_cons.mp hnd.of_append_right).1
  have hrel := relinked_setLink (s := s) (M := A ++ th :: B) (fun u hu => mem_of_getLast? hu) (s.next th)
  have hB : Chain (s.setLink A.getLast? (s.next th)).next (s.next th) B := by
    refine h.tail_of_mem.congr fun x hx => ?_
    have hxA : A.getLast? ≠ some x := fun e =>
      List.disjoint_of_nodup_append hnd (List.mem_of_getLast? e) (List.mem_cons_of_mem _ hx)
    cases hA : A.getLast? with
    | none => rfl
    | some u =>
      rw [Sched.setLink, next_setNext, if_neg]
      rintro rfl
      exact hxA hA
  refine ⟨(chain_setLink h hB).congr fun x hx => ?_, hrel.trans (relinked_setNext (by simp) n)⟩
  rw [next_setNext, if_neg]
  rintro rfl
  rcases List.mem_append.mp hx with hx | hx
  · exact hthA hx
  · exact hthB hx

lemma sleepListRemove_spec (hL : Chain s.next s.sleepList (A ++ B)) (hA : th ∉ A)
    (h : sleepListRemove th n A.getLast? s = some s') :
    Chain s'.next s'.sleepList ((A ++ B).erase th) ∧ Relinked s s' (A ++ B) := by
  induction n generalizing A B with
  | zero => cases h
  | succ n ih =>
    have hlink := chain_getLink hL
    rw [sleepListRemove] at h
    cases B with
    | nil =>
      rw [chain_nil.mp hlink] at h
      cases h
      rw [List.append_nil, List.erase_of_not_mem hA]
      rw [List.append_nil] at hL
      exact ⟨hL, .refl _ _⟩
    | cons c B =>
      rw [hlink.1] at h
      dsimp only at h
      split_ifs at h with hc
      · cases h
        subst hc
        rw [List.erase_append_right _ hA, List.erase_cons_head]
        exact chain_unlink hL none
      · have hsplit : A ++ c :: B = A ++ [c] ++ B := by simp
        rw [hsplit] at hL ⊢
        refine ih hL (by simpa [hA] using Ne.symm hc) ?_
        rwa [List.getLast?_concat]

/-- **The loop of the timer** takes the threads whose deadline has passed. -/
lemma timerScan_spec {now : ℕ} {expired : Option ℕ} {X : List ℕ} {r : Option ℕ × Sched}
    (hL : Chain s.next s.sleepList (A ++ B)) (hX : Chain s.next expired X) (hdis : (A ++ B).Disjoint X)
    (h : timerScan now n A.getLast? expired s = some r) :
    Chain r.2.next r.2.sleepList
        (A ++ B.filter fun x => !deadlinePassed (s.threads x).sleepDeadline now) ∧
      Chain r.2.next r.1 ((B.filter fun x => deadlinePassed (s.threads x).sleepDeadline now).reverse ++ X) ∧
      Relinked s r.2 (A ++ B) := by
  induction n generalizing s A B expired X with
  | zero => cases h
  | succ n ih =>
    have hlink := chain_getLink hL
    rw [timerScan] at h
    cases B with
    | nil =>
      rw [chain_nil.mp hlink] at h
      cases h
      exact ⟨hL, hX, .refl _ _⟩
    | cons th B =>
      rw [hlink.1] at h
      dsimp only at h
      split_ifs at h with hd
      · -- the thread goes over to the chain of the expired ones
        obtain ⟨hL', hrel⟩ := chain_unlink hL expired
        have hX' : Chain ((s.setLink A.getLast? (s.next th)).setNext th expired).next (some th)
            (th :: X) := by
          refine ⟨rfl, ?_⟩
          rw [next_setNext, if_pos rfl]
          exact hX.congr fun x hx => hrel.next x fun hm => hdis hm hx
        have hdis' : (A ++ B).Disjoint (th :: X) := by
          have hnd := hL.nodup
          rw [List.nodup_middle, List.nodup_cons] at hnd
          rw [List.disjoint_cons_right]
          exact ⟨hnd.1, fun x hx => hdis (by
            rcases List.mem_append.mp hx with hx | hx <;> simp [hx])⟩
        obtain ⟨h1, h2, h3⟩ := ih hL' hX' hdis' h
        simp only [hrel.deadline] at h1 h2
        refine ⟨?_, ?_, hrel.trans (h3.mono fun x hx => ?_)⟩
        · rwa [List.filter_cons_of_neg (by simp [hd])]
        · rw [List.filter_cons_of_pos (by simpa using hd), List.reverse_cons, List.append_assoc]
          exact h2
        · rcases List.mem_append.mp hx with hx | hx <;> simp [hx]
      · have hsplit : A ++ th :: B = A ++ [th] ++ B := by simp
        rw [hsplit] at hL hdis ⊢
        obtain ⟨h1, h2, h3⟩ := ih hL hX hdis (by rwa [List.getLast?_concat])
        refine ⟨?_, ?_, h3⟩
        · rw [List.filter_cons_of_pos (by simp [hd])]
          simpa using h1
        · rwa [List.filter_cons_of_neg (by simpa using hd)]

/-- The loop of the timer ends. -/
lemma timerScan_isSome (now : ℕ) (expired : Option ℕ) (hL : Chain s.next s.sleepList (A ++ B))
    (hn : B.length < n) : ∃ r, timerScan now n A.getLast? expired s = some r := by
  induction n generalizing s A B expired with
  | zero => omega
  | succ n ih =>
    have hlink := chain_getLink hL
    rw [timerScan]
    cases B with
    | nil =>
      rw [chain_nil.mp hlink]
      exact ⟨_, rfl⟩
    | cons th B =>
      rw [hlink.1]
      dsimp only
      rw [List.length_cons] at hn
      split_ifs
      · exact ih (some th) (chain_unlink hL expired).1 (by omega)
      · have hsplit : A ++ th :: B = A ++ [th] ++ B := by simp
        rw [hsplit] at hL
        have hrec := ih expired hL (by omega)
        rwa [List.getLast?_concat] at hrec

end walk

/-! ## The invariant -/

/-- **The invariant of the sleepers**: the sleep list is `L`, the timer call `c` has still to unlink `E c`,
and every registered thread waits and is at one of these places. -/
structure SleepInv (s : Sched) (reg : ℕ → Bool) (L : List ℕ) (E : ℕ → List ℕ) : Prop where
  list : Chain s.next s.sleepList L
  chain : ∀ c, Chain s.next (s.calls c).timerRest (E c)
  apart : ∀ c, L.Disjoint (E c)
  calls_apart : ∀ c c', c ≠ c' → (E c).Disjoint (E c')
  waiting : ∀ t, reg t = true → (s.threads t).state = .waiting
  place : ∀ t, reg t = true → t ∈ L ∨ ∃ c, t ∈ E c ∨ (s.calls c).timerWaking = some t

section steps

variable {s s' : Sched} {reg reg' : ℕ → Bool} {L : List ℕ} {E : ℕ → List ℕ} {t c u q d fuel : ℕ}

lemma SleepInv.onSleepList_iff (i : SleepInv s reg L E) : s.onSleepList t ↔ t ∈ L := by
  constructor
  · rintro ⟨L', hL', ht⟩
    rwa [i.list.unique hL']
  · exact fun ht => ⟨L, i.list, ht⟩

lemma SleepInv.inTimerChain_iff (i : SleepInv s reg L E) : s.inTimerChain c t ↔ t ∈ E c := by
  constructor
  · rintro ⟨E', hE', ht⟩
    rwa [(i.chain c).unique hE']
  · exact fun ht => ⟨E c, i.chain c, ht⟩

lemma SleepInv.linkInUse_iff (i : SleepInv s reg L E) : s.linkInUse t ↔ t ∈ L ∨ ∃ c, t ∈ E c := by
  rw [Sched.linkInUse, i.onSleepList_iff]
  simp only [i.inTimerChain_iff]

/-- **Frame.** No link that is in use changes. -/
lemma SleepInv.frame (i : SleepInv s reg L E) (hnext : ∀ t, s.linkInUse t → s'.next t = s.next t)
    (hlist : s'.sleepList = s.sleepList)
    (hrest : ∀ c, (s'.calls c).timerRest = (s.calls c).timerRest)
    (hwaking : ∀ c, (s'.calls c).timerWaking = (s.calls c).timerWaking)
    (hreg : ∀ t, reg' t = true → reg t = true ∧ (s'.threads t).state = (s.threads t).state) :
    SleepInv s' reg' L E := by
  have huse : ∀ t, (t ∈ L ∨ ∃ c, t ∈ E c) → s'.next t = s.next t := fun t ht => hnext t (i.linkInUse_iff.mpr ht)
  refine ⟨?_, fun c => ?_, i.apart, i.calls_apart, fun t ht => ?_, fun t ht => ?_⟩
  · rw [hlist]
    exact i.list.congr fun x hx => huse x (.inl hx)
  · rw [hrest]
    exact (i.chain c).congr fun x hx => huse x (.inr ⟨c, hx⟩)
  · rw [(hreg t ht).2]
    exact i.waiting t (hreg t ht).1
  · simp only [hwaking]
    exact i.place t (hreg t ht).1

/-- Clearing a link that can be cleared changes no link in use. -/
lemma next_of_clearable (ht : s.clearable t) (hu : s.linkInUse u) :
    (if u = t then none else s.next u) = s.next u := by
  split_ifs with h
  · rw [h] at hu ⊢
    exact (ht hu).symm
  · rfl

lemma waitQueueSleep_next_inUse (ht : s.clearable t)
    (htail : ∀ u, (s.queues q).tail = some u → ¬ s.linkInUse u) (hu : s.linkInUse u) :
    (waitQueueSleep s q t).next u = s.next u := by
  by_cases hut : u = t
  · rw [hut] at hu ⊢
    have hne : (s.queues q).tail ≠ some t := fun h => htail t h hu
    rw [ht hu]
    unfold waitQueueSleep
    cases h : (s.queues q).tail with
    | none => simp [Sched.next, threads_setThread]
    | some y =>
      have hty : t ≠ y := fun e => hne (e ▸ h)
      rw [Sched.next_setQueue, next_setNext, if_neg hty, Sched.next, threads_setThread, if_pos rfl]
  · exact waitQueueSleep_next hut fun h => htail u h hu

section

variable (i : SleepInv s reg L E)
include i

lemma SleepInv.sleep (hrun : (s.threads t).state = .running)
    (ht : s.clearable t) (htail : ∀ u, (s.queues q).tail = some u → ¬ s.linkInUse u) :
    SleepInv (waitQueueSleep s q t) reg L E := by
  refine i.frame (fun u hu => waitQueueSleep_next_inUse ht htail hu) waitQueueSleep_sleepList
    (fun c => by rw [waitQueueSleep_calls]) (fun c => by rw [waitQueueSleep_calls]) fun u hu => ⟨hu, ?_⟩
  apply waitQueueSleep_state_of_ne
  rintro rfl
  rw [i.waiting u hu] at hrun
  cases hrun

lemma SleepInv.register (hchain : ∀ c, t ∉ E c)
    (h : threadSleepListAdd fuel s t d = some s') :
    Chain s'.next s'.sleepList (t :: L.erase t) ∧ (∀ c, Chain s'.next (s'.calls c).timerRest (E c)) ∧
      s'.calls = s.calls ∧ ∀ x, (s'.threads x).state = (s.threads x).state := by
  obtain ⟨s1, h1, rfl⟩ := Option.map_eq_some_iff.mp h
  obtain ⟨hL, hrel⟩ := sleepListRemove_spec i.list List.not_mem_nil h1
  rw [List.nil_append] at hL hrel
  have hnext : ∀ x, x ≠ t → Sched.next { s1.setThread t
      { s1.threads t with sleepDeadline := d, waitNext := s1.sleepList } with sleepList := some t } x =
      s1.next x := by
    intro x hx
    exact congrArg Thread.waitNext (update_of_ne hx _ _)
  refine ⟨⟨rfl, ?_⟩, fun c => ?_, hrel.calls, fun x => ?_⟩
  · rw [Sched.next]
    simp only [threads_setThread, if_pos]
    refine hL.congr fun x hx => hnext x ?_
    rintro rfl
    exact i.list.nodup.not_mem_erase hx
  · have hcalls : (s1.calls c) = s.calls c := by rw [hrel.calls]
    refine ((hcalls ▸ i.chain c : Chain s.next (s1.calls c).timerRest (E c))).congr fun x hx => ?_
    rw [hnext x fun e => hchain c (e ▸ hx)]
    exact hrel.next x fun hxL => i.apart c hxL hx
  · refine Eq.trans ?_ (hrel.state x)
    simp only [threads_setThread]
    split_ifs with hx
    · rw [hx]
    · rfl

lemma SleepInv.registered (hchain : ∀ c, t ∉ E c)
    (hL : Chain s'.next s'.sleepList (t :: L.erase t))
    (hE : ∀ c, Chain s'.next (s'.calls c).timerRest (E c)) (hcalls : s'.calls = s.calls)
    (hself : (s'.threads t).state = .waiting)
    (hstate : ∀ x, x ≠ t → (s'.threads x).state = (s.threads x).state) :
    SleepInv s' (update reg t true) (t :: L.erase t) E := by
  have hreg : ∀ {x}, x ≠ t → update reg t true x = true → reg x = true := by
    intro x hx h
    rwa [update_of_ne hx] at h
  refine ⟨hL, hE, fun c => ?_, i.calls_apart, fun x hx => ?_, fun x hx => ?_⟩
  · rw [List.disjoint_cons_left]
    exact ⟨hchain c, fun x hx => i.apart c (List.mem_of_mem_erase hx)⟩
  · by_cases hxt : x = t
    · rw [hxt, hself]
    · rw [hstate x hxt]
      exact i.waiting x (hreg hxt hx)
  · by_cases hxt : x = t
    · exact .inl (hxt ▸ List.mem_cons_self)
    · rw [hcalls]
      rcases i.place x (hreg hxt hx) with hxL | hxc
      · exact .inl (List.mem_cons_of_mem _ ((List.mem_erase_of_ne hxt).mpr hxL))
      · exact .inr hxc

lemma SleepInv.threadSleep (hchain : ∀ c, ¬ s.inTimerChain c t)
    (h : threadSleepUntil fuel s t d = some s') :
    SleepInv s' (update reg t true) (t :: L.erase t) E := by
  have hE : ∀ c, t ∉ E c := fun c hc => hchain c (i.inTimerChain_iff.mpr hc)
  obtain ⟨s1, h1, rfl⟩ := Option.map_eq_some_iff.mp h
  obtain ⟨hL, hchains, hcalls, hstate⟩ := i.register hE h1
  refine i.registered hE (hL.congr fun x _ => by simp)
    (fun c => (hchains c).congr fun x _ => by simp) hcalls (by simp) fun x hx => ?_
  rw [state_setState, if_neg hx, hstate x]

lemma SleepInv.sleepUntil (hrun : (s.threads t).state = .running) (ht : s.clearable t)
    (htail : ∀ u, (s.queues q).tail = some u → ¬ s.linkInUse u) (hchain : ∀ c, ¬ s.inTimerChain c t)
    (h : waitQueueSleepUntilIrqrestore fuel s q t d = some s') :
    SleepInv s' (update reg t true) (t :: L.erase t) E := by
  have hE : ∀ c, t ∉ E c := fun c hc => hchain c (i.inTimerChain_iff.mpr hc)
  have i1 := i.sleep hrun ht htail
  obtain ⟨hL, hchains, hcalls, hstate⟩ := i1.register hE h
  refine i1.registered hE hL hchains hcalls ?_ fun x _ => hstate x
  rw [hstate t, waitQueueSleep_state_self]

end

/-- A call that is over holds no thread. -/
lemma Waker.idle.timer {w : Waker} (h : w.idle) : w.timerRest = none ∧ w.timerWaking = none := by
  rw [timerRest, timerWaking, h.1, h.2]
  exact ⟨ite_self _, ite_self _⟩

/-- A call on a queue begins: it holds nothing for the timer. -/
lemma timer_setCall_wakeup (hc : (s.calls c).idle) (w r : Option ℕ) (c' : ℕ) :
    ((s.setCall c ⟨.wakeup, w, r⟩).calls c').timerRest = (s.calls c').timerRest ∧
      ((s.setCall c ⟨.wakeup, w, r⟩).calls c').timerWaking = (s.calls c').timerWaking := by
  rw [calls_setCall]
  split_ifs with h
  · rw [h, hc.timer.1, hc.timer.2]
    exact ⟨rfl, rfl⟩
  · exact ⟨rfl, rfl⟩

section

variable (i : SleepInv s reg L E) (hc : (s.calls c).idle)
include i hc

lemma SleepInv.wakeupOne (hq : ∀ t, (s.queues q).head = some t → s.clearable t) :
    SleepInv (waitQueueWakeupOne s c q) reg L E := by
  rw [waitQueueWakeupOne]
  cases hhead : (s.queues q).head with
  | none => exact i
  | some th =>
    refine i.frame (fun u hu => ?_) rfl (fun c' => ?_) (fun c' => ?_) fun u hu => ⟨hu, by simp⟩
    · rw [next_setCall, next_setNext, Sched.next_setQueue]
      exact next_of_clearable (hq th hhead) hu
    · exact (timer_setCall_wakeup hc (some th) none c').1
    · exact (timer_setCall_wakeup hc (some th) none c').2

lemma SleepInv.wakeupAll :
    SleepInv (waitQueueWakeupAll s c q) reg L E :=
  i.frame (fun _ _ => rfl) rfl (fun c' => (timer_setCall_wakeup hc none _ c').1)
    (fun c' => (timer_setCall_wakeup hc none _ c').2) fun _ hu => ⟨hu, rfl⟩

/-- **The locked part of the timer.** -/
lemma SleepInv.timer {now : ℕ} (h : timerWakeSleepers fuel s c now = some s') :
    SleepInv s' reg (L.filter fun x => !deadlinePassed (s.threads x).sleepDeadline now)
      (update E c (L.filter fun x => deadlinePassed (s.threads x).sleepDeadline now).reverse) ∧
      (s'.calls c).call = .timer := by
  obtain ⟨r, hr, rfl⟩ := Option.map_eq_some_iff.mp h
  obtain ⟨hL, hX, hrel⟩ := timerScan_spec (A := []) (X := []) i.list rfl
    (List.disjoint_nil_right _) hr
  rw [List.nil_append] at hL hrel
  rw [List.append_nil] at hX
  have hEc : E c = [] := by
    have hchain := i.chain c
    rw [hc.timer.1] at hchain
    exact hchain.unique (chain_nil.mpr rfl)
  have hsplit : ∀ {x}, x ∈ (L.filter fun x => deadlinePassed (s.threads x).sleepDeadline now).reverse →
      x ∈ L := fun hx => (List.mem_filter.mp (List.mem_reverse.mp hx)).1
  refine ⟨⟨hL, fun c' => ?_, fun c' => ?_, fun c1 c2 hne => ?_, fun t ht => ?_, fun t ht => ?_⟩, by simp⟩
  · rw [calls_setCall]
    split_ifs with hcc
    · rw [hcc, update_self]
      exact hX
    · rw [update_of_ne hcc, hrel.calls]
      exact (i.chain c').congr fun x hx => hrel.next x fun hxL => i.apart c' hxL hx
  · intro x hx hx'
    obtain ⟨hxL, hxd⟩ := List.mem_filter.mp hx
    by_cases hcc : c' = c
    · rw [hcc, update_self, List.mem_reverse, List.mem_filter] at hx'
      simp [hx'.2] at hxd
    · rw [update_of_ne hcc] at hx'
      exact i.apart c' hxL hx'
  · intro x hx hx'
    by_cases h1 : c1 = c
    · rw [h1, update_self] at hx
      rw [update_of_ne (h1 ▸ hne.symm)] at hx'
      exact i.apart c2 (hsplit hx) hx'
    · rw [update_of_ne h1] at hx
      by_cases h2 : c2 = c
      · rw [h2, update_self] at hx'
        exact i.apart c1 (hsplit hx') hx
      · rw [update_of_ne h2] at hx'
        exact i.calls_apart c1 c2 hne hx hx'
  · rw [setCall_threads, hrel.state]
    exact i.waiting t ht
  · rcases i.place t ht with htL | ⟨c', htc⟩
    · by_cases hd : deadlinePassed (s.threads t).sleepDeadline now = true
      · refine .inr ⟨c, .inl ?_⟩
        rw [update_self, List.mem_reverse, List.mem_filter]
        exact ⟨htL, hd⟩
      · exact .inl (List.mem_filter.mpr ⟨htL, by simpa using hd⟩)
    · have hcc : c' ≠ c := by
        rintro rfl
        rw [hEc, hc.timer.2] at htc
        simp at htc
      refine .inr ⟨c', ?_⟩
      rw [update_of_ne hcc, calls_setCall, if_neg hcc, hrel.calls]
      exact htc

end

/-- **A round of a call, first half.** -/
lemma SleepInv.unlink (i : SleepInv s reg L E)
    (hC : (s.calls c).call = .wakeup → ∀ t, (s.calls c).rest = some t → s.clearable t) :
    ∃ E', SleepInv (unlinkNext s c) reg L E' := by
  unfold unlinkNext
  split
  next th hw hr =>
    cases hcall : (s.calls c).call with
    | wakeup =>
      refine ⟨E, i.frame (fun u hu => ?_) rfl (fun c' => ?_) (fun c' => ?_) fun u hu => ⟨hu, by simp⟩⟩
      · rw [next_setCall, next_setNext]
        exact next_of_clearable (hC hcall th hr) hu
      · rw [calls_setCall]
        split_ifs with h
        · simp [Waker.timerRest, h, hcall]
        · rfl
      · rw [calls_setCall]
        split_ifs with h
        · simp [Waker.timerWaking, h, hcall]
        · rfl
    | timer =>
      have hchain := i.chain c
      rw [Waker.timerRest, if_pos hcall, hr] at hchain
      -- the chain of the call begins with the thread it unlinks
      cases hEc : E c with
      | nil =>
        rw [hEc] at hchain
        cases hchain
      | cons x D =>
        rw [hEc] at hchain
        obtain ⟨hx, hD⟩ := hchain
        cases hx
        have hnd : (th :: D).Nodup := hEc ▸ (i.chain c).nodup
        have hsub : ∀ {c' u}, u ∈ update E c D c' → u ∈ E c' ∧ u ≠ th := by
          intro c' u hu
          by_cases hcc : c' = c
          · rw [hcc, update_self] at hu
            rw [hcc, hEc]
            exact ⟨List.mem_cons_of_mem _ hu, fun e => (List.nodup_cons.mp hnd).1 (e ▸ hu)⟩
          · rw [update_of_ne hcc] at hu
            refine ⟨hu, ?_⟩
            rintro rfl
            exact i.calls_apart c' c hcc hu (hEc ▸ List.mem_cons_self)
        have hnext : ∀ {u}, u ≠ th → ((s.setNext th none).setCall c
            { s.calls c with waking := some th, rest := s.next th }).next u = s.next u := by
          intro u hu
          rw [next_setCall, next_setNext, if_neg hu]
        refine ⟨update E c D, ?_, fun c' => ?_, fun c' u hu hu' => ?_,
          fun c1 c2 hne u hu hu' => ?_, fun t ht => ?_, fun t ht => ?_⟩
        · refine i.list.congr fun u hu => hnext ?_
          rintro rfl
          exact i.apart c hu (hEc ▸ List.mem_cons_self)
        · rw [calls_setCall]
          split_ifs with hcc
          · rw [hcc, update_self, Waker.timerRest, if_pos hcall]
            refine hD.congr fun u hu => hnext ?_
            rintro rfl
            exact (List.nodup_cons.mp hnd).1 hu
          · rw [update_of_ne hcc]
            refine (i.chain c').congr fun u hu => hnext ?_
            rintro rfl
            exact i.calls_apart c' c hcc hu (hEc ▸ List.mem_cons_self)
        · exact i.apart c' hu (hsub hu').1
        · exact i.calls_apart c1 c2 hne (hsub hu).1 (hsub hu').1
        · rw [setCall_threads, Sched.state_setNext]
          exact i.waiting t ht
        · rcases i.place t ht with htL | ⟨c', htc⟩
          · exact .inl htL
          · by_cases hcc : c' = c
            · rw [hcc, hEc, Waker.timerWaking, if_pos hcall, hw] at htc
              refine .inr ⟨c, ?_⟩
              rw [update_self, calls_setCall, if_pos rfl, Waker.timerWaking, if_pos hcall]
              rcases htc with htc | htc
              · rcases List.mem_cons.mp htc with rfl | htD
                · exact .inr rfl
                · exact .inl htD
              · cases htc
            · refine .inr ⟨c', ?_⟩
              rw [update_of_ne hcc, calls_setCall, if_neg hcc]
              exact htc
  next => exact ⟨E, i⟩

/-- A wake-up changes no link. -/
lemma next_threadWake : (threadWake s t).next u = s.next u := by
  rw [threadWake]
  split_ifs
  · simp
  · rfl

lemma threadWake_frame (t : ℕ) : (threadWake s t).sleepList = s.sleepList ∧ (threadWake s t).calls = s.calls := by
  rw [threadWake]
  split_ifs <;> exact ⟨rfl, rfl⟩

lemma state_threadWake_of_ne (hu : u ≠ t) : ((threadWake s t).threads u).state = (s.threads u).state := by
  rw [threadWake]
  split_ifs
  · rw [state_setState, if_neg hu]
  · rfl

/-- What is registered after a wake-up: not the thread itself, if it was. -/
lemma SleepInv.registered_wake (i : SleepInv s reg L E)
    (hu : (if (s.threads t).state = .waiting then update reg t false else reg) u = true) :
    u ≠ t ∧ reg u = true := by
  split_ifs at hu with hw
  · have hut : u ≠ t := by
      rintro rfl
      simp at hu
    rw [update_of_ne hut] at hu
    exact ⟨hut, hu⟩
  · refine ⟨?_, hu⟩
    rintro rfl
    exact hw (i.waiting u hu)

lemma SleepInv.wake (i : SleepInv s reg L E) (t : ℕ) : SleepInv (threadWake s t)
      (if (s.threads t).state = .waiting then update reg t false else reg) L E := by
  refine i.frame (fun _ _ => next_threadWake) (threadWake_frame t).1
    (fun c => by rw [(threadWake_frame t).2]) (fun c => by rw [(threadWake_frame t).2]) fun u hu => ?_
  obtain ⟨hut, hreg⟩ := i.registered_wake hu
  exact ⟨hreg, state_threadWake_of_ne hut⟩

/-- **A round of a call, second half.** -/
lemma SleepInv.wakeNext (i : SleepInv s reg L E) (c : ℕ) :
    SleepInv (wakeUnlinked s c) (registeredAfter s reg (.wakeNext c)) L E := by
  rw [wakeUnlinked, registeredAfter]
  cases hw : (s.calls c).waking with
  | none => exact i
  | some th =>
    have i1 := i.wake th
    refine ⟨i1.list.congr fun _ _ => rfl, fun c' => ?_, i.apart, i.calls_apart, i1.waiting, fun t ht => ?_⟩
    · have hrest : (((threadWake s th).setCall c { s.calls c with waking := none }).calls c').timerRest =
          ((threadWake s th).calls c').timerRest := by
        rw [calls_setCall, (threadWake_frame th).2]
        split_ifs with hcc
        · rw [hcc]
          rfl
        · rfl
      rw [hrest]
      exact (i1.chain c').congr fun _ _ => rfl
    · obtain ⟨hne, hreg⟩ := i.registered_wake ht
      rcases i.place t hreg with htL | ⟨c', htc⟩
      · exact .inl htL
      · refine .inr ⟨c', ?_⟩
        rw [calls_setCall]
        split_ifs with hcc
        · rcases htc with htc | htc
          · exact .inl htc
          · -- the thread that is woken is another one
            rw [hcc, Waker.timerWaking, hw] at htc
            split_ifs at htc
            exact absurd (Option.some.inj htc).symm hne
        · rw [(threadWake_frame th).2]
          exact htc

lemma SleepInv.step (i : SleepInv s reg L E) {op : SchedOp} {on on' : ℕ → Option ℕ}
    (hC : op.linksFree s) (h : SchedStep s on op s' on') :
    ∃ L' E', SleepInv s' (registeredAfter s reg op) L' E' := by
  cases h with
  | sleep ht => exact ⟨L, E, i.sleep ht hC.1 hC.2⟩
  | sleepUntil ht hs => exact ⟨_, E, i.sleepUntil ht hC.1 hC.2.1 hC.2.2 hs⟩
  | threadSleep ht hs => exact ⟨_, E, i.threadSleep hC hs⟩
  | wakeupOne hc => exact ⟨L, E, i.wakeupOne hc hC⟩
  | wakeupAll hc => exact ⟨L, E, i.wakeupAll hc⟩
  | timer hc hs => exact ⟨_, _, (i.timer hc hs).1⟩
  | unlink =>
    obtain ⟨E', i'⟩ := i.unlink hC
    exact ⟨L, E', i'⟩
  | wakeNext => exact ⟨L, E, i.wakeNext _⟩
  | wake => exact ⟨L, E, i.wake _⟩
  | @dispatch t ht =>
    refine ⟨L, E, i.frame (fun _ _ => by simp) rfl (fun _ => rfl) (fun _ => rfl) fun u hu => ⟨hu, ?_⟩⟩
    rw [state_setState, if_neg]
    rintro rfl
    rw [i.waiting u hu] at ht
    cases ht

end steps

/-- No call under way, no queue, and nobody asleep. -/
structure SleepStart (s : Sched) : Prop extends QuietStart s where
  sleepList : s.sleepList = none

lemma SleeperRun.inv {s0 s : Sched} {reg : ℕ → Bool} (h0 : SleepStart s0)
    (h : SleeperRun (fun s op => op.linksFree s) s0 s reg) : ∃ L E, SleepInv s reg L E := by
  induction h with
  | start =>
    refine ⟨[], fun _ => [], h0.sleepList, fun c => ?_, fun _ => List.disjoint_nil_left _,
      fun _ _ _ => List.disjoint_nil_left _, nofun, nofun⟩
    rw [(h0.calls c).timer.1]
    rfl
  | step op on _ hC hstep ih =>
    obtain ⟨L, E, i⟩ := ih
    exact i.step hC hstep

/-! ## The timer wakes -/

/-- Some rounds of a call, without other steps in between. -/
def wakeRounds (c : ℕ) : ℕ → Sched → Sched
  | 0, s => s
  | n + 1, s => wakeRounds c n (wakeUnlinked (unlinkNext s c) c)

section wakes

variable {s : Sched} {c : ℕ} {t : ℕ} {D : List ℕ}

lemma state_threadWake {u : ℕ} : ((threadWake s t).threads u).state =
    if u = t ∧ (s.threads t).state = .waiting then .ready else (s.threads u).state := by
  rw [threadWake]
  by_cases hw : (s.threads t).state = .waiting
  · rw [if_pos hw, state_setState]
    simp only [hw, and_true]
  · rw [if_neg hw, if_neg fun h => hw h.2]

/-- A round that begins without a thread in hand. -/
lemma wakeRound_rest {x : ℕ} (hw : (s.calls c).waking = none) (hr : (s.calls c).rest = some x) :
    (wakeUnlinked (unlinkNext s c) c).calls c = ⟨(s.calls c).call, none, s.next x⟩ ∧
      (∀ u, u ≠ x → (wakeUnlinked (unlinkNext s c) c).next u = s.next u) ∧
      ∀ u, ((wakeUnlinked (unlinkNext s c) c).threads u).state =
        if u = x ∧ (s.threads x).state = .waiting then .ready else (s.threads u).state := by
  have hunlink : unlinkNext s c = (s.setNext x none).setCall c
      { s.calls c with waking := some x, rest := s.next x } := by
    rw [unlinkNext, hw, hr]
  have hwake : wakeUnlinked (unlinkNext s c) c = (threadWake (unlinkNext s c) x).setCall c
      ⟨(s.calls c).call, none, s.next x⟩ := by
    rw [hunlink, wakeUnlinked, calls_setCall, if_pos rfl]
  rw [hwake, hunlink]
  refine ⟨by simp, fun u hu => ?_, fun u => ?_⟩
  · rw [next_setCall, next_threadWake, next_setCall, next_setNext, if_neg hu]
  · rw [setCall_threads, state_threadWake]
    simp

/-- **A call that goes on undisturbed** wakes its whole chain. -/
lemma wakeRounds_spec (hD : Chain s.next (s.calls c).rest D) (hw : (s.calls c).waking = none) :
    ((wakeRounds c D.length s).calls c).idle ∧ ∀ t,
      ((s.threads t).state = .ready ∨ (t ∈ D ∧ (s.threads t).state = .waiting)) →
        ((wakeRounds c D.length s).threads t).state = .ready := by
  induction D generalizing s with
  | nil =>
    refine ⟨⟨hw, chain_nil.mp hD⟩, fun t ht => ?_⟩
    rcases ht with ht | ht
    · exact ht
    · exact absurd ht.1 List.not_mem_nil
  | cons x D ih =>
    have hxD := (List.nodup_cons.mp hD.nodup).1
    obtain ⟨hcall, hnext, hstate⟩ := wakeRound_rest hw hD.1
    have hD' : Chain (wakeUnlinked (unlinkNext s c) c).next
        ((wakeUnlinked (unlinkNext s c) c).calls c).rest D := by
      rw [hcall]
      refine hD.2.congr fun u hu => hnext u ?_
      rintro rfl
      exact hxD hu
    obtain ⟨hidle, hready⟩ := ih hD' (by rw [hcall])
    refine ⟨hidle, fun t ht => hready t ?_⟩
    rw [hstate t]
    split_ifs with htx
    · exact .inl rfl
    · refine ht.imp_right fun ⟨hmem, hwait⟩ => ⟨?_, hwait⟩
      refine (List.mem_cons.mp hmem).resolve_left ?_
      rintro rfl
      exact htx ⟨rfl, hwait⟩

/-- The same from the middle of a round. -/
lemma wakeRounds_of_waking {y : ℕ} (hD : Chain s.next (s.calls c).rest D) (hw : (s.calls c).waking = some y) :
    ((wakeRounds c (D.length + 1) s).calls c).idle ∧ ∀ t, (t = y ∨ t ∈ D) →
      (s.threads t).state = .waiting → ((wakeRounds c (D.length + 1) s).threads t).state = .ready := by
  have hround : wakeUnlinked (unlinkNext s c) c = (threadWake s y).setCall c { s.calls c with waking := none } := by
    rw [unlinkNext, hw]
    rw [wakeUnlinked, hw]
  have hD' : Chain (wakeUnlinked (unlinkNext s c) c).next
      ((wakeUnlinked (unlinkNext s c) c).calls c).rest D := by
    rw [hround, calls_setCall, if_pos rfl]
    exact hD.congr fun u _ => by rw [next_setCall, next_threadWake]
  have hw' : ((wakeUnlinked (unlinkNext s c) c).calls c).waking = none := by
    rw [hround, calls_setCall, if_pos rfl]
  obtain ⟨hidle, hready⟩ := wakeRounds_spec hD' hw'
  refine ⟨hidle, fun t ht hwait => hready t ?_⟩
  rw [hround, setCall_threads, state_threadWake]
  split_ifs with hty
  · exact .inl rfl
  · refine .inr ⟨ht.resolve_left ?_, hwait⟩
    rintro rfl
    exact hty ⟨rfl, hwait⟩

/-- **A thread that a timer call holds** is ready when the call is over. -/
lemma Sched.heldByTimer.ready (h : s.heldByTimer c t)
    (hE : ∃ D, Chain s.next (s.calls c).timerRest D) (ht : (s.threads t).state = .waiting) :
    ∃ n, ((wakeRounds c n s).calls c).idle ∧ ((wakeRounds c n s).threads t).state = .ready := by
  have hcall : (s.calls c).call = .timer := by
    by_contra hcall
    rcases h with ⟨D, hD, hmem⟩ | hw
    · rw [Waker.timerRest, if_neg hcall] at hD
      rw [hD.unique (chain_nil.mpr rfl)] at hmem
      cases hmem
    · rw [Waker.timerWaking, if_neg hcall] at hw
      cases hw
  obtain ⟨D, hD⟩ := hE
  have hplace : t ∈ D ∨ (s.calls c).waking = some t := by
    rcases h with ⟨D', hD', hmem⟩ | hw
    · rw [hD.unique hD']
      exact .inl hmem
    · rw [Waker.timerWaking, if_pos hcall] at hw
      exact .inr hw
  rw [Waker.timerRest, if_pos hcall] at hD
  cases hw : (s.calls c).waking with
  | none =>
    rw [hw] at hplace
    obtain ⟨hidle, hready⟩ := wakeRounds_spec hD hw
    exact ⟨_, hidle, hready t (.inr ⟨hplace.resolve_right nofun, ht⟩)⟩
  | some y =>
    rw [hw] at hplace
    obtain ⟨hidle, hready⟩ := wakeRounds_of_waking hD hw
    refine ⟨_, hidle, hready t ?_ ht⟩
    exact hplace.symm.imp_left fun h => (Option.some.inj h).symm

end wakes

/-- What the timer takes for passed: the time is the deadline or later, by less than half the range of
the clock. -/
lemma deadlinePassed_of_le {deadline now : ℕ} (h : deadline ≤ now) (hnow : now < 2 ^ 64)
    (hhalf : now - deadline ≤ 2 ^ 63) : deadlinePassed deadline now = true := by
  rw [deadlinePassed, Nat.mod_eq_of_lt hnow, decide_eq_true_eq]
  omega

/-- **No sleeper is forgotten.** In a run that leaves the links of sleepers alone, a thread that waits, has
registered a deadline and has not been woken since is on the sleep list, or a timer call that is under way
will wake it; and a timer call at or after the deadline makes a thread on the list ready. -/
theorem no_sleeper_forgotten {s₀ s : Sched} {reg : ℕ → Bool} (h₀ : SleepStart s₀)
    (h : SleeperRun (fun s op => op.linksFree s) s₀ s reg) {t : ℕ} (ht : reg t = true)
    (hwait : (s.threads t).state = .waiting) :
    (s.onSleepList t ∨ ∃ c, s.heldByTimer c t ∧
      ∃ n, ((wakeRounds c n s).calls c).idle ∧ ((wakeRounds c n s).threads t).state = .ready) ∧
    ∀ c now, (s.calls c).idle → s.onSleepList t → deadlinePassed (s.threads t).sleepDeadline now = true →
        ∃ fuel n s', timerWakeSleepers fuel s c now = some s' ∧ ((wakeRounds c n s').calls c).idle ∧
          ((wakeRounds c n s').threads t).state = .ready := by
  obtain ⟨L, E, i⟩ := h.inv h₀
  constructor
  · rcases i.place t ht with htL | ⟨c, htc⟩
    · exact .inl (i.onSleepList_iff.mpr htL)
    · have hheld : s.heldByTimer c t := htc.imp_left fun h => i.inTimerChain_iff.mpr h
      exact .inr ⟨c, hheld, hheld.ready ⟨E c, i.chain c⟩ hwait⟩
  · intro c now hc hon hd
    obtain ⟨r, hr⟩ := timerScan_isSome (A := []) now none i.list (Nat.lt_succ_self _)
    have hs' : timerWakeSleepers (L.length + 1) s c now = some (r.2.setCall c ⟨.timer, none, r.1⟩) := by
      rw [timerWakeSleepers]
      exact congrArg (Option.map _) hr
    obtain ⟨i', -⟩ := i.timer hc hs'
    have hmem : t ∈ update E c
        (L.filter fun x => deadlinePassed (s.threads x).sleepDeadline now).reverse c := by
      rw [update_self, List.mem_reverse, List.mem_filter]
      exact ⟨i.onSleepList_iff.mp hon, hd⟩
    obtain ⟨n, hidle, hready⟩ := Sched.heldByTimer.ready (.inl (i'.inTimerChain_iff.mpr hmem))
      ⟨_, i'.chain c⟩ (i'.waiting t ht)
    exact ⟨_, n, _, hs', hidle, hready⟩

lemma restingSched_sleepStart : SleepStart restingSched := ⟨restingSched_quiet, rfl⟩

/-- One thread sleeps until `100`, and a timer call at `100` wakes it. -/
theorem no_sleeper_forgotten_resting : ∃ s reg, SleeperRun (fun s op => op.linksFree s) restingSched s reg ∧
    reg 0 = true ∧ ∃ fuel n s', timerWakeSleepers fuel s 0 100 = some s' ∧
      ((wakeRounds 0 n s').calls 0).idle ∧ ((wakeRounds 0 n s').threads 0).state = .ready := by
  obtain ⟨s1, hs1⟩ : ∃ s1, threadSleepUntil 1 restingSched 0 100 = some s1 := ⟨_, rfl⟩
  have hrun : SleeperRun (fun s op => op.linksFree s) restingSched s1 _ :=
    .step (.threadSleep 0 100) (fun _ => none) .start
      (fun c ⟨D, hD, hmem⟩ => by
        rw [hD.unique (chain_nil.mpr rfl)] at hmem
        cases hmem)
      (.threadSleep rfl hs1)
  cases hs1
  have hd : deadlinePassed 100 100 = true := deadlinePassed_of_le le_rfl (by norm_num) (by norm_num)
  exact ⟨_, _, hrun, rfl, (no_sleeper_forgotten restingSched_sleepStart hrun rfl rfl).2 0 100 ⟨rfl, rfl⟩
    ⟨[0], ⟨rfl, rfl⟩, List.mem_singleton_self 0⟩ hd⟩

/-- **An early wake-up forgets a sleeper.** Thread `1` sleeps until `100`; thread `0` waits on queue `0`
until `50`, in front of it on the sleep list, and is woken through the queue. The queue has cleared the
link of thread `0`: thread `1` waits, is on no list and in no call, and a timer call at `1000` does not
wake it. -/
theorem earlyWakeup_forgets : ∃ s reg, SleepStart restingSched ∧
    SleeperRun (fun _ _ => True) restingSched s reg ∧ reg 1 = true ∧
    (s.threads 1).state = .waiting ∧ ¬ s.onSleepList 1 ∧ (∀ c, (s.calls c).idle) ∧
    ∃ s', timerWakeSleepers 5 s 0 1000 = some s' ∧ ((wakeRounds 0 5 s').calls 0).idle ∧
      ((wakeRounds 0 5 s').threads 1).state = .waiting := by
  obtain ⟨s1, hs1⟩ : ∃ s1, threadSleepUntil 1 restingSched 1 100 = some s1 := ⟨_, rfl⟩
  obtain ⟨s2, hs2⟩ : ∃ s2, waitQueueSleepUntilIrqrestore 2 s1 0 0 50 = some s2 := by
    cases hs1
    exact ⟨_, rfl⟩
  have h1 : SleeperRun (fun _ _ => True) restingSched s1 _ :=
    .step (.threadSleep 1 100) (fun _ => none) .start trivial (.threadSleep rfl hs1)
  have hrun : (s1.threads 0).state = .running := by
    cases hs1
    rfl
  have h2 := SleeperRun.step (.sleepUntil 0 0 50) (fun _ => none) h1 trivial (.sleepUntil hrun hs2)
  cases hs1
  cases hs2
  have h3 := SleeperRun.step (.wakeupOne 0 0) (fun _ => none) h2 trivial (.wakeupOne ⟨rfl, rfl⟩)
  have h4 := SleeperRun.step (.wakeNext 0) (fun _ => none) h3 trivial (.wakeNext)
  refine ⟨_, _, restingSched_sleepStart, h4, rfl, rfl, ?_, fun c => ?_, _, rfl, ⟨rfl, rfl⟩, rfl⟩
  · rintro ⟨L, hL, hmem⟩
    have hlist : L = [0] := hL.unique ⟨rfl, rfl⟩
    rw [hlist] at hmem
    simp at hmem
  · cases c with
    | zero => exact ⟨rfl, rfl⟩
    | succ c => exact ⟨rfl, rfl⟩

end Chimera
