import Mathlib.Data.List.TakeWhile
import Chimera.Sched.Dispatch

/-!
# The run queues

Every run queue is an acyclic list of `count` threads in the order of their priorities, and no thread is in
two queues (`run_queue_invariant`). A thread is at one place at most: in a queue, in the hands of a CPU that
has taken it, or in those of a call that is about to put it into a queue (`Hands`).

Two things break this. `scheduler_yield` lowers the priority of the old thread even if that is already in a
queue, because it was woken before it got to yield (`lateYield_breaks_order`); and
`scheduler_add_thread` does not see that a thread in no queue is in somebody's hands. The result is for the
runs without them (`RunOp.orderly`).
-/

namespace Chimera

open Lib
open Function (update update_self update_of_ne update_apply)
open RunSched (threads_setThread cpus_setCpu cpus_goto)

/-! ## The lists -/

/-- The queues are the lists `L`. -/
structure QueueLists (s : RunSched) (L : ℕ → List ℕ) : Prop where
  list : ∀ k, (s.links k).IsList (L k)
  count : ∀ k, (s.runqs k).count = (L k).length
  apart : ∀ k k', k ≠ k' → (L k).Disjoint (L k')
  unlinked : ∀ t, (∀ k, t ∉ L k) → s.next t = none

section lists

variable {s s' : RunSched} {L : ℕ → List ℕ} {k t : ℕ}

lemma QueueLists.inQueue_iff (h : QueueLists s L) : s.inQueue k t ↔ t ∈ L k := by
  constructor
  · rintro ⟨M, hM, ht⟩
    rwa [Chain.unique (h.list k) hM]
  · exact fun ht => ⟨L k, h.list k, ht⟩

/-- **Frame.** Only the queue itself matters. -/
lemma QueueLists.frame (h : QueueLists s L) (hnext : s'.next = s.next) (hrunqs : s'.runqs = s.runqs) :
    QueueLists s' L := by
  refine ⟨fun k => ?_, fun k => ?_, h.apart, fun t ht => ?_⟩
  · rw [RunSched.links, hnext, hrunqs]
    exact h.list k
  · rw [hrunqs]
    exact h.count k
  · rw [hnext]
    exact h.unlinked t ht

variable {M : List ℕ}

/-- **One queue changes**: it is the list `M` now, and of the threads that were in it only those are linked
that are in `M`. -/
lemma QueueLists.setLinks (h : QueueLists s L) {l : Links ℕ} {n : ℕ} (hl : l.IsList M)
    (hn : n = M.length) (hM : ∀ u ∈ M, u ∈ L k ∨ ∀ k', u ∉ L k')
    (hnext : ∀ u, u ∉ M → u ∉ L k → l.next u = s.next u)
    (hout : ∀ u, u ∈ L k → u ∉ M → l.next u = none) :
    QueueLists (s.setLinks k l n) (update L k M) := by
  have hdis : ∀ k', k' ≠ k → ∀ u ∈ L k', u ∉ M ∧ u ∉ L k := by
    intro k' hk u hu
    refine ⟨fun hM' => ?_, fun hL => h.apart k' k hk hu hL⟩
    rcases hM u hM' with hL | hno
    · exact h.apart k' k hk hu hL
    · exact hno k' hu
  refine ⟨fun k' => ?_, fun k' => ?_, fun k1 k2 hne u h1 h2 => ?_, fun u hu => ?_⟩
  · by_cases hk : k' = k
    · rw [hk, update_self, RunSched.links, RunSched.setLinks]
      dsimp only
      rw [update_self]
      exact hl
    · rw [update_of_ne hk]
      refine (h.list k').congr ?_ fun u hu => hnext u (hdis k' hk u hu).1 (hdis k' hk u hu).2
      exact congrArg RunQueue.head (update_of_ne hk _ _)
  · by_cases hk : k' = k
    · rw [hk, update_self, ← hn, RunSched.setLinks]
      dsimp only
      rw [update_self]
    · rw [update_of_ne hk, ← h.count k']
      exact congrArg RunQueue.count (update_of_ne hk _ _)
  · by_cases hk1 : k1 = k
    · rw [hk1, update_self] at h1
      rw [update_of_ne (hk1 ▸ hne.symm)] at h2
      exact (hdis k2 (hk1 ▸ hne.symm) u h2).1 h1
    · rw [update_of_ne hk1] at h1
      by_cases hk2 : k2 = k
      · rw [hk2, update_self] at h2
        exact (hdis k1 hk1 u h1).1 h2
      · rw [update_of_ne hk2] at h2
        exact h.apart k1 k2 hne h1 h2
  · have huM : u ∉ M := by
      have := hu k
      rwa [update_self] at this
    change l.next u = none
    by_cases huL : u ∈ L k
    · exact hout u huL huM
    · rw [hnext u huM huL]
      refine h.unlinked u fun k' => ?_
      by_cases hk : k' = k
      · rwa [hk]
      · have := hu k'
        rwa [update_of_ne hk] at this

/-- The list of a queue after a thread has joined. -/
def joined (s : RunSched) (L : List ℕ) (t : ℕ) : List ℕ :=
  L.takeWhile (fun c => (s.threads t).priority ≤ (s.threads c).priority) ++
    t :: L.dropWhile (fun c => (s.threads t).priority ≤ (s.threads c).priority)

lemma joined_perm (s : RunSched) (L : List ℕ) (t : ℕ) : (joined s L t).Perm (t :: L) := by
  refine List.perm_middle.trans ?_
  rw [List.takeWhile_append_dropWhile]

lemma mem_joined {u : ℕ} : u ∈ joined s M t ↔ u = t ∨ u ∈ M := by rw [(joined_perm s M t).mem_iff, List.mem_cons]

lemma QueueLists.enqueue (h : QueueLists s L) {fuel : ℕ} (ht : ∀ k, t ∉ L k)
    (hs : runqEnqueueLocked fuel s k t = some s') :
    QueueLists s' (update L k (joined s (L k) t)) ∧ ∃ l n, s' = s.setLinks k l n := by
  obtain ⟨l, hl, rfl⟩ := Option.map_eq_some_iff.mp hs
  obtain ⟨hlist, hframe⟩ := Links.insertAfter_spec (A := []) (h.list k) (ht k) hl
  rw [List.nil_append] at hlist hframe
  refine ⟨h.setLinks hlist ?_ (fun u hu => ?_) (fun u hu hu' => ?_) fun u hu hu' => ?_, l, _, rfl⟩
  · rw [(joined_perm s (L k) t).length_eq, List.length_cons, h.count k]
  · rcases mem_joined.mp hu with rfl | hu
    · exact .inr ht
    · exact .inl hu
  · refine hframe u ?_
    rw [List.mem_cons, not_or]
    exact ⟨fun e => hu (mem_joined.mpr (.inl e)), hu'⟩
  · exact absurd (mem_joined.mpr (.inr hu)) hu'

lemma QueueLists.dequeue (h : QueueLists s L) : runqDequeueLocked s k = (none, s) ∧ L k = [] ∨
      ∃ th M, L k = th :: M ∧ ∃ l n, runqDequeueLocked s k = (some th, s.setLinks k l n) ∧
        QueueLists (s.setLinks k l n) (update L k M) := by
  have hlist := h.list k
  rw [runqDequeueLocked]
  cases hL : L k with
  | nil =>
    rw [hL] at hlist
    rw [show (s.runqs k).head = none from hlist]
    exact .inl ⟨rfl, rfl⟩
  | cons th M =>
    rw [hL] at hlist
    have hhead : (s.runqs k).head = some th := hlist.1
    have hM : Chain s.next (s.next th) M := hlist.2
    have hnd := List.nodup_cons.mp hlist.nodup
    rw [hhead]
    refine .inr ⟨th, M, rfl, _, _, rfl, h.setLinks ?_ ?_ (fun u hu => .inl ?_) (fun u _ hu => ?_)
      fun u hu hu' => ?_⟩
    · refine Chain.congr hM fun u hu => update_of_ne ?_ _ _
      rintro rfl
      exact hnd.1 hu
    · rw [h.count k, hL, List.length_cons, Nat.add_sub_cancel]
    · rw [hL]
      exact List.mem_cons_of_mem _ hu
    · refine update_of_ne ?_ _ _
      rintro rfl
      exact hu (hL ▸ List.mem_cons_self)
    · rw [hL] at hu
      rw [(List.mem_cons.mp hu).resolve_right hu']
      exact update_self _ _ _

lemma QueueLists.remove (h : QueueLists s L) {fuel : ℕ} (hs : runqRemoveLocked fuel s k t = some s') :
    QueueLists s' (update L k ((L k).erase t)) ∧ ∃ l n, s' = s.setLinks k l n := by
  obtain ⟨r, hr, rfl⟩ := Option.map_eq_some_iff.mp hs
  obtain ⟨hfound, hlist, hself, hframe⟩ := Links.remove_spec (h.list k) List.not_mem_nil hr
  rw [List.nil_append] at hlist hframe
  refine ⟨h.setLinks hlist ?_ (fun u hu => .inl (List.mem_of_mem_erase hu)) (fun u _ hu => hframe u hu)
    fun u hu hu' => ?_, r.2, _, rfl⟩
  · rw [hfound, h.count k]
    by_cases ht : t ∈ L k
    · rw [List.length_erase_of_mem ht, if_pos (by simpa using ht)]
    · rw [List.erase_of_not_mem ht, if_neg (by simpa using ht)]
  · have hut : u = t := by
      by_contra hne
      exact hu' ((List.mem_erase_of_ne hne).mpr hu)
    rw [hut] at hu ⊢
    exact hself hu

/-- **`scheduler_steal_work`** takes the last thread of a queue of two or more. -/
lemma QueueLists.steal (h : QueueLists s L) {fuel victim : ℕ} (hs : stealFrom fuel s k victim = some s') :
    s' = s.goto k (.chosen none) ∨
      ∃ th M l n, L victim = M ++ [th] ∧ QueueLists (s.setLinks victim l n) (update L victim M) ∧
        s' = ((s.setLinks victim l n).setThread th { s.threads th with assignedCpu := k }).goto k
          (.chosen (some th)) := by
  have hlist := h.list victim
  rw [stealFrom] at hs
  cases hhead : (s.runqs victim).head with
  | none =>
    rw [hhead] at hs
    exact .inl (Option.some.inj hs).symm
  | some curr =>
    rw [hhead] at hs
    split_ifs at hs
    · obtain ⟨r, hr, rfl⟩ := Option.map_eq_some_iff.mp hs
      -- the walk begins at the head of the queue
      cases hL : L victim with
      | nil =>
        rw [hL] at hlist
        have hnone : (s.runqs victim).head = none := hlist
        rw [hnone] at hhead
        cases hhead
      | cons c B =>
        rw [hL] at hlist
        have hc : (s.runqs victim).head = some c := hlist.1
        obtain rfl := Option.some.inj (hc.symm.trans hhead)
        obtain ⟨⟨D, hD, hlistD⟩, hframe⟩ := Links.takeLast_spec (A := []) hlist hr
        rw [List.nil_append] at hD hframe
        have hnd : (D ++ [r.1]).Nodup := hD ▸ hlist.nodup
        have hne : ∀ u ∈ D, u ≠ r.1 := by
          rintro u hu rfl
          exact List.disjoint_of_nodup_append hnd hu (List.mem_singleton_self _)
        refine .inr ⟨r.1, D, _, _, hD, h.setLinks ?_ ?_ (fun u hu => .inl ?_) (fun u hu hu' => ?_)
          fun u hu hu' => ?_, rfl⟩
        · exact hlistD.congr rfl fun u hu => update_of_ne (hne u hu) _ _
        · rw [h.count, hL, hD, List.length_append, List.length_singleton, Nat.add_sub_cancel]
        · rw [hL, hD]
          exact List.mem_append_left _ hu
        · rw [hL] at hu'
          refine (update_of_ne ?_ _ _).trans (hframe u hu')
          rintro rfl
          exact hu' (hD ▸ List.mem_append_right _ (List.mem_singleton_self _))
        · rw [hL, hD] at hu
          rw [List.mem_singleton.mp ((List.mem_append.mp hu).resolve_left hu')]
          exact update_self _ _ _
    · exact .inl (Option.some.inj hs).symm

end lists

/-! ## Hands -/

/-- The thread that a CPU has taken and not yet switched to. -/
def CpuPhase.inHand : CpuPhase → Option ℕ
  | .chosen new => new
  | _ => none

/-- The thread of a wake-up. -/
def WakePhase.thread : WakePhase → Option ℕ
  | .idle => none
  | .woken t | .targeted t _ => some t

/-- Where a thread can be: in a queue, or in the hands of a CPU or a call. -/
inductive Spot where
  | queue (k : ℕ)
  | cpu (k : ℕ)
  | wake (w : ℕ)
  | add (a : ℕ)
  deriving DecidableEq, Repr

/-- Thread `t` is at a spot. -/
def QueuePlaced (s : RunSched) (L : ℕ → List ℕ) (t : ℕ) : Spot → Prop
  | .queue k => t ∈ L k
  | .cpu k => (s.cpus k).phase.inHand = some t
  | .wake w => (s.wakes w).thread = some t
  | .add a => (s.adds a).map Prod.fst = some t

/-- **The invariant of the hands.** -/
structure Hands (s : RunSched) (L : ℕ → List ℕ) : Prop where
  /-- A thread is at one spot at most. -/
  one : ∀ t p p', QueuePlaced s L t p → QueuePlaced s L t p' → p = p'
  /-- A thread that waits or runs is at none. -/
  quiet : ∀ t, (s.threads t).state = .waiting ∨ (s.threads t).state = .running → ∀ p, ¬ QueuePlaced s L t p
  owner : ∀ k t, (s.cpus k).current = some t → (s.threads t).runningCpu = some k
  leaving : ∀ k t, (s.cpus k).phase = .switching (some t) →
    (s.threads t).runningCpu = some k ∧ (s.cpus k).current ≠ some t
  /-- A thread whose CPU is outside of `scheduler_yield` is at no spot. -/
  busy : ∀ k t, ((s.cpus k).phase = .running ∨ ∃ o, (s.cpus k).phase = .switching o) →
    (s.cpus k).current = some t → (∀ p, ¬ QueuePlaced s L t p) ∧ (s.threads t).state ≠ .waiting

section placed

variable {s : RunSched} {L : ℕ → List ℕ} {k t u : ℕ} {p : Spot}

lemma placed_setThread (x : RunThread) : QueuePlaced (s.setThread t x) L u p ↔ QueuePlaced s L u p := by
  cases p <;> rfl

lemma placed_setLinks (l : Links ℕ) (n : ℕ) : QueuePlaced (s.setLinks k l n) L u p ↔ QueuePlaced s L u p := by
  cases p <;> rfl

variable {s' : RunSched}

lemma placed_congr (hcpus : s'.cpus = s.cpus) (hwakes : s'.wakes = s.wakes)
    (hadds : s'.adds = s.adds) : QueuePlaced s' L u p ↔ QueuePlaced s L u p := by
  cases p with
  | queue => rfl
  | cpu => rw [QueuePlaced, QueuePlaced, hcpus]
  | wake => rw [QueuePlaced, QueuePlaced, hwakes]
  | add => rw [QueuePlaced, QueuePlaced, hadds]

/-- Only the spot `q` changes. -/
lemma placed_or {L' : ℕ → List ℕ} (q : Spot) (h : QueuePlaced s' L' u p)
    (hother : p ≠ q → QueuePlaced s' L' u p → QueuePlaced s L u p) :
    (p = q ∧ QueuePlaced s' L' u q) ∨ (p ≠ q ∧ QueuePlaced s L u p) := by
  by_cases hp : p = q
  · exact .inl ⟨hp, hp ▸ h⟩
  · exact .inr ⟨hp, hother hp h⟩

lemma placed_setCpu {x : RunCpu} (h : QueuePlaced (s.setCpu k x) L u p) :
    (p = .cpu k ∧ x.phase.inHand = some u) ∨ (p ≠ .cpu k ∧ QueuePlaced s L u p) := by
  refine (placed_or (.cpu k) h fun hp h => ?_).imp_left (And.imp_right fun h => ?_)
  · cases p with
    | cpu k' =>
      have hk : k' ≠ k := fun e => hp (e ▸ rfl)
      rwa [QueuePlaced, cpus_setCpu, if_neg hk] at h
    | queue | wake | add => exact h
  · rwa [QueuePlaced, cpus_setCpu, if_pos rfl] at h

lemma placed_setWake {w : ℕ} {x : WakePhase} (h : QueuePlaced (s.setWake w x) L u p) :
    (p = .wake w ∧ x.thread = some u) ∨ (p ≠ .wake w ∧ QueuePlaced s L u p) := by
  refine (placed_or (.wake w) h fun hp h => ?_).imp_left (And.imp_right fun h => ?_)
  · cases p with
    | wake w' =>
      have hw : w' ≠ w := fun e => hp (e ▸ rfl)
      simpa only [QueuePlaced, RunSched.setWake, update_of_ne hw] using h
    | queue | cpu | add => exact h
  · simpa only [QueuePlaced, RunSched.setWake, update_self] using h

lemma placed_setAdd {a : ℕ} {x : Option (ℕ × ℕ)}
    (h : QueuePlaced { s with adds := update s.adds a x } L u p) :
    (p = .add a ∧ x.map Prod.fst = some u) ∨ (p ≠ .add a ∧ QueuePlaced s L u p) := by
  refine (placed_or (.add a) h fun hp h => ?_).imp_left (And.imp_right fun h => ?_)
  · cases p with
    | add a' =>
      have ha : a' ≠ a := fun e => hp (e ▸ rfl)
      simpa only [QueuePlaced, update_of_ne ha] using h
    | queue | cpu | wake => exact h
  · simpa only [QueuePlaced, update_self] using h

lemma placed_update {M : List ℕ} (h : QueuePlaced s (update L k M) u p) :
    (p = .queue k ∧ u ∈ M) ∨ (p ≠ .queue k ∧ QueuePlaced s L u p) := by
  refine (placed_or (.queue k) h fun hp h => ?_).imp_left (And.imp_right fun h => ?_)
  · cases p with
    | queue k' =>
      have hk : k' ≠ k := fun e => hp (e ▸ rfl)
      rwa [QueuePlaced, update_of_ne hk] at h
    | cpu | wake | add => exact h
  · rwa [QueuePlaced, update_self] at h

end placed

/-- A CPU is outside of `scheduler_yield`, or about to leave it, with a current thread. -/
def RunCpu.runs (c : RunCpu) (t : ℕ) : Prop :=
  (c.phase = .running ∨ ∃ o, c.phase = .switching o) ∧ c.current = some t

/-- What `Hands` says of one thread and the CPUs it is on. -/
structure CpuHeld (s : RunSched) (t : ℕ) : Prop where
  owner : ∀ k, (s.cpus k).current = some t → (s.threads t).runningCpu = some k
  leaving : ∀ k, (s.cpus k).phase = .switching (some t) →
    (s.threads t).runningCpu = some k ∧ (s.cpus k).current ≠ some t

/-- What `Hands` says of one thread. -/
structure ThreadHeld (s : RunSched) (L : ℕ → List ℕ) (t : ℕ) : Prop extends CpuHeld s t where
  one : ∀ p p', QueuePlaced s L t p → QueuePlaced s L t p' → p = p'
  quiet : (s.threads t).state = .waiting ∨ (s.threads t).state = .running → ∀ p, ¬ QueuePlaced s L t p
  busy : ∀ k, (s.cpus k).runs t → (∀ p, ¬ QueuePlaced s L t p) ∧ (s.threads t).state ≠ .waiting

/-- CPU `c` becomes `d`, and a thread is not new to it: at most it has begun to leave the thread. -/
structure RunCpu.Leaves (c d : RunCpu) (t : ℕ) : Prop where
  current : d.current = some t → c.current = some t
  leaving : d.phase = .switching (some t) →
    (c.phase = .switching (some t) ∧ d.current = c.current) ∨ (c.current = some t ∧ d.current ≠ some t)

/-- Nor does it begin to run the thread. -/
structure RunCpu.Releases (c d : RunCpu) (t : ℕ) : Prop extends c.Leaves d t where
  runs : d.runs t → c.runs t

section hands

variable {s s' : RunSched} {L L' : ℕ → List ℕ} {k t : ℕ}

lemma RunCpu.Releases.refl (c : RunCpu) (t : ℕ) : c.Releases c t := ⟨⟨id, fun h => .inl ⟨h, rfl⟩⟩, id⟩

variable {ph : CpuPhase} {x : RunCpu} {p : Spot} {u j : ℕ} {M : List ℕ}

/-- A CPU that is in the middle of `scheduler_yield` afterwards, with the same current thread. -/
lemma RunCpu.releases_phase {c : RunCpu} (hph : ph ≠ .running ∧ ∀ o, ph ≠ .switching o) :
    c.Releases { c with phase := ph } t :=
  ⟨⟨id, fun h => absurd h (hph.2 _)⟩, fun h => absurd h.1 (by simp [hph])⟩

lemma cpus_setCpu_of {R : RunCpu → RunCpu → Prop} (hrefl : ∀ c, R c c) (h : R (s.cpus k) x) (j : ℕ) :
    R (s.cpus j) ((s.setCpu k x).cpus j) := by
  by_cases hj : j = k
  · simpa [hj] using h
  · simpa [hj] using hrefl _

lemma releases_setCpu (h : (s.cpus k).Releases x t) (j : ℕ) : (s.cpus j).Releases ((s.setCpu k x).cpus j) t :=
  cpus_setCpu_of (R := (·.Releases · t)) (.refl · t) h j

lemma Hands.held (h : Hands s L) (t : ℕ) : ThreadHeld s L t :=
  ⟨⟨fun k => h.owner k t, fun k => h.leaving k t⟩, h.one t, h.quiet t, fun k hr => h.busy k t hr.1 hr.2⟩

lemma hands_of_held (h : ∀ t, ThreadHeld s L t) : Hands s L :=
  ⟨fun t => (h t).one, fun t => (h t).quiet, fun k t => (h t).owner k, fun k t => (h t).leaving k,
    fun k t hphase hcur => (h t).busy k ⟨hphase, hcur⟩⟩

lemma CpuHeld.mono (h : CpuHeld s t) (hrun : (s'.threads t).runningCpu = (s.threads t).runningCpu)
    (hcpus : ∀ k, (s.cpus k).Leaves (s'.cpus k) t) : CpuHeld s' t := by
  refine ⟨fun k hk => ?_, fun k hk => ?_⟩ <;> rw [hrun]
  · exact h.owner k ((hcpus k).current hk)
  · rcases (hcpus k).leaving hk with ⟨hold, hcur⟩ | ⟨hold, hcur⟩
    · rw [hcur]
      exact h.leaving k hold
    · exact ⟨h.owner k hold, hcur⟩

lemma CpuHeld.of_off (hoff : ∀ j, ¬ ((s.cpus j).current = some t ∨ (s.cpus j).phase = .switching (some t))) :
    CpuHeld s t :=
  ⟨fun k hk => absurd (.inl hk) (hoff k), fun k hk => absurd (.inr hk) (hoff k)⟩

/-- **Nothing new happens to a thread**: it comes to no spot, and begins neither to wait nor to run. -/
lemma ThreadHeld.mono (h : ThreadHeld s L t) (hplaced : ∀ p, QueuePlaced s' L' t p → QueuePlaced s L t p)
    (hrun : (s'.threads t).runningCpu = (s.threads t).runningCpu)
    (hstate : (s'.threads t).state = .waiting ∨ (s'.threads t).state = .running →
      (s'.threads t).state = (s.threads t).state)
    (hcpus : ∀ k, (s.cpus k).Releases (s'.cpus k) t) : ThreadHeld s' L' t := by
  refine ⟨h.toCpuHeld.mono hrun fun k => (hcpus k).toLeaves, fun p p' hp hp' => h.one p p' (hplaced p hp) (hplaced p' hp'),
    fun hs p hp => h.quiet (hstate hs ▸ hs) p (hplaced p hp), fun k hk => ?_⟩
  obtain ⟨hno, hw⟩ := h.busy k ((hcpus k).runs hk)
  exact ⟨fun p hp => hno p (hplaced p hp), fun hs => hw (hstate (.inl hs) ▸ hs)⟩

/-- A thread at no spot. -/
lemma ThreadHeld.of_free (h : CpuHeld s t) (hno : ∀ p, ¬ QueuePlaced s L t p)
    (hruns : ∀ k, (s.cpus k).runs t → (s.threads t).state ≠ .waiting) : ThreadHeld s L t :=
  ⟨h, fun p _ hp => absurd hp (hno p), fun _ => hno, fun k hk => ⟨hno, hruns k hk⟩⟩

section

variable (h : Hands s L)
include h

/-- **Nothing new happens to the hands.** -/
lemma Hands.mono (hplaced : ∀ u p, QueuePlaced s' L' u p → QueuePlaced s L u p)
    (hcpus : s'.cpus = s.cpus) (hrun : ∀ u, (s'.threads u).runningCpu = (s.threads u).runningCpu)
    (hstate : ∀ u, (s'.threads u).state = .waiting ∨ (s'.threads u).state = .running →
      (s'.threads u).state = (s.threads u).state) : Hands s' L' :=
  hands_of_held fun u => (h.held u).mono (hplaced u) (hrun u) (hstate u) fun _ => hcpus ▸ .refl _ u

/-- **One thread changes**, and the CPUs have no more to do with the others than before. -/
lemma Hands.change (ht : ThreadHeld s' L' t)
    (hplaced : ∀ u, u ≠ t → ∀ p, QueuePlaced s' L' u p → QueuePlaced s L u p)
    (hother : ∀ u, u ≠ t → (s'.threads u).state = (s.threads u).state ∧
      (s'.threads u).runningCpu = (s.threads u).runningCpu)
    (hcpus : ∀ u, u ≠ t → ∀ k, (s.cpus k).Releases (s'.cpus k) u) : Hands s' L' := by
  refine hands_of_held fun u => ?_
  by_cases hu : u = t
  · rwa [hu]
  · exact (h.held u).mono (hplaced u hu) (hother u hu).2 (fun _ => (hother u hu).1) (hcpus u hu)

/-- **A thread that no CPU runs moves** to the spot `q`. -/
lemma Hands.move {q : Spot}
    (hsub : ∀ u p, QueuePlaced s' L' u p → (u ≠ t ∧ QueuePlaced s L u p) ∨ (u = t ∧ p = q))
    (hother : ∀ u, u ≠ t → (s'.threads u).state = (s.threads u).state ∧
      (s'.threads u).runningCpu = (s.threads u).runningCpu)
    (hstate : ¬ ((s'.threads t).state = .waiting ∨ (s'.threads t).state = .running))
    (hrun : (s'.threads t).runningCpu = (s.threads t).runningCpu)
    (hcpus : ∀ u k, (s.cpus k).Releases (s'.cpus k) u) (hruns : ∀ k, ¬ (s.cpus k).runs t) : Hands s' L' := by
  have hspot : ∀ p, QueuePlaced s' L' t p → p = q := by
    intro p hp
    rcases hsub t p hp with ⟨hne, -⟩ | ⟨-, hpq⟩
    · exact absurd rfl hne
    · exact hpq
  refine h.change ⟨(h.held t).toCpuHeld.mono hrun fun k => (hcpus t k).toLeaves,
    fun p p' hp hp' => (hspot p hp).trans (hspot p' hp').symm, fun hs => absurd hs hstate,
    fun k hk => absurd ((hcpus t k).runs hk) (hruns k)⟩ (fun u hu p hp => ?_) hother fun u _ => hcpus u
  rcases hsub u p hp with ⟨-, hp⟩ | ⟨he, -⟩
  · exact hp
  · exact absurd he hu

/-- A thread at a spot is not the current one of a CPU that runs. -/
lemma Hands.not_runs (ht : QueuePlaced s L t p) (j : ℕ) : ¬ (s.cpus j).runs t :=
  fun hr => (h.busy j t hr.1 hr.2).1 p ht

/-- A thread at a spot neither waits nor runs. -/
lemma Hands.state_of_placed (ht : QueuePlaced s L t p) :
    ¬ ((s.threads t).state = .waiting ∨ (s.threads t).state = .running) :=
  fun hs => h.quiet t hs p ht

/-- A thread at another spot is another one. -/
lemma Hands.ne_of_spot {q : Spot} (ht : QueuePlaced s L t q) (hp : QueuePlaced s L u p)
    (hne : p ≠ q) : u ≠ t := by
  rintro rfl
  exact hne (h.one u p q hp ht)

end

/-- State and CPU of the other threads, when one is set. -/
lemma other_setThread (hu : u ≠ t) (x : RunThread) : ((s.setThread t x).threads u).state = (s.threads u).state ∧
      ((s.setThread t x).threads u).runningCpu = (s.threads u).runningCpu := by
  rw [threads_setThread, if_neg hu]
  exact ⟨rfl, rfl⟩

/-! ### Calls -/

section

variable (h : Hands s L)
include h

/-- **The compare-and-swap** takes a thread that is at no spot. -/
lemma Hands.wakeSwap {w : ℕ} : Hands (wakeSwap s w t) L := by
  rw [Chimera.wakeSwap]
  split_ifs with hwait
  · refine h.move (q := .wake w) (fun u p hp => ?_) (fun u hu => other_setThread hu _) (by simp)
      (by simp) (fun u _ => .refl _ u) fun j hj => absurd hwait (h.busy j t hj.1 hj.2).2
    rcases placed_setWake hp with ⟨hpw, hu⟩ | ⟨-, hp⟩
    · exact .inr ⟨(Option.some.inj hu).symm, hpw⟩
    · have hp' := (placed_setThread _).mp hp
      refine .inl ⟨?_, hp'⟩
      rintro rfl
      exact h.quiet u (.inl hwait) p hp'
  · exact h

/-- Only priorities and the assigned CPU change. -/
lemma Hands.setThread {x : RunThread} (hstate : x.state = (s.threads t).state)
    (hrun : x.runningCpu = (s.threads t).runningCpu) : Hands (s.setThread t x) L := by
  have hthreads : ∀ u, ((s.setThread t x).threads u).state = (s.threads u).state ∧
      ((s.setThread t x).threads u).runningCpu = (s.threads u).runningCpu := by
    intro u
    by_cases hu : u = t
    · rw [hu, threads_setThread, if_pos rfl]
      exact ⟨hstate, hrun⟩
    · exact other_setThread hu x
  exact h.mono (fun u p => (placed_setThread x).mp) rfl (fun u => (hthreads u).2) fun u _ => (hthreads u).1

lemma Hands.wakeBoost {w my : ℕ} (hw : s.wakes w = .woken t) : Hands (wakeBoost s w my t) L := by
  have ht : QueuePlaced s L t (.wake w) := congrArg WakePhase.thread hw
  have hstate : ((Chimera.wakeBoost s w my t).threads t).state = (s.threads t).state := by simp [Chimera.wakeBoost]
  refine h.move (q := .wake w) (fun u p hp => ?_) (fun u hu => other_setThread hu _)
    (by rw [hstate]; exact h.state_of_placed ht) (by simp [Chimera.wakeBoost]) (fun u _ => .refl _ u)
    (h.not_runs ht)
  rcases placed_setWake hp with ⟨hpw, hu⟩ | ⟨hne, hp⟩
  · exact .inr ⟨(Option.some.inj hu).symm, hpw⟩
  · have hp' := (placed_setThread _).mp hp
    exact .inl ⟨h.ne_of_spot ht hp' hne, hp'⟩

/-- **A call puts its thread into a queue**, and no longer has it at its own spot `q`. -/
lemma Hands.enqueue {q : Spot} {M : List ℕ} (ht : QueuePlaced s L t q)
    (hM : ∀ u ∈ M, u = t ∨ u ∈ L k) (hthreads : s'.threads = s.threads) (hcpus : s'.cpus = s.cpus)
    (hplaced : ∀ u p, QueuePlaced s' (update L k M) u p → p ≠ q ∧ QueuePlaced s (update L k M) u p) :
    Hands s' (update L k M) := by
  refine h.move (q := .queue k) (fun u p hp => ?_) (fun _ _ => by rw [hthreads]; exact ⟨rfl, rfl⟩)
    (hthreads ▸ h.state_of_placed ht) (by rw [hthreads]) (fun u _ => hcpus ▸ .refl _ u) (h.not_runs ht)
  obtain ⟨hne, hp⟩ := hplaced u p hp
  rcases placed_update hp with ⟨hpk, hu⟩ | ⟨-, hp⟩
  · by_cases hut : u = t
    · exact .inr ⟨hut, hpk⟩
    · rw [hpk]
      exact .inl ⟨hut, (hM u hu).resolve_left hut⟩
  · exact .inl ⟨h.ne_of_spot ht hp hne, hp⟩

lemma Hands.wakeEnqueue {w : ℕ} {l : Links ℕ} {n : ℕ} {M : List ℕ}
    (ht : QueuePlaced s L t (.wake w)) (hM : ∀ u ∈ M, u = t ∨ u ∈ L k) :
    Hands ((s.setLinks k l n).setWake w .idle) (update L k M) := by
  refine h.enqueue ht hM rfl rfl fun u p hp => ?_
  rcases placed_setWake hp with ⟨-, hu⟩ | ⟨hne, hp⟩
  · cases hu
  · exact ⟨hne, (placed_setLinks l n).mp hp⟩

lemma Hands.addEnqueue {a : ℕ} {l : Links ℕ} {n : ℕ} {M : List ℕ}
    (ht : QueuePlaced s L t (.add a)) (hM : ∀ u ∈ M, u = t ∨ u ∈ L k) :
    Hands { s.setLinks k l n with adds := update s.adds a none } (update L k M) := by
  refine h.enqueue ht hM rfl rfl fun u p hp => ?_
  rcases placed_setAdd hp with ⟨-, hu⟩ | ⟨hne, hp⟩
  · cases hu
  · exact ⟨hne, (placed_setLinks l n).mp hp⟩

/-- **A thread in nobody's hands** that no CPU executes may change in any way. -/
lemma Hands.reset (hno : ∀ p, ¬ QueuePlaced s L t p)
    (hoff : ∀ j, ¬ ((s.cpus j).current = some t ∨ (s.cpus j).phase = .switching (some t))) (x : RunThread) :
    Hands (s.setThread t x) L :=
  h.change (.of_free (.of_off hoff) (fun p hp => hno p ((placed_setThread x).mp hp))
      fun k hk => absurd (.inl hk.2) (hoff k))
    (fun _ _ _ => (placed_setThread x).mp) (fun _ hu => other_setThread hu x) fun u _ _ => .refl _ u

lemma Hands.addStart {a cpu : ℕ} (hno : ∀ p, ¬ QueuePlaced s L t p)
    (hoff : ∀ j, ¬ ((s.cpus j).current = some t ∨ (s.cpus j).phase = .switching (some t))) :
    Hands (addStart s a t cpu) L := by
  refine (h.reset hno hoff (added (s.threads t) cpu)).move (q := .add a) (fun u p hp => ?_)
    (fun _ _ => ⟨rfl, rfl⟩) (by simp [Chimera.addStart, added]) rfl (fun u _ => .refl _ u)
    fun j hj => absurd (.inl hj.2) (hoff j)
  rcases placed_setAdd hp with ⟨hpa, hu⟩ | ⟨-, hp⟩
  · exact .inr ⟨(Option.some.inj hu).symm, hpa⟩
  · refine .inl ⟨?_, hp⟩
    rintro rfl
    exact hno p ((placed_setThread _).mp hp)

/-- A thread without a CPU is on none. -/
lemma Hands.off_of_runningCpu (hrun : (s.threads t).runningCpu = none) (j : ℕ) :
    ¬ ((s.cpus j).current = some t ∨ (s.cpus j).phase = .switching (some t)) := by
  rintro (hcur | hphase)
  · rw [h.owner j t hcur] at hrun
    cases hrun
  · rw [(h.leaving j t hphase).1] at hrun
    cases hrun

lemma Hands.removeStart {r : ℕ} : Hands (removeStart s r t) L := by
  refine h.mono (fun u p hp => ?_) rfl (fun u => ?_) fun u hu => ?_
  · cases p <;> exact hp
  · simp only [Chimera.removeStart, RunSched.threads_setState]
    split_ifs with hut
    · rw [hut]
    · rfl
  · by_cases hut : u = t
    · simp [Chimera.removeStart, hut] at hu
    · simp only [Chimera.removeStart, RunSched.threads_setState, if_neg hut]

end

/-! ### CPUs -/

/-- A thread is the current one of one CPU only. -/
lemma Hands.current_unique (h : Hands s L) (hk : (s.cpus k).current = some t)
    (hj : (s.cpus j).current = some t) : j = k :=
  Option.some.inj ((h.owner j t hj).symm.trans (h.owner k t hk))

/-- A CPU with nothing in its hands puts nobody at a spot. -/
lemma placed_of_setCpu (hx : x.phase.inHand = none)
    (hp : QueuePlaced (s.setCpu k x) L u p) : p ≠ .cpu k ∧ QueuePlaced s L u p := by
  rcases placed_setCpu hp with ⟨-, hu⟩ | hp
  · rw [hx] at hu
    cases hu
  · exact hp

section

variable (h : Hands s L)
include h

/-- **A CPU goes on with nothing in its hands.** -/
lemma Hands.setCpu (hx : x.phase.inHand = none)
    (hcpu : ∀ u, (s.cpus k).Releases x u) : Hands (s.setCpu k x) L :=
  hands_of_held fun u => (h.held u).mono (fun _ hp => (placed_of_setCpu hx hp).2) rfl (fun _ => rfl)
    (releases_setCpu (hcpu u))

/-- **A CPU goes on with a thread changed** that is at no spot any more. -/
lemma Hands.setThread_setCpu {x : RunThread} {y : RunCpu} (hy : y.phase.inHand = none)
    (ht : ThreadHeld ((s.setThread t x).setCpu k y) L t) (hcpu : ∀ u, u ≠ t → (s.cpus k).Releases y u) :
    Hands ((s.setThread t x).setCpu k y) L :=
  h.change ht (fun _ _ _ hp => (placed_setThread x).mp (placed_of_setCpu hy hp).2)
    (fun _ hu => other_setThread hu x) fun u hu => releases_setCpu (hcpu u hu)

lemma Hands.park (hphase : (s.cpus k).phase = .running) (ht : (s.cpus k).current = some t) :
    Hands (park s k t) L := by
  have hrel : ∀ u, (s.cpus k).Releases { s.cpus k with phase := .parked } u := fun u =>
    RunCpu.releases_phase ⟨nofun, nofun⟩
  refine h.setThread_setCpu rfl (.of_free ((h.held t).toCpuHeld.mono (by simp) fun j =>
    (releases_setCpu (hrel t) j).toLeaves) (fun p hp => ?_) fun j hj => ?_) fun u _ => hrel u
  · exact (h.busy k t (.inl hphase) ht).1 p ((placed_setThread _).mp (placed_of_setCpu rfl hp).2)
  · have hjk := h.current_unique ht ((releases_setCpu (hrel t) j).current hj.2)
    simp [hjk, RunCpu.runs] at hj

/-- **The old thread is off its CPU.** -/
lemma Hands.switched {old : Option ℕ} (hphase : (s.cpus k).phase = .switching old) :
    Hands (switched s k old) L := by
  have hrel : ∀ u, (s.cpus k).Releases { s.cpus k with phase := .running } u := fun u =>
    ⟨⟨id, nofun⟩, fun hr => ⟨.inr ⟨old, hphase⟩, hr.2⟩⟩
  cases old with
  | none => exact h.setCpu rfl hrel
  | some t =>
    obtain ⟨hrun, hcur⟩ := h.leaving k t hphase
    have honly : ∀ j, (s.cpus j).current = some t ∨ (s.cpus j).phase = .switching (some t) → j = k := by
      rintro j (hc | hp)
      · exact Option.some.inj ((h.owner j t hc).symm.trans hrun)
      · exact Option.some.inj ((h.leaving j t hp).1.symm.trans hrun)
    have hoff : ∀ j, ¬ (((Chimera.switched s k (some t)).cpus j).current = some t ∨
        ((Chimera.switched s k (some t)).cpus j).phase = .switching (some t)) := by
      intro j hj
      by_cases hjk : j = k
      · simp [Chimera.switched, hjk, hcur] at hj
      · simp only [Chimera.switched, cpus_goto, RunSched.setThread_cpus, if_neg hjk] at hj
        exact hjk (honly j hj)
    have hplaced : ∀ p, QueuePlaced (Chimera.switched s k (some t)) L t p → QueuePlaced s L t p := fun p hp =>
      (placed_setThread _).mp (placed_of_setCpu rfl hp).2
    refine h.setThread_setCpu rfl ⟨.of_off hoff, fun p p' hp hp' => h.one t p p' (hplaced p hp) (hplaced p' hp'),
      fun hs p hp => h.quiet t (by simpa using hs) p (hplaced p hp), fun j hj => absurd (.inl hj.2) (hoff j)⟩
      fun u _ => hrel u

lemma Hands.dispatch {new : Option ℕ} (hphase : (s.cpus k).phase = .chosen new)
    (hfree : ∀ t, new = some t → new ≠ (s.cpus k).current → (s.threads t).runningCpu = none) :
    Hands (dispatch s k new) L := by
  cases new with
  | none =>
    rw [Chimera.dispatch]
    split_ifs with hsame
    · refine h.setCpu rfl fun u => ⟨⟨id, nofun⟩, fun hr => ?_⟩
      cases hsame.trans hr.2
    · exact h.setCpu rfl fun u => ⟨⟨nofun, fun hp => .inr ⟨CpuPhase.switching.inj hp, nofun⟩⟩,
        fun hr => absurd hr.2 nofun⟩
  | some t =>
    have ht : QueuePlaced s L t (.cpu k) := by
      rw [QueuePlaced, hphase]
      rfl
    -- the thread leaves the hands of the CPU
    have hno : ∀ {x y} p, CpuPhase.inHand (RunCpu.phase y) = none →
        ¬ QueuePlaced ((s.setThread t x).setCpu k y) L t p := by
      intro x y p hy hp
      obtain ⟨hne, hp⟩ := placed_of_setCpu hy hp
      exact h.ne_of_spot ht ((placed_setThread x).mp hp) hne rfl
    rw [Chimera.dispatch]
    split_ifs with hsame
    · have hleaves : ∀ u, (s.cpus k).Leaves { s.cpus k with phase := .running } u := fun _ => ⟨id, nofun⟩
      refine h.setThread_setCpu rfl (.of_free ((h.held t).toCpuHeld.mono (by simp) (cpus_setCpu_of
        (R := (·.Leaves · t)) (fun c => (RunCpu.Releases.refl c t).toLeaves) (hleaves t)))
        (fun p => hno p rfl) fun _ _ => by simp) fun u hu => ⟨hleaves u, fun hr => ?_⟩
      exact absurd (Option.some.inj (hsame.trans hr.2)).symm hu
    · have hoff := h.off_of_runningCpu (hfree t rfl hsame)
      refine h.setThread_setCpu rfl (.of_free ⟨fun j hj => ?_, fun j hj => ?_⟩
        (fun p => hno p rfl) fun _ _ => by simp) fun u hu => ⟨⟨fun hc => ?_, fun hp => ?_⟩, fun hr => ?_⟩
      · by_cases hjk : j = k
        · simp [hjk]
        · simp only [cpus_setCpu, if_neg hjk] at hj
          exact absurd (.inl hj) (hoff j)
      · by_cases hjk : j = k
        · simp only [cpus_setCpu, if_pos hjk] at hj
          exact absurd (CpuPhase.switching.inj hj).symm hsame
        · simp only [cpus_setCpu, if_neg hjk] at hj
          exact absurd (.inr hj) (hoff j)
      · exact absurd (Option.some.inj hc).symm hu
      · exact .inr ⟨CpuPhase.switching.inj hp, fun hc => hu (Option.some.inj hc).symm⟩
      · exact absurd (Option.some.inj hr.2).symm hu

/-- A CPU in the middle of `scheduler_yield` takes nothing. -/
lemma Hands.goto_empty (hph : ph = .stealing ∨ ph = .chosen none) : Hands (s.goto k ph) L := by
  refine h.setCpu ?_ fun u => RunCpu.releases_phase ?_
  · rcases hph with rfl | rfl <;> rfl
  · rcases hph with rfl | rfl <;> exact ⟨nofun, nofun⟩

/-- **A CPU takes a thread out of a queue.** -/
lemma Hands.take (hL : t ∈ L j) (hM : ∀ u ∈ M, u ≠ t ∧ u ∈ L j)
    (hthreads : ∀ u, (s'.threads u).state = (s.threads u).state ∧
      (s'.threads u).runningCpu = (s.threads u).runningCpu)
    (hcpus : s'.cpus = (s.goto k (.chosen (some t))).cpus) (hwakes : s'.wakes = s.wakes)
    (hadds : s'.adds = s.adds) : Hands s' (update L j M) := by
  have ht : QueuePlaced s L t (.queue j) := hL
  have hrel : ∀ u, (s.cpus k).Releases { s.cpus k with phase := .chosen (some t) } u := fun _ =>
    RunCpu.releases_phase ⟨nofun, nofun⟩
  refine h.move (q := .cpu k) (fun u p hp => ?_) (fun u _ => hthreads u) ?_ (hthreads t).2
    (fun u i => hcpus ▸ releases_setCpu (hrel u) i) (h.not_runs ht)
  · rcases placed_setCpu ((placed_congr hcpus hwakes hadds).mp hp) with ⟨hpk, hu⟩ | ⟨-, hp1⟩
    · exact .inr ⟨(Option.some.inj hu).symm, hpk⟩
    · rcases placed_update hp1 with ⟨hpq, hu⟩ | ⟨hnq, hp2⟩
      · rw [hpq]
        exact .inl (hM u hu)
      · exact .inl ⟨h.ne_of_spot ht hp2 hnq, hp2⟩
  · rw [(hthreads t).1]
    exact h.state_of_placed ht

/-- **The old thread of a CPU goes back into its queue.** -/
lemma Hands.putBack (hphase : (s.cpus k).phase = .stealing)
    (ht : (s.cpus k).current = some t) {l : Links ℕ} {n : ℕ} {x : RunThread}
    (hno : ∀ p, ¬ QueuePlaced s L t p) (hM : ∀ u ∈ M, u = t ∨ u ∈ L k) (hstate : x.state = .ready)
    (hrun : x.runningCpu = (s.threads t).runningCpu) :
    Hands ((s.setThread t x).setLinks k l n) (update L k M) := by
  refine h.move (q := .queue k) (fun u p hp => ?_) (fun u hu => other_setThread hu x) (by simp [hstate])
    (by simp [hrun]) (fun u _ => .refl _ u) fun j hj => ?_
  · rcases placed_update ((placed_setThread x).mp ((placed_setLinks l n).mp hp)) with ⟨hpq, hu⟩ | ⟨-, hp1⟩
    · by_cases hut : u = t
      · exact .inr ⟨hut, hpq⟩
      · rw [hpq]
        exact .inl ⟨hut, (hM u hu).resolve_left hut⟩
    · refine .inl ⟨?_, hp1⟩
      rintro rfl
      exact hno p hp1
  · obtain rfl := h.current_unique ht hj.2
    rcases hj.1 with hp | ⟨o, hp⟩ <;> cases hphase.symm.trans hp

end

end hands

/-! ## Steps -/

/-- **The invariant of the run queues**, their order apart. -/
structure RunInv (s : RunSched) (L : ℕ → List ℕ) : Prop where
  lists : QueueLists s L
  hands : Hands s L

section steps

variable {s s' : RunSched} {L : ℕ → List ℕ} {k t : ℕ}

/-- What the first half of the locked section of `scheduler_yield` does: nothing for the idle thread; the
old thread gets its priority, and it goes back into the queue if it was running. -/
inductive YieldOld (s : RunSched) (L : ℕ → List ℕ) (k : ℕ) : RunSched → (ℕ → List ℕ) → Prop
  | idle (h : (s.cpus k).current = none) : YieldOld s L k s L
  | back {t : ℕ} (h : (s.cpus k).current = some t) (hrun : (s.threads t).state = .running) (l : Links ℕ)
      (n : ℕ) : YieldOld s L k
        ((s.setThread t { lowered (s.threads t) with state := .ready }).setLinks k l n)
        (update L k (joined (s.setThread t { lowered (s.threads t) with state := .ready }) (L k) t))
  | away {t : ℕ} (h : (s.cpus k).current = some t) (hrun : (s.threads t).state ≠ .running) :
      YieldOld s L k (s.setThread t (lowered (s.threads t))) L

/-- What the second half does: the first thread of the queue is taken, if there is one. -/
inductive YieldNew (s : RunSched) (L : ℕ → List ℕ) (k : ℕ) : RunSched → (ℕ → List ℕ) → Prop
  | empty (h : L k = []) : YieldNew s L k (s.goto k .stealing) L
  | taken {th : ℕ} {M : List ℕ} (h : L k = th :: M) (l : Links ℕ) (n : ℕ) :
      YieldNew s L k ((s.setLinks k l n).goto k (.chosen (some th))) (update L k M)

/-- **Inversion of a yield.** -/
lemma RunInv.yield_cases (i : RunInv s L) {fuel : ℕ} (hs : yieldLocked fuel s k = some s') :
    ∃ s₁ L₁ L', YieldOld s L k s₁ L₁ ∧ YieldNew s₁ L₁ k s' L' ∧ QueueLists s' L' := by
  have hnew : ∀ {s₁ L₁}, QueueLists s₁ L₁ → ∃ L', YieldNew s₁ L₁ k (yieldNew s₁ k) L' ∧
      QueueLists (yieldNew s₁ k) L' := by
    intro s₁ L₁ h1
    rw [yieldNew]
    obtain ⟨hd, hL⟩ | ⟨th, M, hL, l, n, hd, hq⟩ := h1.dequeue
    · rw [hd]
      exact ⟨L₁, .empty hL, h1.frame rfl rfl⟩
    · rw [hd]
      exact ⟨_, .taken hL l n, hq.frame rfl rfl⟩
  rw [yieldLocked] at hs
  cases hcur : (s.cpus k).current with
  | none =>
    rw [hcur] at hs
    cases hs
    obtain ⟨L', hyield, hq⟩ := hnew i.lists
    exact ⟨s, L, L', .idle hcur, hyield, hq⟩
  | some t =>
    rw [hcur] at hs
    obtain ⟨s₁, h1, rfl⟩ := Option.map_eq_some_iff.mp hs
    rw [yieldOld] at h1
    split_ifs at h1 with hrun
    · have hno : ∀ k, t ∉ L k := fun k hk => i.hands.quiet t (.inr hrun) (.queue k) hk
      have hframe : QueueLists (s.setThread t { lowered (s.threads t) with state := .ready }) L :=
        i.lists.frame rfl rfl
      obtain ⟨hq, l, n, rfl⟩ := hframe.enqueue hno h1
      obtain ⟨L', hyield, hq'⟩ := hnew hq
      exact ⟨_, _, L', .back hcur hrun l n, hyield, hq'⟩
    · cases h1
      have hframe : QueueLists (s.setThread t (lowered (s.threads t))) L := i.lists.frame rfl rfl
      obtain ⟨L', hyield, hq'⟩ := hnew hframe
      exact ⟨_, _, L', .away hcur hrun, hyield, hq'⟩

variable {s₁ : RunSched}

/-- After the first half, with the CPU in the middle of `scheduler_yield`. -/
lemma Hands.yieldOld {L₁ : ℕ → List ℕ} (h : Hands s L) (hold : YieldOld s L k s₁ L₁) :
    Hands (s₁.goto k .stealing) L₁ := by
  have h0 : Hands (s.goto k .stealing) L := h.goto_empty (.inl rfl)
  cases hold with
  | idle _ => exact h0
  | @back t hcur hrun l n =>
    have hno : ∀ p, ¬ QueuePlaced (s.goto k .stealing) L t p := h0.quiet t (.inr hrun)
    exact h0.putBack
      (by simp) (by simpa using hcur) hno (fun u hu => mem_joined.mp hu) rfl rfl
  | away hcur hrun => exact h0.setThread rfl rfl

lemma Hands.yieldNew {L' : ℕ → List ℕ} (h : Hands (s.goto k .stealing) L)
    (hlist : (L k).Nodup) (hnew : YieldNew s L k s₁ L') : Hands s₁ L' := by
  cases hnew with
  | empty _ => exact h
  | @taken th M hL l n =>
    rw [hL] at hlist
    refine h.take (k := k) (by rw [hL]; exact List.mem_cons_self) (fun u hu => ⟨?_, ?_⟩)
      (fun _ => ⟨rfl, rfl⟩) (funext fun j => ?_) rfl rfl
    · rintro rfl
      exact (List.nodup_cons.mp hlist).1 hu
    · rw [hL]
      exact List.mem_cons_of_mem _ hu
    · simp only [cpus_goto, RunSched.setLinks_cpus]
      split_ifs <;> rfl

/-- **What a step can do**, to the state and to the lists of the queues. -/
inductive RunMoved (s : RunSched) (L : ℕ → List ℕ) : RunOp → RunSched → (ℕ → List ℕ) → Prop
  | yield {k : ℕ} {s₁ s' : RunSched} {L₁ L' : ℕ → List ℕ} (hk : k < maxCpus)
      (hold : YieldOld s L k s₁ L₁) (hnew : YieldNew s₁ L₁ k s' L') : RunMoved s L (.yield k) s' L'
  | steal {k victim th n : ℕ} {M : List ℕ} {l : Links ℕ} (hL : L victim = M ++ [th]) :
      RunMoved s L (.steal k victim) (((s.setLinks victim l n).setThread th
        { s.threads th with assignedCpu := k }).goto k (.chosen (some th))) (update L victim M)
  | noSteal {k victim : ℕ} : RunMoved s L (.steal k victim) (s.goto k (.chosen none)) L
  | noVictim {k : ℕ} : RunMoved s L (.noVictim k) (s.goto k (.chosen none)) L
  | dispatch {k : ℕ} {new : Option ℕ} (hphase : (s.cpus k).phase = .chosen new)
      (hfree : ∀ t, new = some t → new ≠ (s.cpus k).current → (s.threads t).runningCpu = none) :
      RunMoved s L (.dispatch k) (dispatch s k new) L
  | switched {k : ℕ} {old : Option ℕ} (hphase : (s.cpus k).phase = .switching old) :
      RunMoved s L (.switched k) (switched s k old) L
  | park {k t : ℕ} (hphase : (s.cpus k).phase = .running) (ht : (s.cpus k).current = some t) :
      RunMoved s L (.park k) (park s k t) L
  | wakeSwap {w t : ℕ} : RunMoved s L (.wakeSwap w t) (wakeSwap s w t) L
  | wakeBoost {w my t : ℕ} (hmy : my < maxCpus) (hw : s.wakes w = .woken t) :
      RunMoved s L (.wakeBoost w my) (wakeBoost s w my t) L
  | wakeEnqueue {w t cpu n : ℕ} {l : Links ℕ} (hw : s.wakes w = .targeted t cpu) :
      RunMoved s L (.wakeEnqueue w) ((s.setLinks cpu l n).setWake w .idle)
        (update L cpu (joined s (L cpu) t))
  | addStart {a t cpu : ℕ} (hqueue : ∀ k, t ∉ L k)
      (hcpu : cpu = 0 ∨ (cpu < s.totalCpus ∧ cpu < maxCpus ∧ (s.cpus cpu).isActive = true)) :
      RunMoved s L (.addStart a t cpu) (addStart s a t cpu) L
  | addEnqueue {a t cpu n : ℕ} {l : Links ℕ} (ha : s.adds a = some (t, cpu)) :
      RunMoved s L (.addEnqueue a) { s.setLinks cpu l n with adds := update s.adds a none }
        (update L cpu (joined s (L cpu) t))
  | removeStart {r t : ℕ} : RunMoved s L (.removeStart r t) (removeStart s r t) L
  | removeLocked {r t cpu n : ℕ} {l : Links ℕ} (hr : s.removals r = some (t, cpu)) (hcpu : cpu < maxCpus) :
      RunMoved s L (.removeLocked r) { s.setLinks cpu l n with removals := update s.removals r none }
        (update L cpu ((L cpu).erase t))
  | removeNothing {r t cpu : ℕ} (hr : s.removals r = some (t, cpu)) (hcpu : maxCpus ≤ cpu) :
      RunMoved s L (.removeLocked r) { s with removals := update s.removals r none } L

/-- A thread in the hands of a call is in no queue. -/
lemma Hands.notMem (h : Hands s L) {p : Spot} (ht : QueuePlaced s L t p) (hp : ∀ k, p ≠ .queue k) (k : ℕ) :
    t ∉ L k := fun hk => hp k (h.one t p (.queue k) ht hk)

lemma RunInv.moved (i : RunInv s L) {op : RunOp} (h : RunStep s op s') :
    ∃ L', RunMoved s L op s' L' ∧ QueueLists s' L' := by
  cases h with
  | yield fuel hk hphase hs =>
    obtain ⟨s₁, L₁, L', hold, hnew, hq⟩ := i.yield_cases hs
    exact ⟨L', .yield hk hold hnew, hq⟩
  | steal fuel hphase hvictim hs =>
    obtain rfl | ⟨th, M, l, n, hL, hq, rfl⟩ := i.lists.steal hs
    · exact ⟨L, .noSteal, i.lists.frame rfl rfl⟩
    · exact ⟨_, .steal hL, hq.frame rfl rfl⟩
  | noVictim hphase => exact ⟨L, .noVictim, i.lists.frame rfl rfl⟩
  | @dispatch k new hphase hfree =>
    refine ⟨L, .dispatch hphase hfree, ?_⟩
    cases new with
    | none =>
      rw [dispatch]
      split_ifs <;> exact i.lists.frame rfl rfl
    | some t =>
      rw [dispatch]
      split_ifs <;> exact i.lists.frame rfl rfl
  | @switched k old hphase =>
    refine ⟨L, .switched hphase, ?_⟩
    cases old <;> exact i.lists.frame rfl rfl
  | park hphase ht => exact ⟨L, .park hphase ht, i.lists.frame rfl rfl⟩
  | @wakeSwap w t hw =>
    refine ⟨L, .wakeSwap, ?_⟩
    rw [wakeSwap]
    split_ifs <;> exact i.lists.frame rfl rfl
  | wakeBoost hmy hw => exact ⟨L, .wakeBoost hmy hw, i.lists.frame rfl rfl⟩
  | @wakeEnqueue fuel w t cpu _ hw hs =>
    obtain ⟨s₁, hs1, rfl⟩ := Option.map_eq_some_iff.mp hs
    have ht : QueuePlaced s L t (.wake w) := congrArg WakePhase.thread hw
    obtain ⟨hq, l, n, rfl⟩ := i.lists.enqueue (i.hands.notMem ht nofun) hs1
    exact ⟨_, .wakeEnqueue hw, hq.frame rfl rfl⟩
  | addStart ha hqueue hcpu =>
    exact ⟨L, .addStart (fun k hk => hqueue k (i.lists.inQueue_iff.mpr hk)) hcpu, i.lists.frame rfl rfl⟩
  | @addEnqueue fuel a t cpu _ ha hs =>
    obtain ⟨s₁, hs1, rfl⟩ := Option.map_eq_some_iff.mp hs
    have ht : QueuePlaced s L t (.add a) := congrArg (Option.map Prod.fst) ha
    obtain ⟨hq, l, n, rfl⟩ := i.lists.enqueue (i.hands.notMem ht nofun) hs1
    exact ⟨_, .addEnqueue ha, hq.frame rfl rfl⟩
  | removeStart hr => exact ⟨L, .removeStart, i.lists.frame rfl rfl⟩
  | removeLocked fuel hr hs =>
    obtain ⟨s₁, hs1, rfl⟩ := Option.map_eq_some_iff.mp hs
    split_ifs at hs1 with hcpu
    · obtain ⟨hq, l, n, rfl⟩ := i.lists.remove hs1
      exact ⟨_, .removeLocked hr hcpu, hq.frame rfl rfl⟩
    · cases hs1
      exact ⟨L, .removeNothing hr (Nat.le_of_not_lt hcpu), i.lists.frame rfl rfl⟩

end steps

/-- A thread is in the hands of a CPU or of a call. -/
def RunSched.inHands (s : RunSched) (t : ℕ) : Prop :=
  (∃ k, (s.cpus k).phase.inHand = some t) ∨ (∃ w, (s.wakes w).thread = some t) ∨
    ∃ a, (s.adds a).map Prod.fst = some t

/-- `scheduler_add_thread` is called for threads that are on no CPU and in nobody's hands. -/
def RunOp.addsFree (s : RunSched) : RunOp → Prop
  | .addStart _ t _ => (s.threads t).runningCpu = none ∧ ¬ s.inHands t
  | _ => True

/-- **Orderly steps**: a thread is added only when it is free, and a thread that yields while it is in a
queue keeps its place in the order. -/
def RunOp.orderly (s : RunSched) : RunOp → Prop
  | .yield k => ∀ t u, (s.cpus k).current = some t → s.next t = some u →
      (s.threads u).priority ≤ yieldPriority (s.threads t)
  | op => op.addsFree s

section invariant

variable {s s' : RunSched} {L L' : ℕ → List ℕ} {op : RunOp}

variable {L₁ : ℕ → List ℕ} {k t : ℕ} {s₁ : RunSched} {x : RunThread} {M : List ℕ}

/-- The queue of a CPU that yields holds no thread twice. -/
lemma RunInv.nodup_yieldOld (i : RunInv s L) (h : YieldOld s L k s₁ L₁) : (L₁ k).Nodup := by
  cases h with
  | idle _ => exact (i.lists.list k).nodup
  | away _ _ => exact (i.lists.list k).nodup
  | @back t hcur hrun l n =>
    rw [update_self, (joined_perm _ _ _).nodup_iff, List.nodup_cons]
    exact ⟨fun ht => i.hands.quiet t (.inr hrun) (.queue k) ht, (i.lists.list k).nodup⟩

lemma RunInv.hands_moved (i : RunInv s L) (hC : op.addsFree s) (h : RunMoved s L op s' L') : Hands s' L' := by
  have h0 := i.hands
  cases h with
  | yield hk hold hnew => exact (h0.yieldOld hold).yieldNew (i.nodup_yieldOld hold) hnew
  | @steal k victim th n M l hL =>
    have hnd : (M ++ [th]).Nodup := hL ▸ (i.lists.list victim).nodup
    refine h0.take (by rw [hL]; simp) (fun u hu => ⟨?_, ?_⟩) (fun u => ?_) rfl rfl rfl
    · rintro rfl
      exact List.disjoint_of_nodup_append hnd hu (List.mem_singleton_self _)
    · rw [hL]
      exact List.mem_append_left _ hu
    · simp only [RunSched.threads_goto, threads_setThread, RunSched.setLinks_threads]
      split_ifs with hu
      · rw [hu]
        exact ⟨rfl, rfl⟩
      · exact ⟨rfl, rfl⟩
  | noSteal => exact h0.goto_empty (.inr rfl)
  | noVictim => exact h0.goto_empty (.inr rfl)
  | dispatch hphase hfree => exact h0.dispatch hphase hfree
  | switched hphase => exact h0.switched hphase
  | park hphase ht => exact h0.park hphase ht
  | wakeSwap => exact h0.wakeSwap
  | wakeBoost hmy hw => exact h0.wakeBoost hw
  | wakeEnqueue hw => exact h0.wakeEnqueue (congrArg WakePhase.thread hw) fun u hu => mem_joined.mp hu
  | @addStart a t cpu hqueue hcpu =>
    refine h0.addStart (fun p hp => ?_) (h0.off_of_runningCpu hC.1)
    cases p with
    | queue k => exact hqueue k hp
    | cpu k => exact hC.2 (.inl ⟨k, hp⟩)
    | wake w => exact hC.2 (.inr (.inl ⟨w, hp⟩))
    | add a' => exact hC.2 (.inr (.inr ⟨a', hp⟩))
  | addEnqueue ha => exact h0.addEnqueue (congrArg (Option.map Prod.fst) ha) fun u hu => mem_joined.mp hu
  | removeStart => exact h0.removeStart
  | removeLocked hr hcpu =>
    refine h0.mono (fun u p hp => ?_) rfl (fun _ => rfl) fun _ _ => rfl
    rcases placed_update ((placed_congr rfl rfl rfl).mp hp) with ⟨hpq, hu⟩ | ⟨-, hp1⟩
    · rw [hpq]
      exact List.mem_of_mem_erase hu
    · exact hp1
  | removeNothing hr hcpu =>
    exact h0.mono (fun u p => (placed_congr rfl rfl rfl).mp) rfl (fun _ => rfl) fun _ _ => rfl

/-! ## Order -/

/-- A thread is in a queue, or about to be put into one. -/
def Settled (s : RunSched) (L : ℕ → List ℕ) (t : ℕ) : Prop :=
  (∃ k, t ∈ L k) ∨ (∃ w cpu, s.wakes w = .targeted t cpu) ∨ ∃ a cpu, s.adds a = some (t, cpu)

/-- **The order of the queues.** -/
structure Ordered (s : RunSched) (L : ℕ → List ℕ) : Prop where
  sorted : ∀ k, (L k).Pairwise fun a b => (s.threads b).priority ≤ (s.threads a).priority
  sched : ∀ t, Settled s L t → (s.threads t).priority = (s.threads t).schedPriority

/-- The priorities of a thread are the same in both states. -/
def SamePriority (s s' : RunSched) (t : ℕ) : Prop :=
  (s'.threads t).priority = (s.threads t).priority ∧
    (s'.threads t).schedPriority = (s.threads t).schedPriority

lemma samePriority_update (hthreads : s'.threads = update s.threads t x)
    (hp : x.priority = (s.threads t).priority) (hs : x.schedPriority = (s.threads t).schedPriority)
    (u : ℕ) : SamePriority s s' u := by
  rw [SamePriority, hthreads, update_apply]
  split_ifs with hu
  · rw [hu]
    exact ⟨hp, hs⟩
  · exact ⟨rfl, rfl⟩

/-- The queues lose threads at most, and those that stay keep their priorities. -/
lemma Ordered.sublist (h : Ordered s L) (hsub : ∀ k, (L' k).Sublist (L k))
    (hprio : ∀ k, ∀ t ∈ L' k, SamePriority s s' t)
    (hsched : ∀ t, Settled s' L' t →
      (Settled s L t ∧ SamePriority s s' t) ∨ (s'.threads t).priority = (s'.threads t).schedPriority) :
    Ordered s' L' := by
  refine ⟨fun k => ?_, fun t ht => ?_⟩
  · refine ((h.sorted k).sublist (hsub k)).imp_of_mem fun ha hb hab => ?_
    rw [(hprio k _ ha).1, (hprio k _ hb).1]
    exact hab
  · rcases hsched t ht with ⟨hold, hsame⟩ | heq
    · rw [hsame.1, hsame.2]
      exact h.sched t hold
    · exact heq

/-- **Frame.** No priority changes, and nobody new is settled. -/
lemma Ordered.frame (h : Ordered s L) (hsub : ∀ k, (L' k).Sublist (L k))
    (hprio : ∀ t, SamePriority s s' t) (hwakes : s'.wakes = s.wakes) (hadds : s'.adds = s.adds) :
    Ordered s' L' := by
  refine h.sublist hsub (fun _ t _ => hprio t) fun t ht => .inl ⟨?_, hprio t⟩
  rw [Settled, hwakes, hadds] at ht
  exact ht.imp_left fun ⟨k, hk⟩ => ⟨k, (hsub k).subset hk⟩

/-- **A thread joins behind all those of its priority.** -/
lemma Ordered.join (h : Ordered s L) (ht : (s.threads t).priority = (s.threads t).schedPriority) :
    Ordered s (update L k (joined s (L k) t)) := by
  refine ⟨fun j => ?_, fun u hu => ?_⟩
  · by_cases hj : j = k
    · rw [hj, update_self, joined, List.pairwise_append]
      have hL := h.sorted k
      have hdrop := hL.sublist (List.dropWhile_sublist
        (fun c => decide ((s.threads t).priority ≤ (s.threads c).priority)))
      have hfront : ∀ a ∈ (L k).takeWhile (fun c => (s.threads t).priority ≤ (s.threads c).priority),
          (s.threads t).priority ≤ (s.threads a).priority := fun a ha => by
        simpa using List.mem_takeWhile_imp ha
      -- the first one behind the thread has a lower priority, and all others behind it no higher one
      have hback : ∀ b ∈ (L k).dropWhile (fun c => (s.threads t).priority ≤ (s.threads c).priority),
          (s.threads b).priority ≤ (s.threads t).priority := by
        intro b hb
        cases hD : (L k).dropWhile (fun c => decide ((s.threads t).priority ≤ (s.threads c).priority)) with
        | nil =>
          rw [hD] at hb
          cases hb
        | cons d D =>
          have hd : ¬ (s.threads t).priority ≤ (s.threads d).priority := by
            have hhead := List.head?_dropWhile_not
              (fun c => decide ((s.threads t).priority ≤ (s.threads c).priority)) (L k)
            rw [hD] at hhead
            simpa using hhead
          rw [hD] at hb hdrop
          rcases List.mem_cons.mp hb with rfl | hb
          · exact (Nat.lt_of_not_le hd).le
          · exact ((List.pairwise_cons.mp hdrop).1 b hb).trans (Nat.lt_of_not_le hd).le
      refine ⟨hL.sublist (List.takeWhile_sublist _), List.pairwise_cons.mpr ⟨hback, hdrop⟩, ?_⟩
      intro a ha b hb
      rcases List.mem_cons.mp hb with rfl | hb
      · exact hfront a ha
      · exact (hback b hb).trans (hfront a ha)
    · rw [update_of_ne hj]
      exact h.sorted j
  · by_cases hut : u = t
    · rwa [hut]
    · refine h.sched u (hu.imp_left fun ⟨j, hj⟩ => ?_)
      by_cases hjk : j = k
      · rw [hjk, update_self] at hj
        exact ⟨k, (mem_joined.mp hj).resolve_left hut⟩
      · rw [update_of_ne hjk] at hj
        exact ⟨j, hj⟩

lemma yieldPriority_le (x : RunThread) : yieldPriority x ≤ x.schedPriority := by
  rw [yieldPriority]
  split_ifs
  · exact Nat.sub_le _ _
  · exact le_rfl

/-- In a sorted list one element may be lowered, down to the one behind it. -/
lemma pairwise_lower {f g : ℕ → ℕ} {next : ℕ → Option ℕ} {hd : Option ℕ}
    (hM : M.Pairwise fun a b => f b ≤ f a) (hchain : Chain next hd M) (hother : ∀ u, u ≠ t → g u = f u)
    (hle : t ∈ M → g t ≤ f t) (hnext : ∀ u, next t = some u → f u ≤ g t) :
    M.Pairwise fun a b => g b ≤ g a := by
  induction M generalizing hd with
  | nil => exact List.Pairwise.nil
  | cons a M ih =>
    obtain ⟨ha, hM'⟩ := List.pairwise_cons.mp hM
    have hnd := List.nodup_cons.mp hchain.nodup
    refine List.pairwise_cons.mpr ⟨fun b hb => ?_, ih hM' hchain.2 fun ht => hle (List.mem_cons_of_mem _ ht)⟩
    by_cases hat : a = t
    · -- all behind `t` are below its neighbour
      have hbt : b ≠ t := by
        rintro rfl
        exact hnd.1 (hat ▸ hb)
      rw [hat, hother b hbt]
      cases M with
      | nil => cases hb
      | cons u M =>
        have hu : next t = some u := hat ▸ hchain.2.1
        rcases List.mem_cons.mp hb with rfl | hb
        · exact hnext b hu
        · exact ((List.pairwise_cons.mp hM').1 b hb).trans (hnext u hu)
    · rw [hother a hat]
      by_cases hbt : b = t
      · rw [hbt]
        exact (hle (hbt ▸ List.mem_cons_of_mem _ hb)).trans (hbt ▸ ha b hb)
      · rw [hother b hbt]
        exact ha b hb

/-- **A thread in a queue yields.** -/
lemma Ordered.lower (h : Ordered s L) (hq : QueueLists s L)
    (hnext : ∀ u, s.next t = some u → (s.threads u).priority ≤ yieldPriority (s.threads t)) :
    Ordered (s.setThread t (lowered (s.threads t))) L := by
  have hother : ∀ u, u ≠ t → (s.setThread t (lowered (s.threads t))).threads u = s.threads u := by
    intro u hu
    rw [threads_setThread, if_neg hu]
  have hself : (s.setThread t (lowered (s.threads t))).threads t = lowered (s.threads t) := by
    rw [threads_setThread, if_pos rfl]
  refine ⟨fun k => ?_, fun u hu => ?_⟩
  · refine pairwise_lower
      (h.sorted k) (hq.list k) (fun u hu => by rw [hother u hu]) (fun ht => ?_) fun u hu => ?_
    · rw [hself, h.sched t (.inl ⟨k, ht⟩)]
      exact yieldPriority_le _
    · rw [hself]
      exact hnext u hu
  · by_cases hut : u = t
    · rw [hut, hself]
      rfl
    · rw [hother u hut]
      exact h.sched u hu

/-- A wake-up settles nobody but the thread it has a queue for. -/
lemma settled_setWake {w : ℕ} {x : WakePhase} (hx : ∀ cpu, x ≠ .targeted t cpu)
    (h : Settled (s.setWake w x) L t) : Settled s L t := by
  refine h.imp_right (Or.imp_left ?_)
  rintro ⟨w', cpu, hw⟩
  rw [RunSched.setWake] at hw
  dsimp only at hw
  by_cases hww : w' = w
  · rw [hww, update_self] at hw
    exact absurd hw (hx cpu)
  · rw [update_of_ne hww] at hw
    exact ⟨w', cpu, hw⟩

lemma settled_setAdd {a : ℕ} {x : Option (ℕ × ℕ)} (hx : ∀ cpu, x ≠ some (t, cpu))
    (h : Settled { s with adds := update s.adds a x } L t) : Settled s L t := by
  refine h.imp_right (Or.imp_right ?_)
  rintro ⟨a', cpu, ha⟩
  dsimp only at ha
  by_cases haa : a' = a
  · rw [haa, update_self] at ha
    exact absurd ha (hx cpu)
  · rw [update_of_ne haa] at ha
    exact ⟨a', cpu, ha⟩

/-- A thread that is in no queue gets new priorities. -/
lemma Ordered.setThread (h : Ordered s L) (ht : ∀ k, t ∉ L k)
    (hx : x.priority = x.schedPriority) : Ordered (s.setThread t x) L := by
  have hother : ∀ u, u ≠ t → SamePriority s (s.setThread t x) u := by
    intro u hu
    rw [SamePriority, threads_setThread, if_neg hu]
    exact ⟨rfl, rfl⟩
  refine h.sublist (fun _ => List.Sublist.refl _) (fun k u hu => hother u ?_) fun u hu => ?_
  · rintro rfl
    exact ht k hu
  · by_cases hut : u = t
    · rw [hut, threads_setThread, if_pos rfl]
      exact .inr hx
    · exact .inl ⟨hu, hother u hut⟩

lemma Ordered.yieldOld (o : Ordered s L) (i : RunInv s L)
    (hC : ∀ t u, (s.cpus k).current = some t → s.next t = some u →
      (s.threads u).priority ≤ yieldPriority (s.threads t)) (h : YieldOld s L k s₁ L₁) : Ordered s₁ L₁ := by
  cases h with
  | idle _ => exact o
  | away hcur _ => exact o.lower i.lists fun u hu => hC _ u hcur hu
  | @back t hcur hrun l n =>
    have hno : ∀ j, t ∉ L j := fun j hj => i.hands.quiet t (.inr hrun) (.queue j) hj
    have o1 := o.setThread (x := { lowered (s.threads t) with state := .ready }) hno rfl
    have o2 := o1.join (k := k) (t := t) (by simp [lowered])
    exact o2.frame (fun _ => List.Sublist.refl _) (fun _ => ⟨rfl, rfl⟩) rfl rfl

lemma Ordered.yieldNew (o : Ordered s L) (h : YieldNew s L k s' L') : Ordered s' L' := by
  cases h with
  | empty _ => exact o.frame (fun _ => List.Sublist.refl _) (fun _ => ⟨rfl, rfl⟩) rfl rfl
  | @taken th M hL l n =>
    refine o.frame (fun j => ?_) (fun _ => ⟨rfl, rfl⟩) rfl rfl
    by_cases hj : j = k
    · rw [hj, update_self, hL]
      exact List.sublist_cons_self th M
    · rw [update_of_ne hj]

/-- A queue that loses threads. -/
lemma sublist_update (hM : M.Sublist (L k)) (j : ℕ) : (update L k M j).Sublist (L j) := by
  by_cases hj : j = k
  · rwa [hj, update_self]
  · rw [update_of_ne hj]

lemma RunInv.ordered_moved (i : RunInv s L) (o : Ordered s L) (hC : op.orderly s)
    (h : RunMoved s L op s' L') : Ordered s' L' := by
  have hrefl : ∀ k, (L k).Sublist (L k) := fun _ => List.Sublist.refl _
  cases h with
  | yield hk hold hnew => exact (o.yieldOld i hC hold).yieldNew hnew
  | @steal k victim th n M l hL =>
    refine o.frame (sublist_update ?_) (fun u => ?_) rfl rfl
    · rw [hL]
      exact List.sublist_append_left M [th]
    · exact samePriority_update (x := { s.threads th with assignedCpu := k }) rfl rfl rfl u
  | noSteal => exact o.frame hrefl (fun _ => ⟨rfl, rfl⟩) rfl rfl
  | noVictim => exact o.frame hrefl (fun _ => ⟨rfl, rfl⟩) rfl rfl
  | @dispatch k new hphase hfree =>
    cases new with
    | none =>
      rw [dispatch]
      split_ifs <;> exact o.frame hrefl (fun _ => ⟨rfl, rfl⟩) rfl rfl
    | some t =>
      rw [dispatch]
      split_ifs
      · exact o.frame hrefl (samePriority_update rfl rfl rfl) rfl rfl
      · exact o.frame hrefl (samePriority_update rfl rfl rfl) rfl rfl
  | @switched k old hphase =>
    cases old with
    | none => exact o.frame hrefl (fun _ => ⟨rfl, rfl⟩) rfl rfl
    | some t => exact o.frame hrefl (samePriority_update rfl rfl rfl) rfl rfl
  | park hphase ht => exact o.frame hrefl (samePriority_update rfl rfl rfl) rfl rfl
  | @wakeSwap w t =>
    rw [wakeSwap]
    split_ifs
    · have hsame : ∀ u, SamePriority s ((s.setState t .ready).setWake w (.woken t)) u :=
        samePriority_update rfl rfl rfl
      refine o.sublist hrefl (fun _ u _ => hsame u) fun u hu => .inl ⟨?_, hsame u⟩
      exact settled_setWake (x := .woken t) nofun hu
    · exact o
  | @wakeBoost w my t hmy hw =>
    have ht : QueuePlaced s L t (.wake w) := congrArg WakePhase.thread hw
    have o1 := o.setThread (x := { s.threads t with
      schedPriority := min ((s.threads t).basePriority + 16) 95
      priority := min ((s.threads t).basePriority + 16) 95
      assignedCpu := wakeTarget s my t }) (i.hands.notMem ht nofun) rfl
    refine o1.sublist hrefl (fun _ _ _ => ⟨rfl, rfl⟩) fun u hu => ?_
    by_cases hut : u = t
    · refine .inr ?_
      simp [wakeBoost, hut]
    · refine .inl ⟨?_, rfl, rfl⟩
      refine settled_setWake (fun cpu' e => hut ?_) hu
      exact (WakePhase.targeted.inj e).1.symm
  | @wakeEnqueue w t cpu n l hw =>
    have ht : Settled s L t := .inr (.inl ⟨w, cpu, hw⟩)
    refine (o.join (o.sched t ht)).sublist (fun _ => List.Sublist.refl _)
      (fun _ _ _ => ⟨rfl, rfl⟩) fun u hu => .inl ⟨?_, rfl, rfl⟩
    exact settled_setWake (x := .idle) nofun hu
  | @addStart a t cpu hqueue hcpu =>
    have o1 := o.setThread (x := added (s.threads t) cpu) hqueue rfl
    refine o1.sublist hrefl (fun _ _ _ => ⟨rfl, rfl⟩) fun u hu => ?_
    by_cases hut : u = t
    · refine .inr ?_
      simp [addStart, added, hut]
    · refine .inl ⟨?_, rfl, rfl⟩
      refine settled_setAdd (fun cpu' e => hut ?_) hu
      exact (Prod.mk.inj (Option.some.inj e)).1.symm
  | @addEnqueue a t cpu n l ha =>
    have ht : Settled s L t := .inr (.inr ⟨a, cpu, ha⟩)
    refine (o.join (o.sched t ht)).sublist (fun _ => List.Sublist.refl _)
      (fun _ _ _ => ⟨rfl, rfl⟩) fun u hu => .inl ⟨?_, rfl, rfl⟩
    exact settled_setAdd (x := none) nofun hu
  | removeStart => exact o.frame hrefl (samePriority_update rfl rfl rfl) rfl rfl
  | @removeLocked r t cpu n l hr hcpu =>
    exact o.frame (sublist_update List.erase_sublist) (fun _ => ⟨rfl, rfl⟩) rfl rfl
  | removeNothing hr hcpu => exact o.frame hrefl (fun _ => ⟨rfl, rfl⟩) rfl rfl

lemma RunInv.step (i : RunInv s L) (hC : op.addsFree s) (h : RunStep s op s') :
    ∃ L', RunMoved s L op s' L' ∧ RunInv s' L' := by
  obtain ⟨L', hm, hq⟩ := i.moved h
  exact ⟨L', hm, hq, i.hands_moved hC hm⟩

lemma RunStart.inv (h : RunStart s) : RunInv s fun _ => [] := by
  have hno : ∀ t p, ¬ QueuePlaced s (fun _ => []) t p := by
    intro t p hp
    cases p with
    | queue k => exact List.not_mem_nil hp
    | cpu k =>
      rw [QueuePlaced, h.phase] at hp
      cases hp
    | wake w =>
      rw [QueuePlaced, h.wakes] at hp
      cases hp
    | add a =>
      rw [QueuePlaced, h.adds] at hp
      cases hp
  refine ⟨⟨fun k => ?_, fun k => ?_, fun _ _ _ => List.disjoint_nil_left _, fun t _ => h.next t⟩,
    ⟨fun t p _ hp => absurd hp (hno t p), fun t _ p => hno t p, fun k t ht => (h.current k t ht).2.1,
      fun k t hp => ?_, fun k t _ ht => ⟨hno t, ?_⟩⟩⟩
  · exact congrArg RunQueue.head (h.runqs k)
  · exact congrArg RunQueue.count (h.runqs k)
  · rw [h.phase] at hp
    cases hp
  · rw [(h.current k t ht).1]
    exact nofun

lemma RunStart.ordered (h : RunStart s) : Ordered s fun _ => [] := by
  refine ⟨fun _ => List.Pairwise.nil, fun t ht => ?_⟩
  obtain ⟨k, hk⟩ | ⟨w, cpu, hw⟩ | ⟨a, cpu, ha⟩ := ht
  · cases hk
  · rw [h.wakes] at hw
    cases hw
  · rw [h.adds] at ha
    cases ha

end invariant

/-- Runs from `s₀` each of whose steps satisfies `C` in the state it is taken in. -/
inductive RunRun (C : RunSched → RunOp → Prop) (s₀ : RunSched) : RunSched → Prop
  | start : RunRun C s₀ s₀
  | step {s s' : RunSched} (op : RunOp) (hrun : RunRun C s₀ s) (hC : C s op) (hstep : RunStep s op s') :
      RunRun C s₀ s'

/-- **What a run queue promises**: it is an acyclic list of `count` threads in the order of their
priorities, and no thread is in two queues. -/
structure RunQueuesOk (s : RunSched) : Prop where
  list : ∀ k, ∃ L, (s.links k).IsList L ∧ L.Nodup ∧ (s.runqs k).count = L.length ∧
    L.Pairwise fun a b => (s.threads b).priority ≤ (s.threads a).priority
  apart : ∀ k k' t, s.inQueue k t → s.inQueue k' t → k = k'

lemma RunOp.orderly.addsFree {s : RunSched} {op : RunOp} (h : op.orderly s) : op.addsFree s := by
  cases op <;> first | exact h | exact trivial

/-- **The run queues.** In every run of orderly steps, every run queue is an acyclic list whose length is
its count, in the order of the priorities, and no thread is in two queues. -/
theorem run_queue_invariant {s₀ s : RunSched} (h₀ : RunStart s₀)
    (h : RunRun (fun s op => op.orderly s) s₀ s) : RunQueuesOk s := by
  have hinv : ∃ L, RunInv s L ∧ Ordered s L := by
    induction h with
    | start => exact ⟨_, h₀.inv, h₀.ordered⟩
    | step op _ hC hstep ih =>
      obtain ⟨L, i, o⟩ := ih
      obtain ⟨L', hm, i'⟩ := i.step hC.addsFree hstep
      exact ⟨L', i', i.ordered_moved o hC hm⟩
  obtain ⟨L, i, o⟩ := hinv
  refine ⟨fun k => ⟨L k, i.lists.list k, (i.lists.list k).nodup, i.lists.count k, o.sorted k⟩, ?_⟩
  intro k k' t hk hk'
  by_contra hne
  exact i.lists.apart k k' hne (i.lists.inQueue_iff.mp hk) (i.lists.inQueue_iff.mp hk')

/-! ## A late yield -/

/-- Two CPUs; thread `0` runs on CPU `0`, and threads `1` and `2` with base priorities `48` and `60` are
not yet added. -/
def bootSched : RunSched where
  threads t := if t = 0 then ⟨.running, 32, 32, 32, 0, some 0⟩ else
    ⟨.halted, 0, if t = 1 then 48 else 60, 0, 0, none⟩
  next _ := none
  runqs _ := ⟨none, 0⟩
  cpus k := ⟨k < 2, if k = 0 then some 0 else none, .running⟩
  totalCpus := 2
  wakes _ := .idle
  adds _ := none
  removals _ := none

lemma bootSched_start : RunStart bootSched := by
  refine ⟨fun _ => rfl, fun _ => rfl, fun _ => rfl, fun _ => rfl, fun _ => rfl, fun _ => rfl,
    fun k t h => ?_, by decide⟩
  by_cases hk : k = 0
  · rw [hk] at h ⊢
    cases h
    exact ⟨rfl, rfl, rfl⟩
  · simp [bootSched, hk] at h

lemma bootSched_free (t : ℕ) : ¬ bootSched.inHands t := by rintro (⟨k, h⟩ | ⟨w, h⟩ | ⟨a, h⟩) <;> cases h

lemma bootSched_inQueue (k t : ℕ) : ¬ bootSched.inQueue k t := by
  rintro ⟨L, hL, ht⟩
  have hnil : L = [] := Chain.unique hL rfl
  rw [hnil] at ht
  cases ht

/-- Thread `2` is added. -/
theorem run_queue_invariant_boot : ∃ s, RunRun (fun s op => op.orderly s) bootSched s ∧
    (s.runqs 0).head = some 2 ∧ RunQueuesOk s := by
  have h1 : RunRun (fun s op => op.orderly s) bootSched _ :=
    .step (.addStart 0 2 0) .start ⟨rfl, bootSched_free 2⟩
      (.addStart rfl (fun k => bootSched_inQueue k 2) (.inl rfl))
  have h2 := h1.step (.addEnqueue 0) trivial (.addEnqueue 1 rfl rfl)
  exact ⟨_, h2, rfl, run_queue_invariant bootSched_start h2⟩

/-- **A late yield breaks the order.** Thread `0` is about to wait on CPU `0`; before it gets to yield, CPU
`1` wakes it, so that it is in the queue between thread `2` and thread `1`, both it and thread `1` with
priority `48`. Its own yield then lowers it to `47`, in front of thread `1`. -/
theorem lateYield_breaks_order : ∃ s, RunStart bootSched ∧ RunRun (fun _ _ => True) bootSched s ∧
    ¬ RunQueuesOk s := by
  have h1 : RunRun (fun _ _ => True) bootSched _ :=
    .step (.addStart 0 2 0) .start trivial (.addStart rfl (fun k => bootSched_inQueue k 2) (.inl rfl))
  have h2 := h1.step (.addEnqueue 0) trivial (.addEnqueue 1 rfl rfl)
  have h3 := h2.step (.park 0) trivial (.park rfl rfl)
  have h4 := h3.step (.wakeSwap 0 0) trivial (.wakeSwap rfl)
  have h5 := h4.step (.wakeBoost 0 1) trivial (.wakeBoost (by decide) rfl)
  have h6 := h5.step (.wakeEnqueue 0) trivial (.wakeEnqueue 2 rfl rfl)
  have h7 := h6.step (.addStart 0 1 0) trivial (.addStart rfl ?hfree (.inl rfl))
  have h8 := h7.step (.addEnqueue 0) trivial (.addEnqueue 3 rfl rfl)
  have h9 := h8.step (.yield 0) trivial (.yield 1 (by decide) (.inr rfl) rfl)
  refine ⟨_, bootSched_start, h9, fun h => ?_⟩
  · obtain ⟨L, hL, -, -, hsorted⟩ := h.list 0
    have hlist : L = [0, 1] := Chain.unique hL ⟨rfl, rfl, rfl⟩
    rw [hlist] at hsorted
    have hle := (List.pairwise_cons.mp hsorted).1 1 (List.mem_singleton_self 1)
    exact absurd hle (by decide)
  case hfree =>
    rintro k ⟨L, hL, ht⟩
    cases k with
    | zero =>
      have hlist : L = [2, 0] := Chain.unique hL ⟨rfl, rfl, rfl⟩
      rw [hlist] at ht
      simp at ht
    | succ k =>
      have hlist : L = [] := Chain.unique hL rfl
      rw [hlist] at ht
      cases ht

end Chimera
