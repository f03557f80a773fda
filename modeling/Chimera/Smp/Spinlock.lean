import Mathlib.Data.BitVec
import Mathlib.Tactic

/-!
# Locks: `kernel/include/kernel/spinlock.h`

Each atomic operation of a lock is one step, taken by any of the CPUs. A CPU that is interrupted and takes the
lock again counts as two.

The ticket lock excludes (`ticket_lock_correct`), but `spinlock_trylock` loads `sl_serving` before `sl_next`: if
`2 ^ 32` tickets go by in between, the two agree while another CPU is inside. In the reader-writer lock a reader
that comes too late adds one to the `-1` of the writer, and the lock looks free (`rwlock_exclusion`).
-/

namespace Chimera

open Function (update update_apply update_of_ne update_idem update_eq_self_iff)
open BitVec (ofNat_add toNat_ofNat)

/-! ## The ticket lock -/

/-- Where a CPU is in the calls of a lock. -/
inductive SpinPhase where
  | outside
  /-- In the loop of `spinlock_lock`. -/
  | spinning (myTicket : BitVec 32)
  /-- In `spinlock_trylock`, with `sl_serving` loaded. -/
  | loaded (serving : BitVec 32)
  /-- In `spinlock_trylock`, with `sl_next` loaded as well and equal. -/
  | trying (next : BitVec 32)
  | inside
  /-- In `spinlock_unlock`, with `sl_serving` loaded. -/
  | leaving (now : BitVec 32)
  deriving DecidableEq, Repr

/-- `spinlock_t`, and the CPUs. -/
structure Spinlock where
  slNext : BitVec 32
  slServing : BitVec 32
  phase : ℕ → SpinPhase

/-- A CPU is in the critical section. -/
def SpinPhase.holds : SpinPhase → Bool
  | .inside | .leaving _ => true
  | _ => false

namespace Spinlock

variable (s : Spinlock) (c : ℕ)

def goto (p : SpinPhase) : Spinlock := { s with phase := update s.phase c p }

/-- The first line of `spinlock_lock`. -/
def takeTicket : Spinlock := { s.goto c (.spinning s.slNext) with slNext := s.slNext + 1 }

/-- A round of the loop of `spinlock_lock`. -/
def spin (t : BitVec 32) : Spinlock := if s.slServing = t then s.goto c .inside else s

/-- The second load of `spinlock_trylock`. -/
def loadNext (v : BitVec 32) : Spinlock := s.goto c (if v ≠ s.slNext then .outside else .trying s.slNext)

/-- The compare-exchange of `spinlock_trylock`. -/
def exchange (n : BitVec 32) : Spinlock :=
  if s.slNext = n then { s.goto c .inside with slNext := n + 1 } else s.goto c .outside

/-- The store of `spinlock_unlock`. -/
def serveNext (now : BitVec 32) : Spinlock := { s.goto c .outside with slServing := now + 1 }

variable {s c}

@[simp] lemma phase_goto {d : ℕ} (p : SpinPhase) : (s.goto c p).phase d = if d = c then p else s.phase d :=
  update_apply _ _ _ _

end Spinlock

/-- What has happened: who took a ticket and who entered, how many have left, and how many had left when a CPU
loaded `sl_serving` in `spinlock_trylock`. -/
structure SpinLog where
  took : List ℕ
  entered : List ℕ
  left : ℕ
  start : ℕ → ℕ

/-- Fewer than `2 ^ 32` tickets are out when one more is taken. -/
def SpinLog.room (L : SpinLog) : Prop := L.took.length + 1 < L.left + 2 ^ 32

/-- The interleavings in which each compare-exchange meets `C`. -/
inductive SpinRun (C : ℕ → SpinLog → Prop) : Spinlock → SpinLog → Prop
  | init : SpinRun C ⟨0, 0, fun _ => .outside⟩ ⟨[], [], 0, fun _ => 0⟩
  | lock {s : Spinlock} {L : SpinLog} (c : ℕ) (hrun : SpinRun C s L) (hc : s.phase c = .outside) (hroom : L.room) :
      SpinRun C (s.takeTicket c) { L with took := L.took ++ [c] }
  | spin {s : Spinlock} {L : SpinLog} {t : BitVec 32} (c : ℕ) (hrun : SpinRun C s L)
      (hc : s.phase c = .spinning t) :
      SpinRun C (s.spin c t) (if s.slServing = t then { L with entered := L.entered ++ [c] } else L)
  | tryLoad {s : Spinlock} {L : SpinLog} (c : ℕ) (hrun : SpinRun C s L) (hc : s.phase c = .outside) :
      SpinRun C (s.goto c (.loaded s.slServing)) { L with start := update L.start c L.left }
  | tryNext {s : Spinlock} {L : SpinLog} {v : BitVec 32} (c : ℕ) (hrun : SpinRun C s L)
      (hc : s.phase c = .loaded v) : SpinRun C (s.loadNext c v) L
  | tryTake {s : Spinlock} {L : SpinLog} {n : BitVec 32} (c : ℕ) (hrun : SpinRun C s L)
      (hc : s.phase c = .trying n) (hC : C c L) (hroom : L.room) :
      SpinRun C (s.exchange c n) (if s.slNext = n then
        { L with took := L.took ++ [c], entered := L.entered ++ [c] } else L)
  | unlockLoad {s : Spinlock} {L : SpinLog} (c : ℕ) (hrun : SpinRun C s L) (hc : s.phase c = .inside) :
      SpinRun C (s.goto c (.leaving s.slServing)) L
  | unlockStore {s : Spinlock} {L : SpinLog} {t : BitVec 32} (c : ℕ) (hrun : SpinRun C s L)
      (hc : s.phase c = .leaving t) : SpinRun C (s.serveNext c t) { L with left := L.left + 1 }

/-- From the ticket that `spinlock_trylock` finds served, fewer than `2 ^ 32` have been taken. -/
def inTime (c : ℕ) (L : SpinLog) : Prop := L.took.length < L.start c + 2 ^ 32

/-- What holds for a CPU in each phase. Ticket number `k` is that of `took[k]`, and number `left` is served. -/
def SpinLog.Knows (L : SpinLog) (c : ℕ) : SpinPhase → Prop
  | .outside => True
  | .spinning t => ∃ k, L.left ≤ k ∧ L.took[k]? = some c ∧ t = BitVec.ofNat 32 k
  | .loaded v | .trying v => v = BitVec.ofNat 32 (L.start c) ∧ L.start c ≤ L.left
  | .inside => L.took[L.left]? = some c
  | .leaving now => now = BitVec.ofNat 32 L.left ∧ L.took[L.left]? = some c

/-- **The invariant.** -/
structure SpinInv (s : Spinlock) (L : SpinLog) : Prop where
  next : s.slNext = BitVec.ofNat 32 L.took.length
  serving : s.slServing = BitVec.ofNat 32 L.left
  length : L.left ≤ L.took.length ∧ L.took.length < L.left + 2 ^ 32
  knows : ∀ c, L.Knows c (s.phase c)
  busy : ∀ c, (s.phase c).holds = true → L.entered = L.took.take (L.left + 1)
  free : (∀ c, (s.phase c).holds = false) → L.entered = L.took.take L.left

section ticket

variable {s : Spinlock} {L L' : SpinLog} {c : ℕ} {p : SpinPhase}

lemma SpinLog.Knows.holder (h : L.Knows c p) (hp : p.holds = true) : L.took[L.left]? = some c := by
  cases p with
  | inside => exact h
  | leaving => exact h.2
  | _ => cases hp

/-- What a CPU outside of the critical section knows stays true while others take tickets and leave. -/
lemma SpinLog.Knows.keep (h : L.Knows c p) (hp : p.holds = false) (hleft : L.left ≤ L'.left)
    (hwait : ∀ k, L.left ≤ k → L.took[k]? = some c → L'.left ≤ k ∧ L'.took[k]? = some c)
    (hstart : L'.start c = L.start c) : L'.Knows c p := by
  cases p with
  | outside => trivial
  | spinning t =>
    obtain ⟨k, hk, htook, ht⟩ := h
    obtain ⟨hk', htook'⟩ := hwait k hk htook
    exact ⟨k, hk', htook', ht⟩
  | loaded v | trying v => exact ⟨hstart ▸ h.1, hstart ▸ h.2.trans hleft⟩
  | inside | leaving => cases hp

section

variable (i : SpinInv s L)
include i

/-- **One CPU at most is in the critical section.** -/
lemma SpinInv.unique {d : ℕ} (hc : (s.phase c).holds = true) (hd : (s.phase d).holds = true) :
    c = d := by
  have h := (i.knows c).holder hc
  rw [(i.knows d).holder hd, Option.some.injEq] at h
  exact h.symm

/-- A CPU goes on in its call, without a new ticket and without entering or leaving. -/
lemma SpinInv.goto (hholds : p.holds = (s.phase c).holds) (hp : L.Knows c p) :
    SpinInv (s.goto c p) L := by
  have hsame : ∀ d, ((s.goto c p).phase d).holds = (s.phase d).holds := by
    intro d
    rw [Spinlock.phase_goto]
    split_ifs with hd
    · rw [hd, hholds]
    · rfl
  refine ⟨i.next, i.serving, i.length, fun d => ?_, fun d hd => i.busy d (hsame d ▸ hd),
    fun h => i.free fun d => hsame d ▸ h d⟩
  rw [Spinlock.phase_goto]
  split_ifs with hd
  · exact hd ▸ hp
  · exact i.knows d

lemma SpinInv.takeTicket (hc : s.phase c = .outside) (hroom : L.room) :
    SpinInv (s.takeTicket c) { L with took := L.took ++ [c] } := by
  obtain ⟨hle, hlt⟩ := i.length
  rw [SpinLog.room] at hroom
  have hold : ∀ {k d}, L.took[k]? = some d → (L.took ++ [c])[k]? = some d := fun h => by
    rw [List.getElem?_append_left (List.getElem?_eq_some_iff.mp h).1, h]
  have hlog : SpinInv { s with slNext := s.slNext + 1 } { L with took := L.took ++ [c] } := by
    refine ⟨?_, i.serving, ?_, fun d => ?_, fun d hd => ?_, fun h => ?_⟩
    · rw [List.length_append, ofNat_add, ← i.next]
      rfl
    · rw [List.length_append, List.length_singleton]
      dsimp only
      omega
    · have hd := i.knows d
      cases hp : s.phase d with
      | inside => exact hold (hd.holder (by rw [hp]; rfl))
      | leaving =>
        rw [hp] at hd
        exact ⟨hd.1, hold hd.2⟩
      | _ => exact (hp ▸ hd).keep rfl le_rfl (fun k hk h => ⟨hk, hold h⟩) rfl
    · have hleft := (List.getElem?_eq_some_iff.mp ((i.knows d).holder hd)).1
      rw [List.take_append_of_le_length hleft]
      exact i.busy d hd
    · rw [List.take_append_of_le_length hle]
      exact i.free h
  exact hlog.goto (by rw [hc]; rfl) ⟨L.took.length, hle, List.getElem?_concat_length, i.next⟩

lemma SpinInv.served (hc : s.phase c = .spinning s.slServing) :
    SpinInv (s.goto c .inside) { L with entered := L.entered ++ [c] } := by
  obtain ⟨hle, hlt⟩ := i.length
  have hknows := i.knows c
  rw [hc] at hknows
  obtain ⟨k, hk, htook, ht⟩ := hknows
  have hklt := (List.getElem?_eq_some_iff.mp htook).1
  -- the ticket is number `left`, as the numbers in use differ by less than `2 ^ 32`
  have hmod : L.left % 2 ^ 32 = k % 2 ^ 32 := by rw [← toNat_ofNat, ← toNat_ofNat, ← ht, i.serving]
  obtain rfl : k = L.left := by omega
  have hnone : ∀ d, (s.phase d).holds = false := by
    intro d
    by_contra hd
    have hdc := (i.knows d).holder (by simpa using hd)
    rw [htook, Option.some.injEq] at hdc
    rw [← hdc, hc] at hd
    exact hd rfl
  refine ⟨i.next, i.serving, i.length, fun d => ?_, fun _ _ => ?_, fun h => ?_⟩
  · rw [Spinlock.phase_goto]
    split_ifs with hd
    · exact hd ▸ htook
    · exact (i.knows d).keep (hnone d) le_rfl (fun k hk h => ⟨hk, h⟩) rfl
  · rw [i.free hnone, List.take_add_one, htook]
    rfl
  · have hself := h c
    rw [Spinlock.phase_goto, if_pos rfl] at hself
    cases hself

/-- **`spinlock_trylock` succeeds in time**: nobody has a ticket, and it is as if it had taken one and found it
served. -/
lemma SpinInv.exchange (hc : s.phase c = .trying s.slNext) (htime : inTime c L)
    (hroom : L.room) : SpinInv { s.goto c .inside with slNext := s.slNext + 1 }
      { L with took := L.took ++ [c], entered := L.entered ++ [c] } := by
  have hknows := i.knows c
  rw [hc] at hknows
  obtain ⟨hval, hstart⟩ := hknows
  have hle := i.length.1
  have hmod : L.took.length % 2 ^ 32 = L.start c % 2 ^ 32 := by
    rw [← toNat_ofNat, ← toNat_ofNat, ← i.next, hval]
  unfold inTime at htime
  have hnext : s.slNext = s.slServing := by
    rw [i.next, i.serving]
    congr 1
    omega
  have hout : (s.goto c .outside).phase c = .outside := by simp
  have h := (i.goto (p := .outside) (by rw [hc]; rfl) trivial).takeTicket hout hroom
  have hend := h.served (c := c) (by simp [Spinlock.takeTicket, Spinlock.goto, hnext])
  simpa [Spinlock.takeTicket, Spinlock.goto, update_idem] using hend

lemma SpinInv.serveNext {now : BitVec 32} (hc : s.phase c = .leaving now) :
    SpinInv (s.serveNext c now) { L with left := L.left + 1 } := by
  have hholds : (s.phase c).holds = true := by rw [hc]; rfl
  have hknows := i.knows c
  rw [hc] at hknows
  obtain ⟨rfl, htook⟩ := hknows
  have hleft := (List.getElem?_eq_some_iff.mp htook).1
  have hphase : ∀ d, (s.serveNext c (BitVec.ofNat 32 L.left)).phase d = if d = c then .outside else s.phase d :=
    fun d => Spinlock.phase_goto _
  have hother : ∀ d, d ≠ c → (s.phase d).holds = false := by
    intro d hd
    by_contra h
    exact hd (i.unique (by simpa using h) hholds)
  have hnone : ∀ d, ((s.serveNext c (BitVec.ofNat 32 L.left)).phase d).holds = false := by
    intro d
    rw [hphase]
    split_ifs with hd
    · rfl
    · exact hother d hd
  refine ⟨i.next, (ofNat_add ..).symm, ⟨hleft, ?_⟩, fun d => ?_, fun d hd => ?_, fun _ => i.busy c hholds⟩
  · have := i.length.2
    dsimp only
    omega
  · rw [hphase]
    split_ifs with hd
    · trivial
    · refine (i.knows d).keep (hother d hd) (Nat.le_succ _) (fun k hk h => ⟨Nat.lt_of_le_of_ne hk ?_, h⟩) rfl
      rintro rfl
      rw [htook, Option.some.injEq] at h
      exact hd h.symm
  · rw [hnone d] at hd
    cases hd

end

lemma SpinRun.inv (hrun : SpinRun inTime s L) : SpinInv s L := by
  induction hrun with
  | init => exact ⟨rfl, rfl, by simp, fun _ => trivial, nofun, fun _ => rfl⟩
  | lock c _ hc hroom i => exact i.takeTicket hc hroom
  | @spin s L t c _ hc i =>
    unfold Spinlock.spin
    split_ifs with ht
    · exact i.served (ht ▸ hc)
    · exact i
  | @tryLoad s L c _ hc i =>
    have hlog : SpinInv s { L with start := update L.start c L.left } := by
      refine ⟨i.next, i.serving, i.length, fun d => ?_, i.busy, i.free⟩
      have hd := i.knows d
      by_cases hdc : d = c
      · rw [hdc, hc]
        trivial
      · unfold SpinLog.Knows at hd ⊢
        dsimp only
        rwa [update_of_ne hdc]
    exact hlog.goto (by rw [hc]; rfl) (by simp [SpinLog.Knows, i.serving])
  | @tryNext s L v c _ hc i =>
    have hknows := i.knows c
    rw [hc] at hknows
    unfold Spinlock.loadNext
    split_ifs with hv
    · exact i.goto (by rw [hc]; rfl) trivial
    · rw [ne_eq, not_not] at hv
      exact i.goto (by rw [hc]; rfl) (hv ▸ hknows)
  | @tryTake s L n c _ hc hC hroom i =>
    unfold Spinlock.exchange
    split_ifs with hn
    · subst hn
      exact i.exchange hc hC hroom
    · exact i.goto (by rw [hc]; rfl) trivial
  | unlockLoad c _ hc i => exact i.goto (by rw [hc]; rfl) ⟨i.serving, (i.knows c).holder (by rw [hc]; rfl)⟩
  | unlockStore c _ hc i => exact i.serveNext hc

end ticket

/-- CPU 1 takes and gives up the lock `n` times, while CPU 0 is behind the first load of `spinlock_trylock`. -/
lemma SpinRun.rounds (n : ℕ) : ∃ L, L.took.length = n ∧ L.left = n ∧ SpinRun (fun _ _ => True)
    ⟨BitVec.ofNat 32 n, BitVec.ofNat 32 n, update (fun _ => .outside) 0 (.loaded 0)⟩ L := by
  induction n with
  | zero => exact ⟨_, rfl, rfl, .tryLoad 0 .init rfl⟩
  | succ n ih =>
    obtain ⟨L, htook, hleft, hrun⟩ := ih
    have h1 := hrun.lock 1 (by simp) (by simp [SpinLog.room, htook, hleft])
    have h2 := h1.spin (t := BitVec.ofNat 32 n) 1 (by simp [Spinlock.takeTicket])
    have h3 := h2.unlockLoad 1 (by simp [Spinlock.spin, Spinlock.takeTicket, Spinlock.goto])
    have h4 := h3.unlockStore (t := BitVec.ofNat 32 n) 1
      (by simp [Spinlock.spin, Spinlock.takeTicket, Spinlock.goto])
    refine ⟨{ L with took := L.took ++ [1], entered := L.entered ++ [1], left := L.left + 1 }, by simp [htook],
      by simp [hleft], ?_⟩
    have hphase : update (update (fun _ => SpinPhase.outside) 0 (.loaded 0#32)) 1 .outside =
        update (fun _ => .outside) 0 (.loaded 0#32) := update_eq_self_iff.mpr rfl
    simpa [Spinlock.spin, Spinlock.takeTicket, Spinlock.goto, Spinlock.serveNext, hphase, ofNat_add]
      using h4

/-! ## The reader-writer lock -/

/-- Where a CPU is in the calls of a reader-writer lock. -/
inductive RwPhase where
  | outside
  /-- At the loop of `rwspinlock_read_lock`. -/
  | reading
  /-- In that loop, with no pending writer. -/
  | checked
  /-- Behind that loop. -/
  | passed
  /-- In `rwspinlock_read_lock`, with a negative state found too late. -/
  | undoing
  | reader
  /-- At the loop of `rwspinlock_write_lock`. -/
  | writing
  /-- Behind that loop, still counted as pending. -/
  | won
  | writer
  deriving DecidableEq, Repr

/-- `rwspinlock_t`, and the CPUs. -/
structure RwSpinlock where
  rwState : BitVec 32
  rwPendingWriters : BitVec 32
  phase : ℕ → RwPhase

/-- A CPU has the lock for writing. -/
def RwPhase.writes : RwPhase → Bool
  | .won | .writer => true
  | _ => false

namespace RwSpinlock

variable (s : RwSpinlock) (c : ℕ)

def goto (p : RwPhase) : RwSpinlock := { s with phase := update s.phase c p }

def setState (x : BitVec 32) : RwSpinlock := { s with rwState := x }

def setPending (x : BitVec 32) : RwSpinlock := { s with rwPendingWriters := x }

end RwSpinlock

/-- The atomic operations of CPU `c` in `rwspinlock_read_lock`, `rwspinlock_read_unlock`,
`rwspinlock_write_lock` and `rwspinlock_write_unlock`. -/
inductive RwStep (s : RwSpinlock) (c : ℕ) : RwSpinlock → Prop
  | readLock (h : s.phase c = .outside) : RwStep s c (s.goto c .reading)
  | loadPending (h : s.phase c = .reading) :
      RwStep s c (s.goto c (if s.rwPendingWriters.toNat > 0 then .reading else .checked))
  | loadState (h : s.phase c = .checked) :
      RwStep s c (s.goto c (if s.rwState.toInt < 0 then .reading else .passed))
  | fetchAdd (h : s.phase c = .passed) :
      RwStep s c ((s.setState (s.rwState + 1)).goto c (if s.rwState.toInt ≥ 0 then .reader else .undoing))
  | fetchSub (h : s.phase c = .undoing) : RwStep s c ((s.setState (s.rwState - 1)).goto c .reading)
  | readUnlock (h : s.phase c = .reader) : RwStep s c ((s.setState (s.rwState - 1)).goto c .outside)
  | writeLock (h : s.phase c = .outside) :
      RwStep s c ((s.setPending (s.rwPendingWriters + 1)).goto c .writing)
  | exchange (h : s.phase c = .writing) (hfree : s.rwState = 0) : RwStep s c ((s.setState (-1)).goto c .won)
  | subPending (h : s.phase c = .won) : RwStep s c ((s.setPending (s.rwPendingWriters - 1)).goto c .writer)
  | writeUnlock (h : s.phase c = .writer) : RwStep s c ((s.setState 0).goto c .outside)

/-- The interleavings in which each step meets `C`. -/
inductive RwRun (C : RwSpinlock → ℕ → Prop) : RwSpinlock → Prop
  | init : RwRun C ⟨0, 0, fun _ => .outside⟩
  | step {s s' : RwSpinlock} {c : ℕ} (hrun : RwRun C s) (hC : C s c) (h : RwStep s c s') : RwRun C s'

/-- No reader that has left its loop adds itself to a negative state. -/
def addsInTime (s : RwSpinlock) (c : ℕ) : Prop := s.phase c = .passed → 0 ≤ s.rwState.toInt

/-- **The invariant**, where `R` are the readers: one writer and no reader, or the state counts the readers. -/
structure RwInv (s : RwSpinlock) (R : Finset ℕ) : Prop where
  readers : ∀ c, c ∈ R ↔ s.phase c = .reader
  quiet : ∀ c, s.phase c ≠ .undoing
  state : (R = ∅ ∧ s.rwState = -1 ∧ ∃ w, ∀ c, (s.phase c).writes = true ↔ c = w) ∨
    (R.card ≤ 2 ^ 31 ∧ s.rwState = BitVec.ofNat 32 R.card ∧ ∀ c, (s.phase c).writes = false)

section rw

variable {s s' : RwSpinlock} {R : Finset ℕ} {c d : ℕ} {p : RwPhase}

lemma RwSpinlock.phase_goto : (s.goto c p).phase d = if d = c then p else s.phase d := update_apply _ _ _ _

lemma RwSpinlock.writes_goto (h : p.writes = (s.phase c).writes) (d : ℕ) :
    ((s.goto c p).phase d).writes = (s.phase d).writes := by
  rw [RwSpinlock.phase_goto]
  split_ifs with hd
  · rw [hd, h]
  · rfl

section

variable (i : RwInv s R)
include i

lemma RwInv.quiet_goto (hp : p ≠ .undoing) (d : ℕ) : (s.goto c p).phase d ≠ .undoing := by
  rw [RwSpinlock.phase_goto]
  split_ifs
  · exact hp
  · exact i.quiet d

/-- A CPU goes on in its call, as reader, as writer or as neither. -/
lemma RwInv.goto (hreader : p = .reader ↔ s.phase c = .reader) (hquiet : p ≠ .undoing)
    (hwrites : p.writes = (s.phase c).writes) : RwInv (s.goto c p) R := by
  refine ⟨fun d => ?_, i.quiet_goto hquiet, ?_⟩
  · rw [RwSpinlock.phase_goto, i.readers]
    split_ifs with hd
    · rw [hd, hreader]
    · rfl
  · simp only [RwSpinlock.writes_goto hwrites]
    exact i.state

/-- **A reader enters** in time: there is no writer, and the count does not pass `2 ^ 31`. -/
lemma RwInv.fetchAdd (hc : s.phase c = .passed) (htime : 0 ≤ s.rwState.toInt) :
    RwInv ((s.setState (s.rwState + 1)).goto c .reader) (insert c R) := by
  have hnew : c ∉ R := by simp [i.readers, hc]
  refine ⟨fun d => ?_, i.quiet_goto nofun, .inr ?_⟩
  · rw [RwSpinlock.phase_goto, Finset.mem_insert, i.readers]
    by_cases hd : d = c <;> simp [hd, RwSpinlock.setState]
  · rcases i.state with ⟨-, hneg, -⟩ | ⟨hcard, hstate, hnone⟩
    · rw [hneg] at htime
      exact absurd htime (by decide)
    · have hlt : R.card < 2 ^ 31 := by
        refine lt_of_le_of_ne hcard fun heq => ?_
        rw [hstate, heq] at htime
        exact absurd htime (by decide)
      rw [Finset.card_insert_of_notMem hnew]
      refine ⟨hlt, ?_, fun d => ?_⟩
      · rw [ofNat_add, ← hstate]
        rfl
      · rw [RwSpinlock.writes_goto (by rw [RwSpinlock.setState, hc]; rfl)]
        exact hnone d

lemma RwInv.readUnlock (hc : s.phase c = .reader) :
    RwInv ((s.setState (s.rwState - 1)).goto c .outside) (R.erase c) := by
  have hmem := (i.readers c).mpr hc
  refine ⟨fun d => ?_, i.quiet_goto nofun, .inr ?_⟩
  · rw [RwSpinlock.phase_goto, Finset.mem_erase, i.readers]
    by_cases hd : d = c <;> simp [hd, RwSpinlock.setState]
  · rcases i.state with ⟨rfl, -⟩ | ⟨hcard, hstate, hnone⟩
    · cases hmem
    · have hsucc := Finset.card_erase_add_one hmem
      refine ⟨by omega, ?_, fun d => ?_⟩
      · show s.rwState - 1 = _
        rw [hstate, ← hsucc, ofNat_add]
        exact add_sub_cancel_right _ _
      · rw [RwSpinlock.writes_goto (by rw [RwSpinlock.setState, hc]; rfl)]
        exact hnone d

/-- **A writer enters**: there was nobody. -/
lemma RwInv.exchange (hc : s.phase c = .writing) (hfree : s.rwState = 0) :
    RwInv ((s.setState (-1)).goto c .won) ∅ := by
  rcases i.state with ⟨-, hneg, -⟩ | ⟨hcard, hstate, hnone⟩
  · rw [hfree] at hneg
    cases hneg
  have hzero : R.card % 2 ^ 32 = 0 := by
    rw [← toNat_ofNat, ← hstate, hfree]
    rfl
  obtain rfl : R = ∅ := Finset.card_eq_zero.mp (by omega)
  refine ⟨fun d => ?_, i.quiet_goto nofun, .inl ⟨rfl, rfl, c, fun d => ?_⟩⟩
  · rw [RwSpinlock.phase_goto, i.readers]
    by_cases hd : d = c <;> simp [hd, hc, RwSpinlock.setState]
  · rw [RwSpinlock.phase_goto]
    by_cases hd : d = c
    · simp [hd, RwPhase.writes]
    · simp [hd, RwSpinlock.setState, hnone d]

lemma RwInv.writeUnlock (hc : s.phase c = .writer) : RwInv ((s.setState 0).goto c .outside) R := by
  rcases i.state with ⟨rfl, -, w, hw⟩ | ⟨-, -, hnone⟩
  swap
  · have h := hnone c
    rw [hc] at h
    cases h
  obtain rfl : c = w := (hw c).mp (by rw [hc]; rfl)
  refine ⟨fun d => ?_, i.quiet_goto nofun, .inr ⟨by simp, rfl, fun d => ?_⟩⟩
  · rw [RwSpinlock.phase_goto, i.readers]
    by_cases hd : d = c <;> simp [hd, hc, RwSpinlock.setState]
  · rw [RwSpinlock.phase_goto]
    split_ifs with hd
    · rfl
    · simpa [RwSpinlock.setState] using (not_congr (hw d)).mpr hd

lemma RwInv.step (htime : addsInTime s c) (h : RwStep s c s') : ∃ R', RwInv s' R' := by
  have hpending : ∀ x, RwInv (s.setPending x) R := fun x => ⟨i.readers, i.quiet, i.state⟩
  cases h with
  | readLock h => exact ⟨R, i.goto (by simp [h]) nofun (by rw [h]; rfl)⟩
  | loadPending h =>
    split_ifs
    · exact ⟨R, i.goto (by simp [h]) nofun (by rw [h])⟩
    · exact ⟨R, i.goto (by simp [h]) nofun (by rw [h]; rfl)⟩
  | loadState h =>
    split_ifs
    · exact ⟨R, i.goto (by simp [h]) nofun (by rw [h]; rfl)⟩
    · exact ⟨R, i.goto (by simp [h]) nofun (by rw [h]; rfl)⟩
  | fetchAdd h =>
    rw [if_pos (htime h)]
    exact ⟨_, i.fetchAdd h (htime h)⟩
  | fetchSub h => exact absurd h (i.quiet c)
  | readUnlock h => exact ⟨_, i.readUnlock h⟩
  | writeLock h => exact ⟨R, (hpending _).goto (by simp [RwSpinlock.setPending, h]) nofun (by
      rw [RwSpinlock.setPending, h]; rfl)⟩
  | exchange h hfree => exact ⟨_, i.exchange h hfree⟩
  | subPending h => exact ⟨R, (hpending _).goto (by simp [RwSpinlock.setPending, h]) nofun (by
      rw [RwSpinlock.setPending, h]; rfl)⟩
  | writeUnlock h => exact ⟨R, i.writeUnlock h⟩

end

lemma RwRun.inv (hrun : RwRun addsInTime s) : ∃ R, RwInv s R := by
  induction hrun with
  | init => exact ⟨∅, by simp, nofun, .inr ⟨by simp, rfl, fun _ => rfl⟩⟩
  | step _ htime h ih =>
    obtain ⟨R, i⟩ := ih
    exact i.step htime h

end rw

end Chimera
