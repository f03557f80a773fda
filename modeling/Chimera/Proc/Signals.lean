import Chimera.Pmap.Model

/-!
# Signals: `kernel/bsd/proc.c`, `kernel/bsd/syscall.c`

A process has a mask of blocked signals, a set of pending ones and a table of handlers. A pending signal
with a handler is delivered at the return of a system call: the interrupted registers and the mask go into
a context block on the user stack, and `sys_sigreturn` reads them back from there.

SIGKILL and SIGSTOP are never blocked (`kill_never_blocked`) as long as the mask in the context that
`sys_sigreturn` reads does not block them. `sys_sigprocmask` filters the two bits, `sys_sigreturn` does not
(`sigreturn_blocks_kill`).

Conventions. What `copyin` gives is an argument of the operation, so that user memory may hold anything; a
missing value is a fault. A process has one thread, and nobody else writes its mask: each system call is
one step.
-/

namespace Chimera

open BitVec (getLsbD_and getLsbD_or getLsbD_not)

/-! ## Processes -/

/-- One entry of `p_sigacts`, `p_sigact_flags` and `p_sigact_mask`. -/
structure SigAction where
  handler : BitVec 64
  flags : BitVec 32
  mask : BitVec 32
  deriving DecidableEq, Repr

/-- The fields of `chimera_proc_t` that signals use. -/
structure SigProc where
  /-- `p_sigmask`. -/
  sigmask : BitVec 32
  /-- `p_sigpending`. -/
  pending : BitVec 32
  acts : ℕ → SigAction
  /-- `p_state` is `PROC_STATE_EXITED`. -/
  exited : Bool

/-- The registers of `syscall_user_frame_t`. -/
structure UserFrame where
  r15 : BitVec 64
  r14 : BitVec 64
  r13 : BitVec 64
  r12 : BitVec 64
  rbx : BitVec 64
  rbp : BitVec 64
  rip : BitVec 64
  rflags : BitVec 64
  rsp : BitVec 64
  deriving DecidableEq, Repr

/-- `sigctx_t`. -/
structure SigCtx where
  magic : BitVec 64
  sig : BitVec 32
  oldMask : BitVec 32
  rax : BitVec 64
  regs : UserFrame
  deriving DecidableEq, Repr

/-- `SIGCTX_MAGIC`. -/
def sigctxMagic : BitVec 64 := 0x5349474354585F31#64

/-- A new process without a parent. -/
def SigProc.fresh : SigProc := ⟨0#32, 0#32, fun _ => ⟨0#64, 0#32, 0#32⟩, false⟩

/-- `1U << sig`. -/
def sigBit (sig : ℕ) : BitVec 32 := BitVec.twoPow 32 sig

/-! ## System calls -/

/-- SIGKILL and SIGSTOP. -/
def unmaskable : BitVec 32 := sigBit 9 ||| sigBit 19

/-- The mask after `sys_sigprocmask` with the set that was read. -/
def maskAfter (mask : BitVec 32) (how : ℤ) (set : BitVec 32) : BitVec 32 :=
  let set := set &&& ~~~unmaskable
  if how = 0 then mask ||| set
  else if how = 1 then mask &&& ~~~set
  else if how = 2 then set
  else mask

/-- `set`: a null pointer, or what `copyin` gives. Also the old mask, that goes to `oldset_ptr`.
Source: `sys_sigprocmask` -/
def sysSigprocmask (p : SigProc) (how : ℤ) (set : Option (Option (BitVec 32))) : ℤ × BitVec 32 × SigProc :=
  match set with
  | some (some v) => (0, p.sigmask, { p with sigmask := maskAfter p.sigmask how v })
  | _ => (0, p.sigmask, p)

/-- Also the old action, that goes to `oldact_ptr`.
Source: `sys_sigaction` -/
def sysSigaction (p : SigProc) (sig : ℤ) (act : Option (Option SigAction)) :
    ℤ × Option SigAction × SigProc :=
  if sig ≤ 0 ∨ 32 ≤ sig ∨ sig = 9 ∨ sig = 19 then (-22, none, p)
  else
    let old := p.acts sig.toNat
    match act with
    | some (some a) => (0, some old, { p with acts := Function.update p.acts sig.toNat a })
    | _ => (0, some old, p)

/-- The wake-up of the target is left out.
Source: `proc_signal` -/
def procSignal (p : SigProc) (sig : ℤ) : SigProc :=
  if sig ≤ 0 ∨ 32 ≤ sig then p
  else if sig ≠ 9 ∧ (p.acts sig.toNat).handler = 1 then p
  else { p with pending := p.pending ||| sigBit sig.toNat }

/-- `p_sigpending & ~p_sigmask`. -/
def deliverable (p : SigProc) : BitVec 32 := p.pending &&& ~~~p.sigmask

/-- The signal that is delivered first. -/
def firstSignal (d : BitVec 32) : Option ℕ := (List.range 32).find? fun sig => 0 < sig && d.getLsbD sig

/-- SIGCHLD, SIGWINCH, SIGURG and SIGINFO are ignored by default. -/
def defaultIgnored (sig : ℕ) : Bool := sig = 20 || sig = 28 || sig = 16 || sig = 29

/-- What `proc_deliver_signals` does to the thread. -/
inductive Delivery where
  | nothing
  | ignored (sig : ℕ)
  /-- `sys_exit_direct`. -/
  | terminated (code : ℕ)
  /-- The handler runs next: what is on the user stack, and the frame. -/
  | handled (slots : BitVec 64 × BitVec 64 × BitVec 64) (ctx : SigCtx) (frame : UserFrame)
  deriving DecidableEq, Repr

/-- `writable`: both `copyout`s to the user stack succeed.
Source: `proc_deliver_signals` -/
def procDeliverSignals (p : SigProc) (frame : UserFrame) (ret : BitVec 64) (writable : Bool) :
    Delivery × SigProc :=
  match firstSignal (deliverable p) with
  | none => (.nothing, p)
  | some sig =>
      let p₁ := { p with pending := p.pending &&& ~~~sigBit sig }
      let handler := (p.acts sig).handler
      if handler = 1 then (.ignored sig, p₁)
      else if handler = 0 then
        if defaultIgnored sig then (.ignored sig, p₁)
        else (.terminated (128 + sig), { p₁ with exited := true })
      else
        let slotsVa := (frame.rsp - 512#64) &&& ~~~0xF#64
        let ctxVa := slotsVa + 32#64
        if writable then
          (.handled (BitVec.ofNat 64 sig, handler, ctxVa)
            ⟨sigctxMagic, BitVec.ofNat 32 sig, p.sigmask, ret, frame⟩
            { frame with rip := BitVec.ofNat 64 signalTrampVa, rsp := slotsVa },
            { p₁ with sigmask := p.sigmask ||| sigBit sig })
        else (.terminated (128 + sig), { p₁ with exited := true })

/-- A context that `sys_sigreturn` accepts. -/
def SigCtx.valid (ctx : SigCtx) : Bool :=
  ctx.magic = sigctxMagic && 0 < ctx.sig.toInt && ctx.sig.toInt < 32

/-- The frame it returns to, unless the process is killed. The mask is taken from the context as it is.
Source: `sys_sigreturn` -/
def sysSigreturn (p : SigProc) (ctx : Option SigCtx) : Option (BitVec 64 × UserFrame) × SigProc :=
  match ctx with
  | none => (none, { p with exited := true })
  | some c =>
      if c.valid then (some (c.rax, c.regs), { p with sigmask := c.oldMask })
      else (none, { p with exited := true })

/-- A child has the mask and the handlers of its parent.
Source: `proc_create` -/
def SigProc.inherit (parent : SigProc) : SigProc := { parent with pending := 0#32, exited := false }

/-! ## Runs -/

/-- The processes by slot. -/
abbrev SigTable := ℕ → Option SigProc

def SigTable.set (s : SigTable) (i : ℕ) (p : Option SigProc) : SigTable := Function.update s i p

/-- The steps. -/
inductive SigOp where
  | sigprocmask (i : ℕ) (how : ℤ) (set : Option (Option (BitVec 32)))
  | sigaction (i : ℕ) (sig : ℤ) (act : Option (Option SigAction))
  | signal (i : ℕ) (sig : ℤ)
  | deliver (i : ℕ) (frame : UserFrame) (ret : BitVec 64) (writable : Bool)
  | sigreturn (i : ℕ) (ctx : Option SigCtx)
  /-- `sys_fork` and `sys_spawn`. -/
  | fork (i child : ℕ)
  | exit (i : ℕ)
  /-- `sys_wait4` drops a pending SIGCHLD of the parent. -/
  | reap (i child : ℕ)
  deriving DecidableEq, Repr

/-- One step; system calls are made by processes that have not exited. -/
inductive SigStep (s : SigTable) : SigOp → SigTable → Prop
  | sigprocmask {i : ℕ} {p : SigProc} (how : ℤ) (set : Option (Option (BitVec 32))) (hi : s i = some p)
      (hlive : p.exited = false) :
      SigStep s (.sigprocmask i how set) (s.set i (some (sysSigprocmask p how set).2.2))
  | sigaction {i : ℕ} {p : SigProc} (sig : ℤ) (act : Option (Option SigAction)) (hi : s i = some p)
      (hlive : p.exited = false) :
      SigStep s (.sigaction i sig act) (s.set i (some (sysSigaction p sig act).2.2))
  | signal {i : ℕ} {p : SigProc} (sig : ℤ) (hi : s i = some p) :
      SigStep s (.signal i sig) (s.set i (some (procSignal p sig)))
  | deliver {i : ℕ} {p : SigProc} (frame : UserFrame) (ret : BitVec 64) (writable : Bool)
      (hi : s i = some p) (hlive : p.exited = false) :
      SigStep s (.deliver i frame ret writable)
        (s.set i (some (procDeliverSignals p frame ret writable).2))
  | sigreturn {i : ℕ} {p : SigProc} (ctx : Option SigCtx) (hi : s i = some p) (hlive : p.exited = false) :
      SigStep s (.sigreturn i ctx) (s.set i (some (sysSigreturn p ctx).2))
  | fork {i child : ℕ} {p : SigProc} (hi : s i = some p) (hchild : s child = none) :
      SigStep s (.fork i child) (s.set child (some p.inherit))
  | exit {i : ℕ} {p : SigProc} (hi : s i = some p) :
      SigStep s (.exit i) (s.set i (some { p with exited := true }))
  | reap {i child : ℕ} {p c : SigProc} (hi : s i = some p) (hc : s child = some c)
      (hexited : c.exited = true) (hne : i ≠ child) :
      SigStep s (.reap i child)
        ((s.set child none).set i (some { p with pending := p.pending &&& ~~~sigBit 20 }))

/-- Runs from `s₀` each of whose steps satisfies `C`. -/
inductive SigRun (C : SigOp → Prop) (s₀ : SigTable) : SigTable → Prop
  | start : SigRun C s₀ s₀
  | step {s s' : SigTable} (op : SigOp) (hrun : SigRun C s₀ s) (hC : C op) (hstep : SigStep s op s') :
      SigRun C s₀ s'

/-- At the start all processes are new. -/
def SigStart (s : SigTable) : Prop := ∀ i p, s i = some p → p = .fresh

/-! ## The invariant -/

/-- SIGKILL and SIGSTOP are not in a mask. -/
def Unblocked (mask : BitVec 32) : Prop := mask.getLsbD 9 = false ∧ mask.getLsbD 19 = false

/-- **The invariant of a process**: the two signals are not blocked, and they have no handler. -/
structure SigInv (p : SigProc) : Prop where
  mask : Unblocked p.sigmask
  kill : (p.acts 9).handler = 0
  stop : (p.acts 19).handler = 0

lemma SigInv.fresh : SigInv .fresh := ⟨⟨rfl, rfl⟩, rfl, rfl⟩

section invariant

variable {p : SigProc}

lemma getLsbD_sigBit {sig k : ℕ} (hk : k < 32) : (sigBit sig).getLsbD k = decide (k = sig) := by
  rw [sigBit, BitVec.getLsbD_twoPow]
  by_cases h : k = sig <;> simp [h]
  · omega
  · omega

/-- The filter of `sys_sigprocmask`. -/
lemma unblocked_filter (set : BitVec 32) : Unblocked (set &&& ~~~unmaskable) := by
  have h9 : unmaskable.getLsbD 9 = true := by decide
  have h19 : unmaskable.getLsbD 19 = true := by decide
  constructor
  · rw [getLsbD_and, getLsbD_not, h9]
    simp
  · rw [getLsbD_and, getLsbD_not, h19]
    simp

lemma maskAfter_unblocked {mask : BitVec 32} (h : Unblocked mask) (how : ℤ) (set : BitVec 32) :
    Unblocked (maskAfter mask how set) := by
  obtain ⟨h9, h19⟩ := h
  obtain ⟨hs9, hs19⟩ := unblocked_filter set
  rw [maskAfter]
  split_ifs
  · constructor
    · rw [getLsbD_or, h9, hs9]
      rfl
    · rw [getLsbD_or, h19, hs19]
      rfl
  · constructor
    · rw [getLsbD_and, h9, Bool.false_and]
    · rw [getLsbD_and, h19, Bool.false_and]
  · exact ⟨hs9, hs19⟩
  · exact ⟨h9, h19⟩

lemma SigInv.sigprocmask (h : SigInv p) (how : ℤ) (set : Option (Option (BitVec 32))) :
    SigInv (sysSigprocmask p how set).2.2 := by
  rcases set with _ | _ | v
  · exact h
  · exact h
  · exact ⟨maskAfter_unblocked h.mask how v, h.kill, h.stop⟩

/-- **Handlers**: `sys_sigaction` refuses the two signals. -/
lemma SigInv.sigaction (h : SigInv p) (sig : ℤ) (act : Option (Option SigAction)) :
    SigInv (sysSigaction p sig act).2.2 := by
  rw [sysSigaction]
  split_ifs with hsig
  · exact h
  · push Not at hsig
    obtain ⟨hpos, -, h9, h19⟩ := hsig
    rcases act with _ | _ | a
    · exact h
    · exact h
    · refine ⟨h.mask, ?_, ?_⟩
      · have hne : 9 ≠ sig.toNat := by omega
        simpa [Function.update_of_ne hne] using h.kill
      · have hne : 19 ≠ sig.toNat := by omega
        simpa [Function.update_of_ne hne] using h.stop

lemma SigInv.signal (h : SigInv p) (sig : ℤ) : SigInv (procSignal p sig) := by
  rw [procSignal]
  split_ifs
  · exact h
  · exact h
  · exact ⟨h.mask, h.kill, h.stop⟩

/-- **Delivery** blocks the signal while its handler runs; the two signals have none. -/
lemma SigInv.deliver (h : SigInv p) (frame : UserFrame) (ret : BitVec 64) (writable : Bool) :
    SigInv (procDeliverSignals p frame ret writable).2 := by
  rw [procDeliverSignals]
  cases firstSignal (deliverable p) with
  | none => exact h
  | some sig =>
    dsimp only
    split_ifs with hign hdef
    · exact ⟨h.mask, h.kill, h.stop⟩
    · exact ⟨h.mask, h.kill, h.stop⟩
    · exact ⟨h.mask, h.kill, h.stop⟩
    · -- a handler is installed, so the signal is another one
      have h9 : 9 ≠ sig := by
        rintro rfl
        exact hdef h.kill
      have h19 : 19 ≠ sig := by
        rintro rfl
        exact hdef h.stop
      refine ⟨⟨?_, ?_⟩, h.kill, h.stop⟩
      · rw [getLsbD_or, h.mask.1, getLsbD_sigBit (by omega)]
        simpa using h9
      · rw [getLsbD_or, h.mask.2, getLsbD_sigBit (by omega)]
        simpa using h19
    · exact ⟨h.mask, h.kill, h.stop⟩

lemma SigInv.sigreturn (h : SigInv p) {ctx : Option SigCtx}
    (hctx : ∀ c, ctx = some c → c.valid = true → Unblocked c.oldMask) : SigInv (sysSigreturn p ctx).2 := by
  cases ctx with
  | none => exact ⟨h.mask, h.kill, h.stop⟩
  | some c =>
    rw [sysSigreturn]
    split_ifs with hvalid
    · exact ⟨hctx c rfl hvalid, h.kill, h.stop⟩
    · exact ⟨h.mask, h.kill, h.stop⟩

end invariant

/-- **Contexts that do not block the two signals**: the mask in a context that `sys_sigreturn` accepts. -/
def SigOp.restoresUnblocked : SigOp → Prop
  | .sigreturn _ ctx => ∀ c, ctx = some c → c.valid = true → Unblocked c.oldMask
  | _ => True

section runs

variable {s s' : SigTable}

lemma inv_set (h : ∀ i p, s i = some p → SigInv p) {i : ℕ} {x : Option SigProc}
    (hx : ∀ p, x = some p → SigInv p) (j : ℕ) (p : SigProc) (hp : s.set i x j = some p) : SigInv p := by
  rw [SigTable.set, Function.update_apply] at hp
  split_ifs at hp
  · exact hx p hp
  · exact h j p hp

lemma inv_step (h : ∀ i p, s i = some p → SigInv p) {op : SigOp} (hC : op.restoresUnblocked)
    (hstep : SigStep s op s') : ∀ i p, s' i = some p → SigInv p := by
  cases hstep with
  | sigprocmask how set hi _ =>
    refine inv_set h ?_
    rintro p ⟨⟩
    exact (h _ _ hi).sigprocmask how set
  | sigaction sig act hi _ =>
    refine inv_set h ?_
    rintro p ⟨⟩
    exact (h _ _ hi).sigaction sig act
  | signal sig hi =>
    refine inv_set h ?_
    rintro p ⟨⟩
    exact (h _ _ hi).signal sig
  | deliver frame ret writable hi _ =>
    refine inv_set h ?_
    rintro p ⟨⟩
    exact (h _ _ hi).deliver frame ret writable
  | sigreturn ctx hi _ =>
    refine inv_set h ?_
    rintro p ⟨⟩
    exact (h _ _ hi).sigreturn hC
  | fork hi _ =>
    refine inv_set h ?_
    rintro p ⟨⟩
    have hparent := h _ _ hi
    exact ⟨hparent.mask, hparent.kill, hparent.stop⟩
  | exit hi =>
    refine inv_set h ?_
    rintro p ⟨⟩
    have hp := h _ _ hi
    exact ⟨hp.mask, hp.kill, hp.stop⟩
  | reap hi hc _ _ =>
    refine inv_set (inv_set h (x := none) nofun) ?_
    rintro p ⟨⟩
    have hp := h _ _ hi
    exact ⟨hp.mask, hp.kill, hp.stop⟩

end runs

/-- SIGKILL and SIGSTOP are not blocked, and a pending SIGKILL is deliverable. -/
def KillDeliverable (p : SigProc) : Prop :=
  Unblocked p.sigmask ∧ (p.pending.getLsbD 9 = true → (deliverable p).getLsbD 9 = true)

/-- **SIGKILL and SIGSTOP are never blocked**, in every run in which no context that `sys_sigreturn` accepts
has them in its mask. -/
theorem kill_never_blocked {s₀ s : SigTable} (h₀ : SigStart s₀)
    (h : SigRun (fun op => op.restoresUnblocked) s₀ s) (i : ℕ) (p : SigProc) (hp : s i = some p) :
    KillDeliverable p := by
  have hinv : ∀ i p, s i = some p → SigInv p := by
    clear hp
    induction h with
    | start =>
      intro i p hp
      rw [h₀ i p hp]
      exact SigInv.fresh
    | step op _ hC hstep ih => exact inv_step ih hC hstep
  obtain ⟨hmask, -, -⟩ := hinv i p hp
  refine ⟨hmask, fun hpending => ?_⟩
  rw [deliverable, getLsbD_and, hpending, getLsbD_not, hmask.1]
  rfl

/-- One process, that has done nothing yet. -/
def loneProc : SigTable := fun i => if i = 1 then some .fresh else none

lemma loneProc_start : SigStart loneProc := by
  intro i p hp
  rw [loneProc] at hp
  split_ifs at hp
  exact (Option.some.inj hp).symm

/-- A context that is accepted, with a mask. -/
def ctxOf (oldMask : BitVec 32) : SigCtx := ⟨sigctxMagic, 1#32, oldMask, 0#64, ⟨0, 0, 0, 0, 0, 0, 0, 0, 0⟩⟩

/-- A process returns from a handler with the mask of SIGINT. -/
theorem kill_never_blocked_return : ∃ s p, SigRun (fun op => op.restoresUnblocked) loneProc s ∧
    s 1 = some p ∧ p.sigmask = sigBit 2 ∧ KillDeliverable p := by
  have h : SigRun (fun op => op.restoresUnblocked) loneProc _ :=
    .step (.sigreturn 1 (some (ctxOf (sigBit 2)))) .start ?_ (.sigreturn _ rfl rfl)
  · exact ⟨_, _, h, rfl, rfl, kill_never_blocked loneProc_start h 1 _ rfl⟩
  · rintro c ⟨⟩ -
    exact ⟨by decide, by decide⟩

/-- **A context blocks SIGKILL.** The process writes the mask into the context block itself. -/
theorem sigreturn_blocks_kill : ∃ s p, SigStart loneProc ∧ SigRun (fun _ => True) loneProc s ∧
    s 1 = some p ∧ ¬ KillDeliverable p := by
  have h : SigRun (fun _ => True) loneProc _ :=
    .step (.sigreturn 1 (some (ctxOf (sigBit 9)))) .start trivial (.sigreturn _ rfl rfl)
  refine ⟨_, _, loneProc_start, h, rfl, fun hp => ?_⟩
  exact absurd hp.1.1 (by decide)

end Chimera
