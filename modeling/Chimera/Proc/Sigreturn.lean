import Chimera.Proc.Signals

/-!
# The return from a signal handler: `sys_sigreturn`, `syscall_dispatch`, `_x86_64_syscall_entry`

`sys_sigreturn` fills the saved user frame from a context block that the process can write as it likes.
`syscall_dispatch` then looks for another signal, and the assembly pops the frame and executes `sysretq`.

The assembly tests the instruction and the stack pointer, so a resumed thread has both below `2 ^ 47`
(`Resumed.sanePointers`). Nothing tests the flags: `sysretq` takes them from the frame, and clears RF and VM
only. So the return is sanitised exactly when the process is killed on the way or the flags in the context
are clean (`sigreturn_sanitised_iff`). The two other ways into user mode, `_task_switch_to_user` and
`_task_switch_to_user_frame`, push the constant `0x202`.

Conventions. As in `Chimera.Proc.Signals`; `sysretq` is modelled as the processor's manual has it.
-/

namespace Chimera

/-! ## The exit path -/

/-- What the processor has after `sysretq`, next to the general registers. -/
structure UserContext where
  rip : BitVec 64
  rsp : BitVec 64
  rflags : BitVec 64
  rax : BitVec 64
  r15 : BitVec 64
  r14 : BitVec 64
  r13 : BitVec 64
  r12 : BitVec 64
  rbx : BitVec 64
  rbp : BitVec 64
  deriving DecidableEq, Repr

/-- How a system call ends. -/
inductive SyscallEnd where
  | resumed (u : UserContext)
  /-- `sys_exit_direct` with a code. -/
  | killed (code : ℕ)
  deriving DecidableEq, Repr

/-- The flags after `sysretq`, from R11: RF, VM and the reserved bits are cleared, bit 1 is set. -/
def sysretFlags (r11 : BitVec 64) : BitVec 64 := (r11 &&& 0x3C7FD7#64) ||| 2#64

/-- `cmp DWORD PTR [slot + 4], 0x8000; jae`: the high half of a stack slot. -/
def aboveUser (slot : BitVec 64) : Bool := 0x8000#32 ≤ (slot >>> 32).setWidth 32

/-- From the frame on the kernel stack to user mode.
Source: `_x86_64_syscall_entry`, from `mov rsp, rbp` on -/
def syscallExit (frame : UserFrame) (rax : BitVec 64) : SyscallEnd :=
  if aboveUser frame.rip then .killed 139
  else if aboveUser frame.rsp then .killed 139
  else
    .resumed
      { rip := frame.rip
        rsp := frame.rsp
        rflags := sysretFlags frame.rflags
        rax := rax
        r15 := frame.r15
        r14 := frame.r14
        r13 := frame.r13
        r12 := frame.r12
        rbx := frame.rbx
        rbp := frame.rbp }

/-- The end of `syscall_dispatch` for a call that returned `ret`, and the exit path.
Source: `syscall_dispatch`, `_x86_64_syscall_entry` -/
def syscallReturn (p : SigProc) (frame : UserFrame) (ret : BitVec 64) (writable : Bool) :
    SyscallEnd × SigProc :=
  match procDeliverSignals p frame ret writable with
  | (.terminated code, p₁) => (.killed code, p₁)
  | (.handled _ _ frame₁, p₁) => exit frame₁ p₁
  | (_, p₁) => exit frame p₁
where
  /-- The exit path kills the process itself. -/
  exit (frame : UserFrame) (p : SigProc) : SyscallEnd × SigProc :=
    match syscallExit frame ret with
    | .killed code => (.killed code, { p with exited := true })
    | .resumed u => (.resumed u, p)

/-- A call of `sys_sigreturn`, from its dispatch to user mode. `ctx`: a null pointer, or what `copyin` gives.
With a null pointer the call fails and leaves the frame as it was on entry. -/
def sigreturnCall (p : SigProc) (frame : UserFrame) (ctx : Option (Option SigCtx)) (writable : Bool) :
    SyscallEnd × SigProc :=
  match ctx with
  | none => syscallReturn p frame (-1#64) writable
  | some c =>
      match sysSigreturn p c with
      | (none, p₁) => (.killed 139, p₁)
      | (some (rax, frame₁), p₁) => syscallReturn p₁ frame₁ rax writable

/-! ## What is asked of it -/

/-- `2 ^ 47`, the end of the user half. -/
def SanePointer (w : BitVec 64) : Prop := w.toNat < 2 ^ 47

instance (w : BitVec 64) : Decidable (SanePointer w) := inferInstanceAs (Decidable (_ < _))

/-- IF is set; IOPL, NT, VIF and VIP are zero. -/
def CleanFlags (w : BitVec 64) : Prop :=
  w.getLsbD 9 = true ∧ w.getLsbD 12 = false ∧ w.getLsbD 13 = false ∧ w.getLsbD 14 = false ∧
    w.getLsbD 19 = false ∧ w.getLsbD 20 = false

instance (w : BitVec 64) : Decidable (CleanFlags w) := inferInstanceAs (Decidable (_ ∧ _))

/-- **A sanitised return**: both pointers are in the user half, interrupts are on, IOPL is 0 and no system
flag is set; or the process is terminated. -/
def Sanitised : SyscallEnd × SigProc → Prop
  | (.resumed u, _) =>
      SanePointer u.rip ∧ SanePointer u.rsp ∧ CleanFlags u.rflags ∧ u.rflags.getLsbD 17 = false
  | (.killed _, p) => p.exited = true

/-- The stack pointer that a handler starts with. -/
def handlerStack (rsp : BitVec 64) : BitVec 64 := (rsp - 512#64) &&& ~~~0xF#64

/-- The handler of a signal leaves the interrupted frame alone: the signal is ignored. -/
def SigProc.ignores (p : SigProc) (sig : ℕ) : Prop :=
  (p.acts sig).handler = 1 ∨ (p.acts sig).handler = 0 ∧ defaultIgnored sig = true

instance (p : SigProc) (sig : ℕ) : Decidable (p.ignores sig) := inferInstanceAs (Decidable (_ ∨ _))

/-- **A call that returns with `frame` ends the process**: the next signal terminates it or cannot be
delivered, or a pointer it would resume with is not in the user half. -/
def KilledOnReturn (p : SigProc) (frame : UserFrame) (writable : Bool) : Prop :=
  match firstSignal (deliverable p) with
  | none => ¬ SanePointer frame.rip ∨ ¬ SanePointer frame.rsp
  | some sig =>
      if p.ignores sig then ¬ SanePointer frame.rip ∨ ¬ SanePointer frame.rsp
      else (p.acts sig).handler = 0 ∨ writable = false ∨ ¬ SanePointer (handlerStack frame.rsp)

/-- **The process does not survive `sys_sigreturn`**: the context is refused, or the return to the registers
of the context ends it, with the mask of the context. -/
def KilledBySigreturn (p : SigProc) (ctx : Option SigCtx) (writable : Bool) : Prop :=
  match ctx with
  | none => True
  | some c => c.valid = false ∨ KilledOnReturn { p with sigmask := c.oldMask } c.regs writable

/-! ## The processor -/

section flags

variable {w : BitVec 64}

/-- The assembly's comparison of the high halves is the comparison with `2 ^ 47`. -/
lemma aboveUser_iff : aboveUser w = true ↔ ¬ SanePointer w := by
  have hlt := w.isLt
  rw [aboveUser, decide_eq_true_iff, BitVec.le_def, SanePointer, BitVec.toNat_setWidth,
    BitVec.toNat_ushiftRight, Nat.shiftRight_eq_div_pow]
  have hconst : (0x8000#32).toNat = 0x8000 := rfl
  rw [hconst]
  omega

/-- `sysretq` keeps every flag that its mask has. -/
lemma getLsbD_sysretFlags {k : ℕ} (hmask : (0x3C7FD7#64).getLsbD k = true) (hk : (2#64).getLsbD k = false) :
    (sysretFlags w).getLsbD k = w.getLsbD k := by
  rw [sysretFlags, BitVec.getLsbD_or, BitVec.getLsbD_and, hmask, hk, Bool.and_true, Bool.or_false]

lemma sysretFlags_vm : (sysretFlags w).getLsbD 17 = false := by
  have hmask : (0x3C7FD7#64).getLsbD 17 = false := by decide
  have hk : (2#64).getLsbD 17 = false := by decide
  rw [sysretFlags, BitVec.getLsbD_or, BitVec.getLsbD_and, hmask, hk, Bool.and_false, Bool.or_false]

/-- So the flags are clean if they were in the frame, and only then. -/
lemma cleanFlags_sysretFlags : CleanFlags (sysretFlags w) ↔ CleanFlags w := by
  unfold CleanFlags
  rw [getLsbD_sysretFlags (by decide) (by decide), getLsbD_sysretFlags (by decide) (by decide),
    getLsbD_sysretFlags (by decide) (by decide), getLsbD_sysretFlags (by decide) (by decide),
    getLsbD_sysretFlags (by decide) (by decide), getLsbD_sysretFlags (by decide) (by decide)]

end flags

/-! ## The way out of the kernel -/

section exit

variable {p : SigProc} {frame : UserFrame} {ret : BitVec 64}

/-- **Pointers**: the exit path resumes only with both of them in the user half. -/
lemma Resumed.sanePointers {u : UserContext} (h : syscallExit frame ret = .resumed u) :
    SanePointer u.rip ∧ SanePointer u.rsp := by
  rw [syscallExit] at h
  split_ifs at h with hrip hrsp
  rw [aboveUser_iff, not_not] at hrip hrsp
  obtain rfl := SyscallEnd.resumed.inj h
  exact ⟨hrip, hrsp⟩

/-- **The exit path** is sanitised exactly if it kills the process or the frame has clean flags. -/
lemma sanitised_exit : Sanitised (syscallReturn.exit ret frame p) ↔
    (¬ SanePointer frame.rip ∨ ¬ SanePointer frame.rsp) ∨ CleanFlags frame.rflags := by
  rw [syscallReturn.exit, syscallExit]
  by_cases hrip : aboveUser frame.rip = true
  · rw [if_pos hrip]
    exact ⟨fun _ => .inl (.inl (aboveUser_iff.mp hrip)), fun _ => rfl⟩
  rw [if_neg hrip]
  by_cases hrsp : aboveUser frame.rsp = true
  · rw [if_pos hrsp]
    exact ⟨fun _ => .inl (.inr (aboveUser_iff.mp hrsp)), fun _ => rfl⟩
  rw [if_neg hrsp]
  rw [aboveUser_iff, not_not] at hrip hrsp
  constructor
  · rintro ⟨-, -, hflags, -⟩
    exact .inr (cleanFlags_sysretFlags.mp hflags)
  · rintro ((h | h) | hflags)
    · exact absurd hrip h
    · exact absurd hrsp h
    · exact ⟨hrip, hrsp, cleanFlags_sysretFlags.mpr hflags, sysretFlags_vm⟩

/-- **A system call that returns** with the frame `frame`: the next signal may end the process or change
the pointers, and the flags of the frame stay. -/
lemma sanitised_return (writable : Bool) : Sanitised (syscallReturn p frame ret writable) ↔
    KilledOnReturn p frame writable ∨ CleanFlags frame.rflags := by
  rw [syscallReturn, procDeliverSignals, KilledOnReturn]
  cases firstSignal (deliverable p) with
  | none => exact sanitised_exit
  | some sig =>
    dsimp only
    by_cases hone : (p.acts sig).handler = 1
    · rw [if_pos hone, if_pos (.inl hone)]
      exact sanitised_exit
    rw [if_neg hone]
    by_cases hzero : (p.acts sig).handler = 0
    · rw [if_pos hzero]
      by_cases hdef : defaultIgnored sig = true
      · rw [if_pos hdef, if_pos (.inr ⟨hzero, hdef⟩)]
        exact sanitised_exit
      · have hign : ¬ p.ignores sig := by
          rintro (h | h)
          · exact hone h
          · exact hdef h.2
        rw [if_neg hdef, if_neg hign]
        exact ⟨fun _ => .inl (.inl hzero), fun _ => rfl⟩
    · have hign : ¬ p.ignores sig := by
        rintro (h | h)
        · exact hone h
        · exact hzero h.1
      rw [if_neg hzero, if_neg hign]
      cases writable with
      | false => exact ⟨fun _ => .inl (.inr (.inl rfl)), fun _ => rfl⟩
      | true =>
        -- the handler runs on the trampoline, which is a user address
        have htramp : SanePointer (BitVec.ofNat 64 signalTrampVa) := by decide
        refine Iff.trans sanitised_exit ?_
        have hzero' : ¬ (p.acts sig).handler = 0#64 := hzero
        simp [htramp, hzero', handlerStack]

end exit

/-- **Returns are sanitised exactly when the process is killed on the way or the context has clean flags.**
For every context that `sys_sigreturn` reads, in every state of the process. -/
theorem sigreturn_sanitised_iff (p : SigProc) (frame : UserFrame) (ctx : Option SigCtx) (writable : Bool) :
    Sanitised (sigreturnCall p frame (some ctx) writable) ↔
      KilledBySigreturn p ctx writable ∨ ∃ c, ctx = some c ∧ CleanFlags c.regs.rflags := by
  cases ctx with
  | none => exact ⟨fun _ => .inl trivial, fun _ => rfl⟩
  | some c =>
    rw [sigreturnCall, sysSigreturn, KilledBySigreturn]
    split_ifs with hvalid
    · refine (sanitised_return writable).trans ?_
      simp [hvalid]
    · exact ⟨fun _ => .inl (.inl (by simpa using hvalid)), fun _ => rfl⟩

/-- A frame of a program that runs at `0x400000`, with its flags. -/
def programFrame (rflags : BitVec 64) : UserFrame :=
  ⟨0, 0, 0, 0, 0, 0, 0x400000#64, rflags, 0x7FFFFFFFE000#64⟩

/-- A context that asks for I/O privilege level 3. -/
def privilegedCtx : SigCtx := ⟨sigctxMagic, 1#32, 0#32, 0#64, programFrame 0x3202#64⟩

/-- **A process gives itself I/O privilege**: it calls `sys_sigreturn` with that context, and is resumed
with IOPL 3. -/
theorem sigreturn_raises_iopl :
    ¬ Sanitised (sigreturnCall .fresh (programFrame 0x202#64) (some (some privilegedCtx)) true) := by
  rintro ⟨-, -, ⟨-, hiopl, -⟩, -⟩
  exact absurd hiopl (by decide)

end Chimera
