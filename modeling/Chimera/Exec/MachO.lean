import Chimera.Pmap.UserCopy

/-!
# The Mach-O loader: `kernel/bsd/mach_loader.c`

`mach_load_args` walks the load commands of an image, maps the pages of its segments into an address
space, then the stack, and writes the arguments there. The model keeps the order of the source: each
command is checked when the walk reaches it, after the pages of the segments before it were mapped.
What a command says is read by the pure `parseCommand`; what is done with it is `loadSegment`.

Conventions.
* An image is a byte for every offset from `module_ptr`: the loader does not know the length of the
  file, and reads on past its end. Offsets are `u64` and wrap.
* `cmd_ptr` and `cmd_end` are offsets; the command table is at most 64 KiB, so they do not wrap.
* The loader never writes where it reads the image.
* A failure returns the error code with the state it leaves behind.
-/

namespace Chimera

/-! ## The image -/

/-- What the loader finds at each offset from `module_ptr`. -/
abbrev Image := ℕ → BitVec 8

/-- A little-endian `u32`. -/
def Image.u32At (img : Image) (o : ℕ) : ℕ :=
  (img o).toNat + 2 ^ 8 * (img (o + 1)).toNat + 2 ^ 16 * (img (o + 2)).toNat + 2 ^ 24 * (img (o + 3)).toNat

/-- A little-endian `u64`. -/
def Image.u64At (img : Image) (o : ℕ) : ℕ := img.u32At o + 2 ^ 32 * img.u32At (o + 4)

/-- `MH_MAGIC_64`. -/
def mhMagic64 : ℕ := 0xfeedfacf
/-- `CPU_TYPE_X86_64`. -/
def cpuTypeX8664 : ℕ := 0x01000007
/-- `MH_EXECUTE`. -/
def mhExecute : ℕ := 2
/-- `LC_SEGMENT_64`. -/
def lcSegment64 : ℕ := 0x19
/-- `LC_UNIXTHREAD`. -/
def lcUnixthread : ℕ := 0x5
/-- `LC_MAIN`. -/
def lcMain : ℕ := 0x80000028
/-- `VM_PROT_WRITE`. -/
def vmProtWrite : ℕ := 2
/-- `VM_PROT_EXECUTE`. -/
def vmProtExecute : ℕ := 4

/-- `-ENOEXEC`. -/
def enoexec : ℤ := -8
/-- `-ENOMEM`. -/
def enomem : ℤ := -12
/-- `-EINVAL`. -/
def einval : ℤ := -22
/-- `-E2BIG`. -/
def e2big : ℤ := -7

/-- The fields of a `segment_command_64` that the loader reads. -/
structure Segment where
  segname : List (BitVec 8)
  vmaddr : ℕ
  vmsize : ℕ
  fileoff : ℕ
  filesize : ℕ
  initprot : ℕ
  deriving DecidableEq, Repr

/-- The segment command at an offset. -/
def segmentAt (img : Image) (o : ℕ) : Segment where
  segname := (List.range 16).map fun i => img (o + 8 + i)
  vmaddr := img.u64At (o + 24)
  vmsize := img.u64At (o + 32)
  fileoff := img.u64At (o + 40)
  filesize := img.u64At (o + 48)
  initprot := img.u32At (o + 60)

/-- Does the segment name begin with `name`? The comparison stops at the end of `name`.
Source: `seg_name_is` -/
def segNameIs (segname name : List (BitVec 8)) : Bool := segname.take name.length = name

/-- `"__TEXT"`. -/
def textName : List (BitVec 8) := [0x5F, 0x5F, 0x54, 0x45, 0x58, 0x54]

/-- `"__PAGEZERO"`. -/
def pagezeroName : List (BitVec 8) := [0x5F, 0x5F, 0x50, 0x41, 0x47, 0x45, 0x5A, 0x45, 0x52, 0x4F]

/-- The test that a segment lies in user space. -/
def Segment.inUserBounds (seg : Segment) : Bool :=
  ¬ (seg.vmaddr < 0x1000 ∨ seg.vmaddr ≥ userEnd ∨ seg.vmsize ≥ userEnd ∨
    seg.vmaddr + seg.vmsize > userEnd)

/-- The flags of the pages of a segment. They are computed in a `u32`, in which `PAGE_NX`, bit 63,
does not fit. -/
def Segment.pageFlags (seg : Segment) : BitVec 64 :=
  let flags₀ : BitVec 32 := (pageUser ||| pageNx).setWidth 32
  let flags₁ : BitVec 32 :=
    if seg.initprot &&& vmProtWrite ≠ 0 then (flags₀.setWidth 64 ||| pageWrite).setWidth 32 else flags₀
  let flags₂ : BitVec 32 :=
    if seg.initprot &&& vmProtExecute ≠ 0 then (flags₁.setWidth 64 &&& ~~~pageNx).setWidth 32 else flags₁
  flags₂.setWidth 64

/-- `start_vaddr`. -/
def Segment.startVaddr (seg : Segment) : ℕ := seg.vmaddr / pageSize * pageSize

/-- `end_vaddr`. -/
def Segment.endVaddr (seg : Segment) : ℕ := (seg.vmaddr + seg.vmsize + 4095) / pageSize * pageSize

/-- The pages of a segment, in the order of the loop. -/
def Segment.pages (seg : Segment) : List ℕ :=
  (List.range ((seg.endVaddr - seg.startVaddr) / pageSize)).map fun i => seg.startVaddr + i * pageSize

/-! ## Walking the load commands -/

/-- Where the walk is, and what it has found so far. -/
structure Parse where
  cmdPtr : ℕ
  textVmaddr : ℕ
  parsedEntry : ℕ
  deriving DecidableEq, Repr

/-- One load command: the walk after it, and the segment to map if it asks for one; `none` is
`-ENOEXEC`. -/
def parseCommand (img : Image) (cmdEnd : ℕ) (p : Parse) : Option (Parse × Option Segment) :=
  let cmd := img.u32At p.cmdPtr
  let cmdsize := img.u32At (p.cmdPtr + 4)
  if p.cmdPtr + 8 > cmdEnd then none
  else if cmdsize < 8 ∨ p.cmdPtr + cmdsize > cmdEnd then none
  else if cmd = lcSegment64 then
    if cmdsize < 72 then none
    else
      let seg := segmentAt img p.cmdPtr
      let p' := { p with
        cmdPtr := p.cmdPtr + cmdsize
        textVmaddr := if segNameIs seg.segname textName then seg.vmaddr else p.textVmaddr }
      if ¬ segNameIs seg.segname pagezeroName ∧ seg.vmsize > 0 then
        if seg.inUserBounds then some (p', some seg) else none
      else some (p', none)
  else if cmd = lcMain then
    some ({ p with
      cmdPtr := p.cmdPtr + cmdsize
      parsedEntry := if cmdsize ≥ 24 then u64 (p.textVmaddr + img.u64At (p.cmdPtr + 8))
        else p.parsedEntry }, none)
  else if cmd = lcUnixthread then
    some ({ p with
      cmdPtr := p.cmdPtr + cmdsize
      parsedEntry := if cmdsize ≥ 184 then img.u64At (p.cmdPtr + 144) else p.parsedEntry }, none)
  else some ({ p with cmdPtr := p.cmdPtr + cmdsize }, none)

/-- `hdr->ncmds`. -/
def Image.ncmds (img : Image) : ℕ := img.u32At 16

/-- `hdr->sizeofcmds`. -/
def Image.sizeofcmds (img : Image) : ℕ := img.u32At 20

/-- The checks of the header. -/
def Image.headerOk (img : Image) : Bool :=
  img.u32At 0 = mhMagic64 ∧ img.u32At 4 = cpuTypeX8664 ∧ img.u32At 12 = mhExecute ∧
    ¬ (img.ncmds > 256 ∨ img.sizeofcmds > 65536)

/-- The walk starts after the header. -/
def Parse.start : Parse := ⟨32, 0, 0⟩

/-- The entry point, the start of `__TEXT` if no command names one. -/
def Parse.entry (p : Parse) : ℕ := if p.parsedEntry = 0 then p.textVmaddr else p.parsedEntry

/-- The test of the entry point. -/
def entryOk (entry : ℕ) : Bool := ¬ (entry < 0x1000 ∨ entry ≥ userEnd)

/-! ## Mapping pages -/

/-- Eight bytes as a word. -/
def pageWord (b : ℕ → BitVec 8) (i : ℕ) : BitVec 64 :=
  (List.range 8).foldl (fun w j => setByte w j (b (8 * i + j))) 0#64

/-- The contents of a page of a segment: zeroed, then the part that the file provides copied in. The
source of the copy is not tested against the length of the file. -/
def segPage (img : Image) (seg : Segment) (pageVaddr : ℕ) : ℕ → BitVec 64 :=
  let copyStart := if seg.vmaddr > pageVaddr then seg.vmaddr else pageVaddr
  let copyEnd := if u64 (seg.vmaddr + seg.filesize) < pageVaddr + pageSize
    then u64 (seg.vmaddr + seg.filesize) else pageVaddr + pageSize
  pageWord fun off =>
    if copyStart ≤ pageVaddr + off ∧ pageVaddr + off < copyEnd then
      img (u64 (seg.fileoff + (pageVaddr + off - seg.vmaddr)))
    else 0#8

/-- Allocate a page, map it and fill it. The page is given back when the mapping is refused. -/
def loaderPage (pml4Phys vaddr : ℕ) (flags : BitVec 64) (content : ℕ → BitVec 64) (v : Vm) :
    Except Vm Vm :=
  let a := pmmAllocPage v.pmm
  let v₁ := { v with pmm := a.2 }
  if allocFailed a.1 then .error v₁
  else
    let m := pmapMapUserPage v₁ pml4Phys vaddr a.1 flags
    if m.1 = 0 then .error (m.2.release a.1) else .ok (m.2.setFrame (m.1 / pageSize) content)

/-- The page loops of the loader: one page after the other, up to the first failure. -/
def populate (pml4Phys : ℕ) (flags : BitVec 64) (content : ℕ → ℕ → BitVec 64) :
    List ℕ → Vm → Except Vm Vm
  | [], v => .ok v
  | va :: vas, v =>
      match loaderPage pml4Phys va flags (content va) v with
      | .error v' => .error v'
      | .ok v' => populate pml4Phys flags content vas v'

/-- Map a segment. -/
def loadSegment (img : Image) (pml4Phys : ℕ) (seg : Segment) (v : Vm) : Except Vm Vm :=
  populate pml4Phys seg.pageFlags (segPage img seg) seg.pages v

/-- The loop over the load commands. -/
def loadCommands (img : Image) (cmdEnd pml4Phys : ℕ) : ℕ → Parse → Vm → Except (ℤ × Vm) (Parse × Vm)
  | 0, p, v => .ok (p, v)
  | n + 1, p, v =>
      match parseCommand img cmdEnd p with
      | none => .error (enoexec, v)
      | some (p', none) => loadCommands img cmdEnd pml4Phys n p' v
      | some (p', some seg) =>
          match loadSegment img pml4Phys seg v with
          | .error v' => .error (enomem, v')
          | .ok v' => loadCommands img cmdEnd pml4Phys n p' v'

/-! ## The stack and the arguments -/

/-- `stack_top`. -/
def stackTop : ℕ := 0x7FFFFFFF0000

/-- The pages of the stack, from the top down. -/
def stackPages : List ℕ := (List.range 2048).map fun i => stackTop - pageSize * (i + 1)

/-- The flags of a stack page, which keep `PAGE_NX`: they are not computed in a variable. -/
def loaderStackFlags : BitVec 64 := pageUser ||| pageWrite ||| pageNx

/-- Map the stack. -/
def mapStack (pml4Phys : ℕ) (v : Vm) : Except Vm Vm :=
  populate pml4Phys loaderStackFlags (fun _ _ => 0#64) stackPages v

/-- The loop of `write_user_stack`, a page at a time; each round writes at least one byte. -/
def writeUserStackLoop (pml4Phys : ℕ) : ℕ → ℕ → List (BitVec 8) → Vm → Bool × Vm
  | _, _, [], v => (true, v)
  | 0, _, _ :: _, v => (false, v)
  | n + 1, vaddr, data, v =>
      let phys := pmapExtract v pml4Phys vaddr
      if phys = 0 then (false, v)
      else
        let chunk := min (pageSize - vaddr % pageSize) data.length
        writeUserStackLoop pml4Phys n (vaddr + chunk) (data.drop chunk)
          (v.setBytesAt (phys / pageSize) (vaddr % pageSize) (data.take chunk))

/-- Write to the stack through the direct map; `false` is the result `-1`.
Source: `write_user_stack` -/
def writeUserStack (pml4Phys vaddr : ℕ) (data : List (BitVec 8)) (v : Vm) : Bool × Vm :=
  writeUserStackLoop pml4Phys data.length vaddr data v

/-- The bytes of a `u64`. -/
def wordBytes (w : ℕ) : List (BitVec 8) := (List.range 8).map fun j => getByte (BitVec.ofNat 64 w) j

/-- Push a `u64`; the result of the write is not looked at.
Source: `write_user_stack_u64` -/
def pushWord (pml4Phys : ℕ) (st : ℕ × Vm) (w : ℕ) : ℕ × Vm :=
  (st.1 - 8, (writeUserStack pml4Phys (st.1 - 8) (wordBytes w) st.2).2)

/-- Push strings, the last one first, each with its terminator: their addresses, the stack pointer
and the state. -/
def pushStrings (pml4Phys : ℕ) : List (List (BitVec 8)) → ℕ → Vm → Except Vm (List ℕ × ℕ × Vm)
  | [], sp, v => .ok ([], sp, v)
  | s :: ss, sp, v =>
      match pushStrings pml4Phys ss sp v with
      | .error v' => .error v'
      | .ok (ptrs, sp', v') =>
          let sp'' := sp' - (s.length + 1)
          match writeUserStack pml4Phys sp'' (s ++ [0]) v' with
          | (false, v'') => .error v''
          | (true, v'') => .ok (sp'' :: ptrs, sp'', v'')

/-- `"/bin/program"`. -/
def defaultArg0 : List (BitVec 8) :=
  [0x2F, 0x62, 0x69, 0x6E, 0x2F, 0x70, 0x72, 0x6F, 0x67, 0x72, 0x61, 0x6D]

/-- `kargv`: at most 127 arguments, and at least one. -/
def loaderArgv (arg0 : Option (List (BitVec 8))) (argv : List (List (BitVec 8))) :
    List (List (BitVec 8)) :=
  if argv.take 127 = [] then [arg0.getD defaultArg0] else argv.take 127

/-- `total_arg_bytes`. -/
def argBytes (strings : List (List (BitVec 8))) : ℕ := (strings.map fun s => s.length + 1).sum

/-- Write the arguments and the environment below the top of the stack. -/
def pushArgs (pml4Phys : ℕ) (kargv kenvp : List (List (BitVec 8))) (v : Vm) : Except (ℤ × Vm) (ℕ × Vm) :=
  match pushStrings pml4Phys kenvp stackTop v with
  | .error v₁ => .error (enomem, v₁)
  | .ok (envpUser, sp₁, v₁) =>
      match pushStrings pml4Phys kargv sp₁ v₁ with
      | .error v₂ => .error (enomem, v₂)
      | .ok (argvUser, sp₂, v₂) =>
          .ok (([0, 0] ++ envpUser.reverse ++ [0] ++ argvUser.reverse ++ [kargv.length]).foldl
            (pushWord pml4Phys) (sp₂ / 16 * 16, v₂))

/-- The part of the loader after the load commands. -/
def loadStack (pml4Phys entry : ℕ) (kargv kenvp : List (List (BitVec 8))) (v : Vm) :
    Except (ℤ × Vm) (ℕ × ℕ × Vm) :=
  if ¬ entryOk entry then .error (enoexec, v)
  else
    match mapStack pml4Phys v with
    | .error v₁ => .error (enomem, v₁)
    | .ok v₁ =>
        if argBytes kargv + argBytes kenvp > 262144 then .error (e2big, v₁)
        else
          match pushArgs pml4Phys kargv kenvp v₁ with
          | .error e => .error e
          | .ok (sp, v₂) => .ok (entry, sp, v₂)

/-- Load an image into an address space: the entry point, the stack pointer and the state.
Source: `mach_load_args` -/
def machLoadArgs (img : Image) (arg0 : Option (List (BitVec 8))) (argv envp : List (List (BitVec 8)))
    (pml4Phys : ℕ) (v : Vm) : Except (ℤ × Vm) (ℕ × ℕ × Vm) :=
  if pml4Phys = 0 then .error (einval, v)
  else if ¬ img.headerOk then .error (enoexec, v)
  else
    match loadCommands img (32 + img.sizeofcmds) pml4Phys img.ncmds .start v with
    | .error e => .error e
    | .ok (p, v₁) => loadStack pml4Phys p.entry (loaderArgv arg0 argv) (envp.take 127) v₁

end Chimera
