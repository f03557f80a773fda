import Chimera.Pmap.Pte

/-!
# Address spaces: `kernel/mm/pmap.c` and `kernel/mm/copy.c`

The state `Vm` holds the physical memory manager, the contents of physical memory, and the two
statics of `pmap.c`. Page tables and user data live in the same memory: `mem f i` is word `i` of
frame `f`, seen by the kernel through its direct map.

Conventions.
* An address space is named by the physical address of its PML4; `0` is the null pointer.
* Frames come from `pmm_alloc_page`; `0` and `(u64)-1` are both taken as failures, as in the source.
* A call is one step: the locks of the source are not modelled, nor are TLB flushes.
* A loop that `u64` wrap-around can keep running forever takes fuel and returns `none` without it.
-/

namespace Chimera

open Lib

/-- Physical memory and the statics of `pmap.c`. -/
structure Vm where
  pmm : Pmm
  /-- Physical memory, as 64-bit words. -/
  mem : ℕ → ℕ → BitVec 64
  /-- `s_kernel_pml4_phys`. -/
  kernelPml4 : ℕ
  /-- `s_tramp_phys`. -/
  trampPhys : ℕ

/-- Write one word. -/
def Vm.setWord (v : Vm) (f i : ℕ) (w : BitVec 64) : Vm :=
  { v with mem := Function.update v.mem f (Function.update (v.mem f) i w) }

/-- Write a whole frame. -/
def Vm.setFrame (v : Vm) (f : ℕ) (c : ℕ → BitVec 64) : Vm :=
  { v with mem := Function.update v.mem f c }

/-- `SIGNAL_TRAMP_VA`. -/
def signalTrampVa : ℕ := 0x70000000

/-- The end of the user half of the address space. -/
def userEnd : ℕ := 0x0000800000000000

/-- Source: `va_of`; the four fields do not overlap. -/
def vaOf (pml4I pdptI pdI ptI : ℕ) : ℕ := pml4I * 2 ^ 39 + pdptI * 2 ^ 30 + pdI * 2 ^ 21 + ptI * 2 ^ 12

/-- Source: `pmap_is_trampoline_va` -/
def pmapIsTrampolineVa (va : ℕ) : Bool := va / pageSize * pageSize = signalTrampVa

/-- The index of an address in a table of level `k`, with `1` for the last level. -/
def vaIndex (k va : ℕ) : ℕ := va / 2 ^ (12 + 9 * (k - 1)) % 512

/-! ## Walking and mapping -/

/-- Where the entry for an address is, if all three upper tables are there. The PML4 entry is not
tested for a large page.
Source: `pmap_get_pte_ptr` -/
def pmapGetPtePtr (v : Vm) (pml4Phys vaddr : ℕ) : Option (ℕ × ℕ) :=
  if pml4Phys = 0 then none
  else
    let pml4e := v.mem (frameOf pml4Phys) (vaIndex 4 vaddr)
    if ¬ present pml4e then none
    else
      let pdpte := v.mem (pteFrame pml4e) (vaIndex 3 vaddr)
      if ¬ present pdpte ∨ large pdpte then none
      else
        let pde := v.mem (pteFrame pdpte) (vaIndex 2 vaddr)
        if ¬ present pde ∨ large pde then none
        else some (pteFrame pde, vaIndex 1 vaddr)

/-- One level of `pmap_map_user_page_unlocked`: the table behind word `i` of table `f`, made if it
is absent, and refused if the entry is there for the kernel only. On the last of the three levels
(`big`) a large page counts as absent. -/
def ensureTable (v : Vm) (f i : ℕ) (big : Bool) : Option ℕ × Vm :=
  if ¬ present (v.mem f i) ∨ (big ∧ large (v.mem f i)) then
    let r := pmmAllocPage v.pmm
    let v₁ := { v with pmm := r.2 }
    if allocFailed r.1 then (none, v₁)
    else
      let v₂ := (v₁.setFrame (frameOf r.1) fun _ => 0#64).setWord f i (tableEntry r.1)
      (some (pteFrame (v₂.mem f i)), v₂)
  else if ¬ user (v.mem f i) then (none, v)
  else (some (pteFrame (v.mem f i)), v)

/-- The last step of `pmap_map_user_page_unlocked`: write the leaf, and drop the reference of
another frame it replaces, unless at the trampoline. -/
def setLeaf (v : Vm) (pt vaddr paddr : ℕ) (flags : BitVec 64) : Vm :=
  let old := v.mem pt (vaIndex 1 vaddr)
  let v₁ :=
    if present old ∧ old &&& ptePhysMask ≠ BitVec.ofNat 64 paddr &&& ptePhysMask ∧
        ¬ pmapIsTrampolineVa vaddr then
      { v with pmm := pmmReleasePage v.pmm (ptePhys old) }
    else v
  v₁.setWord pt (vaIndex 1 vaddr) (leafEntry paddr flags)

/-- Map a page; the result is `paddr`, or `0` when the mapping is refused.
Source: `pmap_map_user_page_unlocked`, `pmap_map_user_page` -/
def pmapMapUserPage (v : Vm) (pml4Phys vaddr paddr : ℕ) (flags : BitVec 64) : ℕ × Vm :=
  if pml4Phys = 0 ∨ vaddr < 0x1000 ∨ vaddr ≥ userEnd then (0, v)
  else if vaIndex 4 vaddr ≥ 256 then (0, v)
  else
    match ensureTable v (frameOf pml4Phys) (vaIndex 4 vaddr) false with
    | (none, v₁) => (0, v₁)
    | (some pdpt, v₁) =>
        match ensureTable v₁ pdpt (vaIndex 3 vaddr) false with
        | (none, v₂) => (0, v₂)
        | (some pd, v₂) =>
            match ensureTable v₂ pd (vaIndex 2 vaddr) true with
            | (none, v₃) => (0, v₃)
            | (some pt, v₃) => (paddr, setLeaf v₃ pt vaddr paddr flags)

/-! ## Creating an address space -/

/-- The trampoline page: the entry stub, then `nop` instructions.
Source: `s_tramp_code` and the fill of `pmap_trampoline_install` -/
def trampCode : ℕ → BitVec 64
  | 0 => 0x082454FF243C8B48#64
  | 1 => 0x00B8B810247C8B48#64
  | 2 => 0x90909090050F0000#64
  | _ => 0x9090909090909090#64

/-- Map the trampoline, making its page on the first call.
Source: `pmap_trampoline_install` -/
def pmapTrampolineInstall (v : Vm) (pml4Phys : ℕ) : Vm :=
  if v.trampPhys = 0 then
    let r := pmmAllocPage v.pmm
    if allocFailed r.1 then { v with pmm := r.2 }
    else
      let v₁ := { v with pmm := r.2 }.setFrame (r.1 / pageSize) trampCode
      let v₂ := { v₁ with trampPhys := r.1, pmm := pmmRetainPage v₁.pmm r.1 }
      (pmapMapUserPage v₂ pml4Phys signalTrampVa v₂.trampPhys pageUser).2
  else (pmapMapUserPage v pml4Phys signalTrampVa v.trampPhys pageUser).2

/-- A zeroed PML4 with the kernel half of `from` copied in. -/
def newPml4 (v : Vm) (phys source : ℕ) : Vm :=
  let v₁ := v.setFrame (frameOf phys) fun _ => 0#64
  v₁.setFrame (frameOf phys) fun i =>
    if 256 ≤ i ∧ i < 512 then v₁.mem (frameOf source) i else v₁.mem (frameOf phys) i

/-- Make an address space; `0` when memory runs out.
Source: `pmap_create` -/
def pmapCreate (v : Vm) : ℕ × Vm :=
  let r := pmmAllocPage v.pmm
  let v₁ := { v with pmm := r.2 }
  if allocFailed r.1 then (0, v₁)
  else (r.1, pmapTrampolineInstall (newPml4 v₁ r.1 v.kernelPml4) r.1)

/-! ## Cloning -/

/-- The body of the innermost loop of `pmap_clone_user_space`. -/
def clonePte (dst pt pml4I pdptI pdI ptI : ℕ) (v : Vm) : Vm :=
  let pte := v.mem pt ptI
  if ¬ present pte ∨ ¬ user pte then v
  else
    let v₁ := if write pte then v.setWord pt ptI (cowMark (v.mem pt ptI)) else v
    let flags := if write pte then pageCow else if cow pte then pageCow else 0#64
    let r := pmapMapUserPage v₁ dst (vaOf pml4I pdptI pdI ptI) (ptePhys pte) flags
    if r.1 ≠ 0 then { r.2 with pmm := pmmRetainPage r.2.pmm (ptePhys pte) } else r.2

/-- The loop of `pmap_clone_user_space` over a page directory. -/
def clonePd (dst pd pml4I pdptI : ℕ) (v : Vm) : Vm :=
  forUpTo (fun pdI v =>
    let pde := v.mem pd pdI
    if ¬ present pde ∨ ¬ user pde ∨ large pde then v
    else forUpTo (clonePte dst (pteFrame pde) pml4I pdptI pdI) 512 v) 512 v

/-- The loop of `pmap_clone_user_space` over a page-directory-pointer table. -/
def clonePdpt (dst pdpt pml4I : ℕ) (v : Vm) : Vm :=
  forUpTo (fun pdptI v =>
    let pdpte := v.mem pdpt pdptI
    if ¬ present pdpte ∨ ¬ user pdpte ∨ large pdpte then v
    else clonePd dst (pteFrame pdpte) pml4I pdptI v) 512 v

/-- The loop of `pmap_clone_user_space` over the user half of the PML4. -/
def clonePml4 (dst src : ℕ) (v : Vm) : Vm :=
  forUpTo (fun pml4I v =>
    let pml4e := v.mem (frameOf src) pml4I
    if ¬ present pml4e ∨ ¬ user pml4e then v
    else clonePdpt dst (pteFrame pml4e) pml4I v) 256 v

/-- Duplicate an address space, sharing its pages copy-on-write.
Source: `pmap_clone_user_space` -/
def pmapCloneUserSpace (v : Vm) (src : ℕ) : ℕ × Vm :=
  if src = 0 then (0, v)
  else
    let r := pmmAllocPage v.pmm
    let v₁ := { v with pmm := r.2 }
    if allocFailed r.1 then (0, v₁)
    else (r.1, pmapTrampolineInstall (clonePml4 r.1 src (newPml4 v₁ r.1 src)) r.1)

/-! ## Destroying -/

/-- Drop a reference, as a step on `Vm`. -/
def Vm.release (v : Vm) (phys : ℕ) : Vm := { v with pmm := pmmReleasePage v.pmm phys }

/-- The body of the innermost loop of `pmap_destroy_user_space`. -/
def destroyPte (pt pml4I pdptI pdI ptI : ℕ) (v : Vm) : Vm :=
  let pte := v.mem pt ptI
  if ¬ present pte then v
  else
    let v₁ := v.setWord pt ptI 0#64
    if ¬ pmapIsTrampolineVa (vaOf pml4I pdptI pdI ptI) then v₁.release (ptePhys pte) else v₁

/-- The loop of `pmap_destroy_user_space` over a page directory. -/
def destroyPd (pd pml4I pdptI : ℕ) (v : Vm) : Vm :=
  forUpTo (fun pdI v =>
    let pde := v.mem pd pdI
    if ¬ present pde ∨ large pde then v
    else
      ((forUpTo (destroyPte (pteFrame pde) pml4I pdptI pdI) 512 v).release
        (ptePhys pde)).setWord pd pdI 0#64) 512 v

/-- The loop of `pmap_destroy_user_space` over a page-directory-pointer table. -/
def destroyPdpt (pdpt pml4I : ℕ) (v : Vm) : Vm :=
  forUpTo (fun pdptI v =>
    let pdpte := v.mem pdpt pdptI
    if ¬ present pdpte ∨ large pdpte then v
    else ((destroyPd (pteFrame pdpte) pml4I pdptI v).release (ptePhys pdpte)).setWord pdpt pdptI 0#64)
    512 v

/-- Free an address space: every user page, every table, the PML4. Switching away from it on the
current CPU is not modelled.
Source: `pmap_destroy_user_space` -/
def pmapDestroyUserSpace (v : Vm) (pml4Phys : ℕ) : Vm :=
  if pml4Phys = 0 then v
  else
    (forUpTo (fun pml4I v =>
      let pml4e := v.mem (frameOf pml4Phys) pml4I
      if ¬ present pml4e then v
      else ((destroyPdpt (pteFrame pml4e) pml4I v).release (ptePhys pml4e)).setWord
        (frameOf pml4Phys) pml4I 0#64) 256 v).release (ptePhys (BitVec.ofNat 64 pml4Phys))

/-! ## Unmapping and protecting a range -/

/-- One page of `pmap_unmap_user_range_ex`: clear the entry and collect the frame. -/
def unmapPage (pml4Phys : ℕ) (releasePages : Bool) (va : ℕ) (st : List ℕ × Vm) : List ℕ × Vm :=
  match pmapGetPtePtr st.2 pml4Phys va with
  | none => st
  | some (pt, i) =>
      let pte := st.2.mem pt i
      if ¬ present pte then st
      else (if releasePages ∧ ¬ pmapIsTrampolineVa va then st.1 ++ [ptePhys pte] else st.1,
        st.2.setWord pt i 0#64)

/-- One batch of `pmap_unmap_user_range_ex`: clear the entries of `[chunkStart, chunkEnd)`, then
release the frames collected. -/
def unmapChunk (v : Vm) (pml4Phys chunkStart chunkEnd : ℕ) (releasePages : Bool) : Vm :=
  let r := forUpTo (fun i st => unmapPage pml4Phys releasePages (chunkStart + i * pageSize) st)
    ((chunkEnd - chunkStart + pageSize - 1) / pageSize) ([], v)
  { r.2 with pmm := r.1.foldl pmmReleasePage r.2.pmm }

/-- The batch loop of `pmap_unmap_user_range_ex`; near the top of the address space
`chunk_start + 64 * 4096` wraps, and the loop starts over from below. -/
def unmapLoop (pml4Phys stop : ℕ) (releasePages : Bool) : ℕ → ℕ → Vm → Option Vm
  | fuel, chunkStart, v =>
      if chunkStart < stop then
        match fuel with
        | 0 => none
        | fuel + 1 =>
            let chunkEnd := min (u64 (chunkStart + 64 * pageSize)) stop
            unmapLoop pml4Phys stop releasePages fuel chunkEnd
              (unmapChunk v pml4Phys chunkStart chunkEnd releasePages)
      else some v

/-- Source: `pmap_unmap_user_range_ex` -/
def pmapUnmapUserRangeEx (fuel : ℕ) (v : Vm) (pml4Phys vaddr len : ℕ) (releasePages : Bool) :
    Option Vm :=
  if pml4Phys = 0 ∨ len = 0 then some v
  else
    unmapLoop pml4Phys (u64 (vaddr + len + 4095) / pageSize * pageSize) releasePages fuel
      (vaddr / pageSize * pageSize) v

/-- Source: `pmap_unmap_user_range` -/
def pmapUnmapUserRange (fuel : ℕ) (v : Vm) (pml4Phys vaddr len : ℕ) : Option Vm :=
  pmapUnmapUserRangeEx fuel v pml4Phys vaddr len true

/-- One page of `pmap_protect_user_range`. -/
def protectPage (pml4Phys prot va : ℕ) (v : Vm) : Vm :=
  match pmapGetPtePtr v pml4Phys va with
  | none => v
  | some (pt, i) =>
      if present (v.mem pt i) then v.setWord pt i (protectEntry (v.mem pt i) prot) else v

/-- Change the protection of a range; `false` is the result `-1`.
Source: `pmap_protect_user_range` -/
def pmapProtectUserRange (v : Vm) (pml4Phys virtStart len prot : ℕ) : Bool × Vm :=
  let startVa := virtStart / pageSize * pageSize
  let endVa := u64 (virtStart + len + 0xFFF) / pageSize * pageSize
  if pml4Phys = 0 ∨ len = 0 then (false, v)
  else if endVa ≥ userEnd then (false, v)
  else
    (true, forUpTo (fun i v => protectPage pml4Phys prot (startVa + i * pageSize) v)
      ((endVa - startVa + pageSize - 1) / pageSize) v)

/-! ## Copy-on-write faults, user stores and `copyout` -/

/-- Give a copy-on-write page to its address space: as a copy while others hold the frame, as it
is otherwise.
Source: `pmap_handle_cow_fault` -/
def pmapHandleCowFault (v : Vm) (pml4Phys faultVa : ℕ) : Bool × Vm :=
  if pml4Phys = 0 ∨ faultVa ≥ userEnd then (false, v)
  else
    match pmapGetPtePtr v pml4Phys faultVa with
    | none => (false, v)
    | some (pt, i) =>
        let pte := v.mem pt i
        if ¬ present pte ∨ ¬ cow pte then (false, v)
        else if pmmGetRefcount v.pmm (ptePhys pte) > 1 then
          let r := pmmAllocPage v.pmm
          let v₁ := { v with pmm := r.2 }
          if allocFailed r.1 then (false, v₁)
          else
            let v₂ := v₁.setFrame (frameOf r.1) (v₁.mem (pteFrame pte))
            let v₃ := v₂.release (ptePhys pte)
            (true, v₃.setWord pt i (cowMove r.1 (v₃.mem pt i)))
        else (true, v.setWord pt i (cowReuse pte))

/-- Byte `j` of a word, the lowest first. -/
def getByte (w : BitVec 64) (j : ℕ) : BitVec 8 := (w >>> (8 * j)).setWidth 8

/-- A word with byte `j` replaced. -/
def setByte (w : BitVec 64) (j : ℕ) (b : BitVec 8) : BitVec 64 :=
  (w &&& ~~~(0xFF#64 <<< (8 * j))) ||| (b.setWidth 64 <<< (8 * j))

/-- Store a byte at an offset in a frame. -/
def Vm.setByteAt (v : Vm) (f off : ℕ) (b : BitVec 8) : Vm :=
  v.setWord f (off / 8) (setByte (v.mem f (off / 8)) (off % 8) b)

/-- A store by user code, `none` if it faults. The processor allows it in the user half when the
entry has `PRESENT`, `USER` and `WRITE`. -/
def userStore (v : Vm) (pml4Phys va : ℕ) (b : BitVec 8) : Option Vm :=
  if va ≥ userEnd then none
  else
    match pmapGetPtePtr v pml4Phys va with
    | none => none
    | some (pt, i) =>
        let pte := v.mem pt i
        if present pte ∧ user pte ∧ write pte then
          some (v.setByteAt (pteFrame pte) (va % pageSize) b)
        else none

/-- A load by user code, `none` if it faults. -/
def userLoad (v : Vm) (pml4Phys va : ℕ) : Option (BitVec 8) :=
  if va ≥ userEnd then none
  else
    match pmapGetPtePtr v pml4Phys va with
    | none => none
    | some (pt, i) =>
        let pte := v.mem pt i
        if present pte ∧ user pte then
          some (getByte (v.mem (pteFrame pte) (va % pageSize / 8)) (va % pageSize % 8))
        else none

/-- `USER_STACK_MIN`. -/
def userStackMin : ℕ := 0x00007FF000000000

/-- `USER_STACK_MAX`, also `USER_SPACE_MAX`. -/
def userStackMax : ℕ := 0x00007FFFFFFFFFFF

/-- The flags of a stack page: present, writable, user, not executable. -/
def stackFlags : BitVec 64 := pagePresent ||| pageWrite ||| pageUser ||| pageNx

/-- `pte_ptr ? *pte_ptr : 0`: the entry for an address, `0` if a table is missing. -/
def readPte (v : Vm) (pml4Phys vaddr : ℕ) : BitVec 64 :=
  match pmapGetPtePtr v pml4Phys vaddr with
  | none => 0#64
  | some (pt, i) => v.mem pt i

/-- How `copyout` finds the frame behind one user page: it grows the stack and breaks
copy-on-write, and refuses everything else that is not writable. -/
def copyoutPage (v : Vm) (pml4Phys currUaddr : ℕ) : Option ℕ × Vm :=
  let pte := readPte v pml4Phys currUaddr
  if ¬ present pte then
    let pageVaddr := currUaddr / pageSize * pageSize
    if pageVaddr ≥ userStackMin ∧ pageVaddr ≤ userStackMax then
      let r := pmmAllocPage v.pmm
      let v₁ := { v with pmm := r.2 }
      if allocFailed r.1 then (none, v₁)
      else
        let v₂ := v₁.setFrame (r.1 / pageSize) fun _ => 0#64
        let m := pmapMapUserPage v₂ pml4Phys pageVaddr r.1 stackFlags
        if m.1 = 0 then (none, m.2.release r.1) else (some (r.1 / pageSize), m.2)
    else (none, v)
  else if ¬ write pte then
    if cow pte then
      let c := pmapHandleCowFault v pml4Phys (currUaddr / pageSize * pageSize)
      if ¬ c.1 then (none, c.2)
      else
        let pte' := readPte c.2 pml4Phys currUaddr
        if ¬ present pte' ∨ ¬ write pte' then (none, c.2) else (some (pteFrame pte'), c.2)
    else (none, v)
  else (some (pteFrame pte), v)

/-- Store bytes one after the other in a frame. -/
def Vm.setBytesAt (v : Vm) (f : ℕ) : ℕ → List (BitVec 8) → Vm
  | _, [] => v
  | off, b :: bs => (v.setByteAt f off b).setBytesAt f (off + 1) bs

/-- The loop of `copyout`, a page at a time; each round copies at least one byte, so as many
rounds as there are bytes suffice. -/
def copyoutLoop (pml4Phys : ℕ) : ℕ → ℕ → List (BitVec 8) → Vm → Bool × Vm
  | _, _, [], v => (true, v)
  | 0, _, _ :: _, v => (false, v)
  | n + 1, currUaddr, data, v =>
      match copyoutPage v pml4Phys currUaddr with
      | (none, v₁) => (false, v₁)
      | (some f, v₁) =>
          let chunk := min (pageSize - currUaddr % pageSize) data.length
          copyoutLoop pml4Phys n (currUaddr + chunk) (data.drop chunk)
            (v₁.setBytesAt f (currUaddr % pageSize) (data.take chunk))

/-- Copy bytes to user memory of the address space the processor runs on; `false` is
`CHIMERA_ERR_INVALID`.
Source: `copyout` -/
def copyout (v : Vm) (pml4Phys uaddr : ℕ) (data : List (BitVec 8)) : Bool × Vm :=
  if uaddr = 0 ∨ data = [] then (false, v)
  else if uaddr < 0x1000 ∨ data.length > userStackMax - 0x1000 ∨
      uaddr > userStackMax - data.length then (false, v)
  else copyoutLoop pml4Phys data.length uaddr data v

end Chimera
