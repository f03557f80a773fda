import Chimera.Exec.FileImage
import Chimera.Exec.Room
import Chimera.Mmap.Model
import Chimera.Pmm.Contiguous

/-!
# `sys_execve`

The call copies the path and the arguments in, finds the image, makes a new address space, destroys
the old one, and only then loads the image. Everything that fails before the old address space is
destroyed leaves the task as it was; whatever fails later returns an error to a task that has lost
its memory. So a failed call is harmless exactly when it fails early, or would not fail in the loader
(`failed_exec_harmless`): the image passes the loader's tests and there is memory for its pages. An
image that is no Mach-O file at all is enough to lose the old address space
(`not_macho_loses_memory`).
-/

namespace Chimera

open Lib

/-! ## The call -/

/-- A FAT32 file: its size, the bytes `fat32_read_file` stores when it is asked for the whole of it,
and whether it succeeds with at least one byte. -/
structure FatFile where
  fileSize : ℕ
  data : List (BitVec 8)
  readOk : Bool
  size_lt : fileSize < 2 ^ 32
  data_le : data.length ≤ fileSize

/-- What `vfs_lookup` finds: a FAT32 file, or another vnode, whose data, if any, is the image. -/
inductive ImageFile where
  | fat (file : FatFile)
  | other (img : Option Image)

/-- A string in a buffer of 128 bytes, the last of which is overwritten. -/
def bufferString (bytes : List (BitVec 8)) : List (BitVec 8) := (bytes.take 127).takeWhile (· ≠ 0)

/-- A little-endian `u64`. -/
def bytesToNat (bytes : List (BitVec 8)) : ℕ := bytes.foldr (fun b n => b.toNat + 2 ^ 8 * n) 0

/-- The loop that copies the strings of a vector in: at most `n`, up to the first null pointer or the
first that cannot be read. -/
def execStrings (v : Vm) (pml4Phys ptr : ℕ) : ℕ → ℕ → List (List (BitVec 8))
  | 0, _ => []
  | n + 1, i =>
      match copyin v pml4Phys (u64 (ptr + i * 8)) 8 with
      | none => []
      | some word =>
          if bytesToNat word = 0 then []
          else
            match copyin v pml4Phys (bytesToNat word) 128 with
            | none => []
            | some bytes => bufferString bytes :: execStrings v pml4Phys ptr n (i + 1)

/-- `kargv` or `kenvp`: nothing for a null pointer, at most 15 strings otherwise. -/
def execVector (v : Vm) (pml4Phys ptr : ℕ) : List (List (BitVec 8)) :=
  if ptr = 0 then [] else execStrings v pml4Phys ptr 15 0

/-- Store bytes one after the other from a physical address on. -/
def Vm.storeAt : Vm → ℕ → List (BitVec 8) → Vm
  | v, _, [] => v
  | v, phys, b :: bs => (v.setByteAt (phys / pageSize) (phys % pageSize) b).storeAt (phys + 1) bs

/-- Where the image is: in pages taken for it, or in the data of its vnode. -/
inductive ImagePtr where
  | buffer (tempPhys tempPages : ℕ)
  | vnode (img : Image)

/-- The bytes the loader finds from the start of the image on. -/
def ImagePtr.image (v : Vm) : ImagePtr → Image
  | .buffer tempPhys _ => fun o => frameByte v ((tempPhys + o) / pageSize) ((tempPhys + o) % pageSize)
  | .vnode img => img

/-- Give the pages of the image back. -/
def ImagePtr.free (v : Vm) : ImagePtr → Vm
  | .buffer tempPhys tempPages => { v with pmm := pmmFreeContiguous v.pmm tempPhys tempPages }
  | .vnode _ => v

/-- `temp_pages`. -/
def FatFile.tempPages (file : FatFile) : ℕ := u32 (file.fileSize + 4095) / 4096

/-- Find the image, reading it from the disk if need be. Only `-1` counts as a failed allocation, and
`pmm_alloc_pages` returns 0 when it finds no single page. -/
def acquireImage (v : Vm) : ImageFile → Except (ℤ × Vm) (ImagePtr × Vm)
  | .fat file =>
      if file.fileSize = 0 then .error (-1, v)
      else
        let r := pmmAllocPages v.pmm file.tempPages
        let v₁ := { v with pmm := r.2 }
        if r.1 = paddrFail then .error (-1, v₁)
        else
          let v₂ := v₁.storeAt r.1 file.data
          let ptr := ImagePtr.buffer r.1 file.tempPages
          if file.readOk then .ok (ptr, v₂) else .error (-1, ptr.free v₂)
  | .other none => .error (-1, v)
  | .other (some img) => .ok (.vnode img, v)

/-- How the call ends. -/
inductive ExecResult where
  /-- It returns to its caller. -/
  | ret (rc : ℤ)
  /-- It enters the new program. -/
  | enter (entry userStack : ℕ)
  deriving DecidableEq, Repr

/-- The part of the call after the old address space: the new one is the task's, and the image is
loaded into it. -/
def execLoad (ptr : ImagePtr) (path : List (BitVec 8)) (kargv kenvp : List (List (BitVec 8)))
    (newPml4 : ℕ) (t : TaskVm) (v : Vm) : ExecResult × TaskVm × Vm :=
  let t' := { t with vmMap := newPml4, mmapNext := 0 }
  match machLoadArgs (ptr.image v) (some path) kargv kenvp newPml4 v with
  | .error (e, v') => (.ret (if e < 0 then e else -1), t', ptr.free v')
  | .ok (entry, sp, v') =>
      if entry = 0 then (.ret (-1), t', ptr.free v') else (.enter entry sp, t', ptr.free v')

/-- Replace the program of a task; `lookup` is the file system.
Source: `sys_execve` -/
def sysExecve (lookup : List (BitVec 8) → Option ImageFile) (pathPtr argvPtr envpPtr : ℕ) (t : TaskVm)
    (v : Vm) : ExecResult × TaskVm × Vm :=
  match copyin v t.vmMap pathPtr 128 with
  | none => (.ret (-1), t, v)
  | some bytes =>
      let path := bufferString bytes
      let kargv := if execVector v t.vmMap argvPtr = [] then [path] else execVector v t.vmMap argvPtr
      let kenvp := execVector v t.vmMap envpPtr
      match lookup path with
      | none => (.ret (-2), t, v)
      | some file =>
          match acquireImage v file with
          | .error (e, v₁) => (.ret e, t, v₁)
          | .ok (ptr, v₁) =>
              if t.vmMap = 0 then (.ret (-1), t, ptr.free v₁)
              else
                let r := pmapCreate v₁
                if r.1 = 0 then (.ret (-12), t, ptr.free r.2)
                else execLoad ptr path kargv kenvp r.1 t (pmapDestroyUserSpace r.2 t.vmMap)

/-! ## What a failed call may do -/

/-- The user pages of an address space, with their contents, are the same in both states. -/
def SameUserMemory (v v' : Vm) (pml4Phys : ℕ) : Prop :=
  ∀ x, view v'.mem (frameOf pml4Phys) x = view v.mem (frameOf pml4Phys) x ∧
    (present (view v.mem (frameOf pml4Phys) x) →
      v'.mem (pteFrame (view v.mem (frameOf pml4Phys) x)) = v.mem (pteFrame (view v.mem (frameOf pml4Phys) x)))

/-- If the call returns to its caller, the task and its memory are what they were. -/
def ExecHarmless (lookup : List (BitVec 8) → Option ImageFile) (pathPtr argvPtr envpPtr : ℕ) (t : TaskVm)
    (v : Vm) : Prop :=
  ∀ rc t' v', sysExecve lookup pathPtr argvPtr envpPtr t v = (.ret rc, t', v') →
    t' = t ∧ SameUserMemory v v' t.vmMap

/-- The buffer of the image is not the page at address 0, which stands for a failed allocation, or
that page is none of the task's, or it holds the bytes of the file as it is. -/
def BufferApart (v : Vm) (pml4Phys : ℕ) : ImageFile → Prop
  | .fat file => (pmmAllocPages v.pmm file.tempPages).1 = 0 →
      ∀ x, present (view v.mem (frameOf pml4Phys) x) → pteFrame (view v.mem (frameOf pml4Phys) x) = 0 →
        (v.storeAt 0 file.data).mem 0 = v.mem 0
  | .other _ => True

/-- The call fails before it destroys the old address space, or it does not fail at all: the image
passes the tests of the loader, and once the old address space is gone there is memory for the pages
of its segments and for the stack. -/
def ExecSafe (lookup : List (BitVec 8) → Option ImageFile) (pathPtr : ℕ) (t : TaskVm) (v : Vm) : Prop :=
  match copyin v t.vmMap pathPtr 128 with
  | none => True
  | some bytes =>
      match lookup (bufferString bytes) with
      | none => True
      | some file =>
          BufferApart v t.vmMap file ∧
            match acquireImage v file with
            | .error _ => True
            | .ok (ptr, v₁) =>
                (pmapCreate v₁).1 = 0 ∨
                  let v₂ := pmapDestroyUserSpace (pmapCreate v₁).2 t.vmMap
                  (ptr.image v₂).ok = true ∧
                    mapsAll (pmapCreate v₁).1 (neededPages (ptr.image v₂).segments) v₂ = true

/-! ## The arguments always fit -/

lemma length_bufferString (bytes : List (BitVec 8)) : (bufferString bytes).length ≤ 127 :=
  ((List.takeWhile_sublist _).length_le).trans (by rw [List.length_take]; omega)

lemma argBytes_le {strings : List (List (BitVec 8))} (h : ∀ s ∈ strings, s.length ≤ 127) :
    argBytes strings ≤ 128 * strings.length := by
  induction strings with
  | nil => exact le_rfl
  | cons s strings ih =>
    have hs := h s List.mem_cons_self
    have hrest := ih fun s' hs' => h s' (List.mem_cons_of_mem _ hs')
    have hsum : argBytes (s :: strings) = s.length + 1 + argBytes strings := rfl
    rw [hsum, List.length_cons]
    omega

lemma execStrings_bounds (v : Vm) (pml4 ptr n i : ℕ) :
    (execStrings v pml4 ptr n i).length ≤ n ∧ ∀ s ∈ execStrings v pml4 ptr n i, s.length ≤ 127 := by
  induction n generalizing i with
  | zero => exact ⟨le_rfl, fun s hs => nomatch hs⟩
  | succ n ih =>
    rw [execStrings]
    cases copyin v pml4 (u64 (ptr + i * 8)) 8 with
    | none => exact ⟨Nat.zero_le _, fun s hs => nomatch hs⟩
    | some word =>
      dsimp only
      split_ifs
      · exact ⟨Nat.zero_le _, fun s hs => nomatch hs⟩
      · cases copyin v pml4 (bytesToNat word) 128 with
        | none => exact ⟨Nat.zero_le _, fun s hs => nomatch hs⟩
        | some bytes =>
          obtain ⟨hlen, hall⟩ := ih (i + 1)
          refine ⟨Nat.succ_le_succ hlen, fun s hs => ?_⟩
          rcases List.mem_cons.mp hs with rfl | hs
          · exact length_bufferString bytes
          · exact hall s hs

lemma execVector_bounds (v : Vm) (pml4 ptr : ℕ) :
    (execVector v pml4 ptr).length ≤ 15 ∧ ∀ s ∈ execVector v pml4 ptr, s.length ≤ 127 := by
  unfold execVector
  split_ifs
  · exact ⟨Nat.zero_le _, fun s hs => nomatch hs⟩
  · exact execStrings_bounds v pml4 ptr 15 0

/-- **The arguments of `sys_execve` fit**: at most fifteen strings of each kind. -/
lemma exec_argsFit (v : Vm) (pml4 argvPtr envpPtr : ℕ) (bytes : List (BitVec 8)) : argsFit (some (bufferString bytes))
      (if execVector v pml4 argvPtr = [] then [bufferString bytes] else execVector v pml4 argvPtr)
      (execVector v pml4 envpPtr) := by
  obtain ⟨hlen, hall⟩ := execVector_bounds v pml4 argvPtr
  obtain ⟨hlen', hall'⟩ := execVector_bounds v pml4 envpPtr
  have hpath := length_bufferString bytes
  set kargv := if execVector v pml4 argvPtr = [] then [bufferString bytes] else execVector v pml4 argvPtr
    with hkargv
  have hk : kargv.length ≤ 15 ∧ kargv ≠ [] ∧ ∀ s ∈ kargv, s.length ≤ 127 := by
    rw [hkargv]
    split_ifs with hnil
    · refine ⟨by simp, by simp, fun s hs => ?_⟩
      rw [List.mem_singleton.mp hs]
      exact hpath
    · exact ⟨hlen, hnil, hall⟩
  have htake : kargv.take 127 = kargv := List.take_of_length_le (by omega)
  have henv : (execVector v pml4 envpPtr).take 127 = execVector v pml4 envpPtr := List.take_of_length_le (by omega)
  unfold argsFit loaderArgv
  rw [htake, if_neg hk.2.1, henv]
  have h1 := argBytes_le hk.2.2
  have h2 := argBytes_le hall'
  have := hk.1
  omega

/-! ## The buffer of the image -/

variable {v : Vm} {R : Finset ℕ} {t : TaskVm} {lookup : List (BitVec 8) → Option ImageFile}
  {pathPtr argvPtr envpPtr : ℕ}

/-- More references do no harm. -/
lemma Sound.moreRefs (h : Sound v R) {p : Pmm} (hinv : p.Inv) (hmax : p.maxPhysPage = v.pmm.maxPhysPage)
    (hle : ∀ f, rc v.pmm f ≤ rc p f) : Sound { v with pmm := p } R := by
  refine ⟨hinv, h.shape, fun f hf => hmax.symm ▸ h.table_lt f hf, fun f hf ht => ?_, fun ht => ?_,
    fun hr hp ht => h.tramp_slot hr hp ht⟩
  · have hs := h.counted f (hmax ▸ hf) ht
    have hl := hle f
    unfold slack at hs ⊢
    dsimp only
    omega
  · obtain ⟨h1, h2, h3, h4⟩ := h.tramp ht
    refine ⟨h1, hmax.symm ▸ h2, fun h0 => h3 (Nat.le_zero.mp ?_), h4⟩
    exact (hle _).trans_eq h0

/-- Storing changes the frames the bytes fall in. -/
lemma storeAt_eq (v : Vm) (phys : ℕ) (bs : List (BitVec 8)) :
    v.storeAt phys bs = { v with mem := (v.storeAt phys bs).mem } ∧
      ∀ f, ¬ (phys / pageSize ≤ f ∧ f * pageSize < phys + bs.length) → (v.storeAt phys bs).mem f = v.mem f := by
  induction bs generalizing v phys with
  | nil => exact ⟨rfl, fun _ _ => rfl⟩
  | cons b bs ih =>
    obtain ⟨heq, hmem⟩ := ih (v.setByteAt (phys / pageSize) (phys % pageSize) b) (phys + 1)
    refine ⟨heq, fun f hf => ?_⟩
    rw [List.length_cons] at hf
    unfold pageSize at hf
    refine (hmem f ?_).trans (Function.update_of_ne ?_ _ _)
    · unfold pageSize
      omega
    · rintro rfl
      unfold pageSize at hf
      omega

/-- The bytes stored do not depend on the allocator. -/
lemma storeAt_mem_pmm (v : Vm) (p : Pmm) (phys : ℕ) (bs : List (BitVec 8)) :
    (({ v with pmm := p } : Vm).storeAt phys bs).mem = (v.storeAt phys bs).mem := by
  induction bs generalizing v phys with
  | nil => rfl
  | cons b bs ih => exact ih (v.setByteAt (phys / pageSize) (phys % pageSize) b) (phys + 1)

/-- **The pages for an image** are unused, or they are the page at address 0 and there is no memory
left. -/
lemma pmmAllocPages_buffer (h : Sound v R) {n : ℕ} (hfail : (pmmAllocPages v.pmm n).1 ≠ paddrFail) :
    Sound { v with pmm := (pmmAllocPages v.pmm n).2 } R ∧ ∃ p, (pmmAllocPages v.pmm n).1 = p * pageSize ∧
        ((∀ q, p ≤ q → q < p + n → q < v.pmm.maxPhysPage ∧ rc v.pmm q = 0 ∧ rc (pmmAllocPages v.pmm n).2 q ≠ 0) ∨
          p = 0 ∧ n = 1 ∧ (pmmAllocPage (pmmAllocPages v.pmm n).2).1 = 0) := by
  have hinv := h.inv
  have hn : 1 ≤ n ∧ n ≤ 2 ^ buddyMaxOrder := by
    by_contra hn
    apply hfail
    unfold pmmAllocPages
    by_cases h0 : n = 0
    · rw [if_pos h0]
    · have hlt : 2 ^ buddyMaxOrder < n := by omega
      have h1 : n ≠ 1 := by
        rintro rfl
        exact absurd hlt (by decide)
      rw [if_neg h0, if_neg h1, pmmOrderFor_eq_none (by rw [Nat.zero_add]; exact hlt)]
  have htaken : ∀ {p k : ℕ} {s : Pmm}, n ≤ 2 ^ k → s.Inv → Taken v.pmm p k s → Sound { v with pmm := s } R ∧
        ∀ q, p ≤ q → q < p + n → q < v.pmm.maxPhysPage ∧ rc v.pmm q = 0 ∧ rc s q ≠ 0 := by
    intro p k s hk hs ht
    refine ⟨h.moreRefs hs ht.max_eq fun f => ?_, fun q hlo hhi => ?_⟩
    · rw [ht.rc_eq]
      split_ifs with hf
      · exact (mem_freeSet.mp (ht.free hf)).2.trans_le (Nat.zero_le _)
      · exact le_rfl
    · have hblk : q ∈ blk p k := ⟨hlo, by omega⟩
      obtain ⟨hlt, hzero⟩ := mem_freeSet.mp (ht.free hblk)
      exact ⟨hlt, hzero, by rw [ht.rc_eq, if_pos hblk]; decide⟩
  by_cases hone : n = 1
  · subst hone
    obtain ⟨hs, ⟨hf, -⟩ | ⟨p, hp, ht⟩⟩ := pmmAllocPage_spec hinv
    · have heq : pmmAllocPages v.pmm 1 = (0, v.pmm) := hf
      rw [heq]
      exact ⟨h, 0, rfl, .inr ⟨rfl, rfl, congrArg Prod.fst hf⟩⟩
    · obtain ⟨hsound, hfree⟩ := htaken (by decide) hs ht
      exact ⟨hsound, p, hp, .inl hfree⟩
  · rw [pmmAllocPages_eq v.pmm (by omega) hn.2] at hfail ⊢
    obtain ⟨L, hL⟩ := hinv
    rcases pmmAllocOrder_spec hL (Nat.clog_le_of_le_pow hn.2) with ⟨hf, -⟩ | ⟨p, hp, ht, hs⟩
    · rw [hf] at hfail
      exact absurd rfl hfail
    · obtain ⟨hsound, hfree⟩ := htaken (Nat.le_pow_clog (by decide) n) hs ht
      exact ⟨hsound, p, hp, .inl hfree⟩

lemma SameUserMemory.of_mem {v' : Vm} (h : v'.mem = v.mem) (pml4 : ℕ) : SameUserMemory v v' pml4 :=
  fun _ => by rw [h]; exact ⟨rfl, fun _ => rfl⟩

lemma SameUserMemory.congr {w w' : Vm} (h : w'.mem = w.mem) {pml4 : ℕ} :
    SameUserMemory v w' pml4 ↔ SameUserMemory v w pml4 := by
  unfold SameUserMemory
  rw [h]

@[simp] lemma ImagePtr.free_mem (ptr : ImagePtr) (v : Vm) : (ptr.free v).mem = v.mem := by cases ptr <;> rfl

/-- Without a page there is no PML4. -/
lemma pmapCreate_exhausted {w : Vm} (h : (pmmAllocPage w.pmm).1 = 0) : (pmapCreate w).1 = 0 := by
  unfold pmapCreate
  rw [if_pos (by rw [h]; rfl)]

/-- The pages for an image are at least one, and the file fits in them. -/
lemma FatFile.data_fits (file : FatFile) {s : Pmm} (hfail : (pmmAllocPages s file.tempPages).1 ≠ paddrFail) :
    1 ≤ file.tempPages ∧ file.data.length ≤ file.tempPages * pageSize := by
  have hdata := file.data_le
  have hsize := file.size_lt
  have hpos : file.tempPages ≠ 0 := fun h0 => by
    rw [h0] at hfail
    exact hfail rfl
  unfold FatFile.tempPages u32 at hpos ⊢
  unfold pageSize
  omega

/-- What finding the image has done to the memory of the tasks: nothing, if the buffer is apart from
it; and if it is not, no page is left for a PML4. -/
structure Acquired (v w : Vm) (R : Finset ℕ) (file : ImageFile) : Prop where
  sound : Sound w R
  tables_eq : tables w.mem R = tables v.mem R
  same_iff : ∀ r ∈ R, SameUserMemory v w (r * pageSize) ↔ BufferApart v (r * pageSize) file
  apart : ∀ r ∈ R, (pmapCreate w).1 ≠ 0 → BufferApart v (r * pageSize) file

/-- **Reading the file into its buffer.** -/
lemma readImage_spec (h : Sound v R) (file : FatFile)
    (hfail : (pmmAllocPages v.pmm file.tempPages).1 ≠ paddrFail) :
    Acquired v (({ v with pmm := (pmmAllocPages v.pmm file.tempPages).2 } : Vm).storeAt
      (pmmAllocPages v.pmm file.tempPages).1 file.data) R (.fat file) := by
  obtain ⟨hs, p, hp, hbuf⟩ := pmmAllocPages_buffer h hfail
  obtain ⟨hpages, hlen⟩ := file.data_fits hfail
  rw [hp]
  obtain ⟨heq, hmem⟩ := storeAt_eq ({ v with pmm := (pmmAllocPages v.pmm file.tempPages).2 } : Vm)
    (p * pageSize) file.data
  have hout : ∀ f, f ∉ {q | p ≤ q ∧ q < p + file.tempPages} →
      (({ v with pmm := (pmmAllocPages v.pmm file.tempPages).2 } : Vm).storeAt (p * pageSize)
        file.data).mem f = v.mem f := by
    intro f hf
    refine hmem f fun hin => hf ?_
    have hmul := (Nat.add_mul p file.tempPages pageSize).symm
    refine ⟨?_, Nat.lt_of_mul_lt_mul_right (a := pageSize) (by omega)⟩
    rw [Nat.mul_div_cancel _ (by decide : 0 < pageSize)] at hin
    exact hin.1
  have hzero : p = 0 → file.tempPages = 1 →
      (({ v with pmm := (pmmAllocPages v.pmm file.tempPages).2 } : Vm).storeAt (p * pageSize)
        file.data).mem 0 = (v.storeAt 0 file.data).mem 0 := by
    intro h0 _
    rw [storeAt_mem_pmm, h0, Nat.zero_mul]
  have hpmm : (({ v with pmm := (pmmAllocPages v.pmm file.tempPages).2 } : Vm).storeAt (p * pageSize)
      file.data).pmm = (pmmAllocPages v.pmm file.tempPages).2 := by
    rw [heq]
  have htouch : Touched { v with pmm := (pmmAllocPages v.pmm file.tempPages).2 }
      (({ v with pmm := (pmmAllocPages v.pmm file.tempPages).2 } : Vm).storeAt (p * pageSize)
        file.data) R {q | p ≤ q ∧ q < p + file.tempPages} := by
    rw [heq]
    refine hs.touch (fun q hq htab => ?_) _ hout
    rcases hbuf with hfree | ⟨hp0, hone, -⟩
    · obtain ⟨hlt, hrc, -⟩ := hfree q hq.1 hq.2
      exact (h.fresh hlt hrc).1 htab
    · have hlt : q < p + file.tempPages := hq.2
      exact (h.table_lt q htab).2 (by omega)
  generalize (({ v with pmm := (pmmAllocPages v.pmm file.tempPages).2 } : Vm).storeAt (p * pageSize)
    file.data) = w at hout hzero hpmm htouch
  have hroot : ∀ r ∈ R, frameOf (r * pageSize) = r := fun r hr => h.frameOf_root hr
  -- a page of a task in the buffer is the page at address 0, after a failed allocation
  have hin : ∀ r ∈ R, ∀ x, present (view v.mem r x) →
      p ≤ pteFrame (view v.mem r x) → pteFrame (view v.mem r x) < p + file.tempPages →
      p = 0 ∧ file.tempPages = 1 ∧ (pmmAllocPage (pmmAllocPages v.pmm file.tempPages).2).1 = 0 := by
    intro r hr x hpres hlo hhi
    refine hbuf.resolve_left fun hfree => ?_
    obtain ⟨hlt, hrc, -⟩ := hfree _ hlo hhi
    exact (h.fresh hlt hrc).2.1 r hr x hpres rfl
  have hp0 : (pmmAllocPages v.pmm file.tempPages).1 = 0 → p = 0 := by
    intro h0
    rw [hp] at h0
    exact (Nat.mul_eq_zero.mp h0).resolve_right (by decide)
  refine ⟨htouch.sound, htouch.walks.tables_eq, fun r hr => ⟨fun hsame h0 x hpres hframe => ?_, fun hap x => ?_⟩,
    fun r hr hcreate h0 x hpres hframe => ?_⟩
  · have hx := hsame x
    rw [hroot r hr] at hx hpres hframe
    obtain ⟨hpz, hone, -⟩ := hin r hr x hpres (by rw [hp0 h0]; exact Nat.zero_le _) (by omega)
    rw [← hzero hpz hone, ← hframe]
    exact hx.2 hpres
  · have hview := htouch.view_eq r hr x
    unfold BufferApart at hap
    rw [hroot r hr] at hap ⊢
    refine ⟨hview, fun hpres => ?_⟩
    by_cases hmem' : p ≤ pteFrame (view v.mem r x) ∧ pteFrame (view v.mem r x) < p + file.tempPages
    · obtain ⟨hpz, hone, -⟩ := hin r hr x hpres hmem'.1 hmem'.2
      have hframe : pteFrame (view v.mem r x) = 0 := by omega
      rw [hframe, hzero hpz hone]
      exact hap (by rw [hp, hpz, Nat.zero_mul]) x hpres hframe
    · exact hout _ hmem'
  · rw [hroot r hr] at hpres hframe
    obtain ⟨hpz, hone, halloc⟩ := hin r hr x hpres (by rw [hp0 h0]; exact Nat.zero_le _) (by omega)
    exact absurd (pmapCreate_exhausted (hpmm ▸ halloc)) hcreate

/-- **Finding the image**: an error leaves the memory of the tasks alone if the buffer is apart from
it, and a success also leaves the address spaces sound. -/
lemma acquireImage_cases (h : Sound v R) (file : ImageFile) : (∃ e w, acquireImage v file = .error (e, w) ∧
        ∀ r ∈ R, SameUserMemory v w (r * pageSize) ↔ BufferApart v (r * pageSize) file) ∨
      ∃ ptr w, acquireImage v file = .ok (ptr, w) ∧ Acquired v w R file := by
  have hsame : ∀ r, SameUserMemory v v r := fun r => .of_mem rfl r
  rcases file with file | _ | img
  · by_cases h0 : file.fileSize = 0
    · refine .inl ⟨-1, v, if_pos h0, fun r _ => iff_of_true (hsame _) fun hz => ?_⟩
      have hpages : file.tempPages = 0 := by
        unfold FatFile.tempPages
        rw [h0]
        rfl
      rw [hpages] at hz
      exact absurd hz (show paddrFail ≠ 0 by decide)
    · unfold acquireImage
      dsimp only
      rw [if_neg h0]
      by_cases hfail : (pmmAllocPages v.pmm file.tempPages).1 = paddrFail
      · rw [if_pos hfail]
        refine .inl ⟨_, _, rfl, fun r _ => iff_of_true (.of_mem rfl _) fun hz => ?_⟩
        rw [hfail] at hz
        exact absurd hz (by decide)
      · rw [if_neg hfail]
        have hread := readImage_spec h file hfail
        split_ifs with hok
        · exact .inr ⟨_, _, rfl, hread⟩
        · exact .inl ⟨_, _, rfl, hread.same_iff⟩
  · exact .inl ⟨_, _, rfl, fun r _ => iff_of_true (hsame _) trivial⟩
  · exact .inr ⟨_, _, rfl, h, rfl, fun r _ => iff_of_true (hsame _) trivial, fun _ _ _ => trivial⟩

/-! ## The image is the file -/

/-- The byte at a physical address. -/
def physByte (v : Vm) (phys : ℕ) : BitVec 8 := frameByte v (phys / pageSize) (phys % pageSize)

lemma physByte_setByteAt (v : Vm) (p q : ℕ) (b : BitVec 8) :
    physByte (v.setByteAt (p / pageSize) (p % pageSize) b) q = if q = p then b else physByte v q := by
  have hsame : q = p ↔ q / pageSize = p / pageSize ∧ q % pageSize / 8 = p % pageSize / 8 ∧
      q % pageSize % 8 = p % pageSize % 8 := by
    unfold pageSize
    omega
  unfold physByte frameByte Vm.setByteAt
  by_cases hf : q / pageSize = p / pageSize
  · by_cases hw : q % pageSize / 8 = p % pageSize / 8
    · rw [hf, hw]
      simp only [Vm.setWord, Function.update_self]
      rw [getByte_setByte _ (Nat.mod_lt _ (by decide))]
      exact if_congr (by rw [hsame]; exact ⟨fun h => ⟨hf, hw, h⟩, fun h => h.2.2⟩) rfl rfl
    · rw [if_neg fun h => hw (hsame.mp h).2.1, hf]
      simp [Vm.setWord, hw]
  · rw [if_neg fun h => hf (hsame.mp h).1]
    simp [Vm.setWord, hf]

/-- The bytes that were stored. -/
lemma physByte_storeAt (v : Vm) (phys : ℕ) (bs : List (BitVec 8)) (q : ℕ) :
    physByte (v.storeAt phys bs) q = if phys ≤ q then (bs[q - phys]?).getD (physByte v q) else physByte v q := by
  induction bs generalizing v phys with
  | nil => simp [Vm.storeAt]
  | cons b bs ih =>
    rw [Vm.storeAt, ih, physByte_setByteAt]
    rcases lt_trichotomy q phys with hlt | rfl | hgt
    · rw [if_neg (by omega), if_neg (by omega), if_neg (by omega)]
    · rw [if_neg (by omega), if_pos rfl, if_pos le_rfl]
      simp
    · obtain ⟨k, hk⟩ : ∃ k, q - phys = k + 1 := ⟨q - phys - 1, by omega⟩
      have hk' : q - (phys + 1) = k := by omega
      rw [if_pos (by omega), if_neg (by omega), if_pos hgt.le, hk, hk', List.getElem?_cons_succ]

/-- **The image the loader is given is the file**, with kernel memory behind it. -/
theorem execImage_file (h : Sound v R) {r : ℕ} (hr : r ∈ R) {file : FatFile} {ptr : ImagePtr} {w : Vm}
    (hacq : acquireImage v (.fat file) = .ok (ptr, w)) (hcreate : (pmapCreate w).1 ≠ 0) :
    ∃ K, ptr.image (pmapDestroyUserSpace (pmapCreate w).2 (r * pageSize)) = fileImage file.data K := by
  dsimp only [acquireImage] at hacq
  by_cases h0 : file.fileSize = 0
  · rw [if_pos h0] at hacq
    cases hacq
  rw [if_neg h0] at hacq
  by_cases hfail : (pmmAllocPages v.pmm file.tempPages).1 = paddrFail
  · rw [if_pos hfail] at hacq
    cases hacq
  rw [if_neg hfail] at hacq
  by_cases hok : file.readOk = true
  swap
  · rw [if_neg hok] at hacq
    cases hacq
  rw [if_pos hok] at hacq
  obtain ⟨rfl, hw⟩ := Prod.mk.inj (Except.ok.inj hacq)
  have hread := readImage_spec h file hfail
  obtain ⟨-, p, hp, hbuf⟩ := pmmAllocPages_buffer h hfail
  obtain ⟨-, hlen⟩ := file.data_fits hfail
  rw [hw] at hread
  have hpmm : w.pmm = (pmmAllocPages v.pmm file.tempPages).2 := by rw [← hw, (storeAt_eq _ _ _).1]
  have hfree := hbuf.resolve_right fun hz => hcreate (pmapCreate_exhausted (hpmm ▸ hz.2.2))
  -- nothing is written to the buffer any more
  have hkept : ∀ q, p ≤ q → q < p + file.tempPages →
      (pmapDestroyUserSpace (pmapCreate w).2 (r * pageSize)).mem q = w.mem q := by
    intro q hlo hhi
    obtain ⟨hlt, hzero, hrc⟩ := hfree q hlo hhi
    have htab : q ∉ tables w.mem R := hread.tables_eq ▸ (h.fresh hlt hzero).1
    obtain ⟨hc0, -⟩ | ⟨g, hg, c⟩ := pmapCreate_spec hread.sound
    · exact absurd hc0 hcreate
    have hrcw : rc w.pmm q ≠ 0 := hpmm ▸ hrc
    rw [(pmapDestroyUserSpace_spec c.sound (Finset.mem_insert_of_mem hr)).data_eq q (c.used q hrcw htab),
      c.data_eq q hrcw htab]
  refine ⟨(ImagePtr.buffer (pmmAllocPages v.pmm file.tempPages).1 file.tempPages).image
    (pmapDestroyUserSpace (pmapCreate w).2 (r * pageSize)), ?_⟩
  funext o
  unfold fileImage
  cases hbyte : file.data[o]? with
  | none => rfl
  | some b =>
    obtain ⟨ho, -⟩ := List.getElem?_eq_some_iff.mp hbyte
    have hstored := physByte_storeAt { v with pmm := (pmmAllocPages v.pmm file.tempPages).2 }
      (pmmAllocPages v.pmm file.tempPages).1 file.data ((pmmAllocPages v.pmm file.tempPages).1 + o)
    rw [hw, if_pos (Nat.le_add_right _ _), Nat.add_sub_cancel_left, hbyte] at hstored
    rw [Option.getD_some] at hstored ⊢
    rw [← hstored]
    unfold ImagePtr.image physByte frameByte
    dsimp only
    rw [hkept]
    · rw [hp, Nat.le_div_iff_mul_le (by decide)]
      exact Nat.le_add_right _ _
    · rw [hp, Nat.div_lt_iff_lt_mul (by decide), Nat.add_mul]
      omega

theorem execImage_file_byte : ∃ r K, acquireImage soloVm (.fat ⟨1, [7], true, by decide, le_rfl⟩) = .ok r ∧
    r.1.image (pmapDestroyUserSpace (pmapCreate r.2).2 (259 * pageSize)) = fileImage [7] K := by
  obtain ⟨r, hacq, hcreate⟩ : ∃ r, acquireImage soloVm (.fat ⟨1, [7], true, by decide, le_rfl⟩) = .ok r ∧
      (pmapCreate r.2).1 ≠ 0 := by
    dsimp only [acquireImage]
    rw [if_neg one_ne_zero, if_neg (by decide +kernel)]
    exact ⟨_, rfl, by decide +kernel⟩
  obtain ⟨K, hK⟩ := execImage_file soloVm_created.sound (r := 259) (by decide) hacq hcreate
  exact ⟨r, K, hacq, hK⟩

/-! ## The call, case by case -/

/-- A failed `pmap_create` writes nothing. -/
lemma pmapCreate_failed_mem (h : (pmapCreate v).1 = 0) : (pmapCreate v).2.mem = v.mem := by
  unfold pmapCreate at h ⊢
  by_cases hfail : allocFailed (pmmAllocPage v.pmm).1 = true
  · rw [if_pos hfail]
  · rw [if_neg hfail] at h
    refine absurd ?_ hfail
    rw [allocFailed, decide_eq_true_eq]
    exact .inl h

/-- `copyin` reads nothing without an address space. -/
lemma copyin_zero (v : Vm) (ua n : ℕ) : copyin v 0 ua (n + 1) = none := by
  unfold copyin
  split_ifs <;> rfl

/-- **After the old address space is gone**: the call enters the program if the loader can load it,
and otherwise returns to a task with a new PML4. -/
lemma execLoad_cases {r g : ℕ} (h : Sound v R) (hr : r ∈ R) (hg : g ∈ R.erase r) (ptr : ImagePtr)
    {path : List (BitVec 8)} {kargv kenvp : List (List (BitVec 8))}
    (hfit : argsFit (some path) kargv kenvp) (t : TaskVm) {v2 : Vm}
    (hv2 : v2 = pmapDestroyUserSpace v (r * pageSize)) :
    ((ptr.image v2).ok = true ∧ mapsAll (g * pageSize) (neededPages (ptr.image v2).segments) v2 = true ∧
        ∃ entry sp t' v', execLoad ptr path kargv kenvp (g * pageSize) t v2 = (.enter entry sp, t', v')) ∨
      (¬ ((ptr.image v2).ok = true ∧ mapsAll (g * pageSize) (neededPages (ptr.image v2).segments) v2 = true) ∧
        ∃ rc t' v', execLoad ptr path kargv kenvp (g * pageSize) t v2 = (.ret rc, t', v') ∧
          t'.vmMap = g * pageSize) := by
  have d : Sound v2 (R.erase r) := hv2 ▸ (pmapDestroyUserSpace_spec h hr).sound
  have hiff := loadsTo_iff d hg (ptr.image v2) (some path) kargv kenvp
  unfold execLoad
  rcases machLoadArgs_spec (ptr.image v2) (some path) kargv kenvp d hg with
    ⟨e, v', P, heq, -, -, -, hnot⟩ | ⟨p, segs, sp, v', P, heq, -, hentry, hload, -, -, -⟩
  · refine .inr ⟨fun hok => hnot (hiff.mpr ⟨hok.1, hfit, hok.2⟩), ?_⟩
    rw [heq]
    exact ⟨_, _, _, rfl, rfl⟩
  · obtain ⟨hok, -, hmaps⟩ := hiff.mp hload
    have hne : p.entry ≠ 0 := by
      intro h0
      rw [h0] at hentry
      exact absurd hentry (by decide)
    refine .inl ⟨hok, hmaps, ?_⟩
    rw [heq]
    dsimp only
    rw [if_neg hne]
    exact ⟨_, _, _, _, rfl⟩

/-- How a call can end: it returns early, with the task's memory as it was or not; it enters the new
program; or it returns to a task with another PML4. -/
lemma sysExecve_cases (lookup : List (BitVec 8) → Option ImageFile) (pathPtr argvPtr envpPtr : ℕ)
    (h : Sound v R) (ht : t.vmMap = 0 ∨ ∃ r ∈ R, t.vmMap = r * pageSize) :
    (∃ rc v', sysExecve lookup pathPtr argvPtr envpPtr t v = (.ret rc, t, v') ∧
        (SameUserMemory v v' t.vmMap ↔ ExecSafe lookup pathPtr t v)) ∨
      (ExecSafe lookup pathPtr t v ∧
        ∃ entry sp t' v', sysExecve lookup pathPtr argvPtr envpPtr t v = (.enter entry sp, t', v')) ∨
      (¬ ExecSafe lookup pathPtr t v ∧ ∃ rc t' v', sysExecve lookup pathPtr argvPtr envpPtr t v = (.ret rc, t', v') ∧
          t'.vmMap ≠ t.vmMap) := by
  unfold ExecSafe sysExecve
  cases hpath : copyin v t.vmMap pathPtr 128 with
  | none => exact .inl ⟨_, v, rfl, iff_of_true (.of_mem rfl _) trivial⟩
  | some bytes =>
    dsimp only
    have hmap : t.vmMap ≠ 0 := fun h0 => by
      rw [h0, copyin_zero] at hpath
      cases hpath
    obtain ⟨r, hr, htr⟩ := ht.resolve_left hmap
    cases hfile : lookup (bufferString bytes) with
    | none => exact .inl ⟨_, v, rfl, iff_of_true (.of_mem rfl _) trivial⟩
    | some file =>
      dsimp only
      rcases acquireImage_cases h file with ⟨e, w, heq, hsame⟩ | ⟨ptr, w, heq, a⟩
      · rw [heq]
        refine .inl ⟨e, w, rfl, ?_⟩
        rw [htr]
        exact (hsame r hr).trans (and_true _).symm.to_iff
      · rw [heq]
        dsimp only
        rw [if_neg hmap]
        by_cases hcreate : (pmapCreate w).1 = 0
        · rw [if_pos hcreate]
          refine .inl ⟨_, _, rfl, ?_⟩
          rw [htr, SameUserMemory.congr (ptr.free_mem _) , SameUserMemory.congr
            (pmapCreate_failed_mem hcreate), a.same_iff r hr]
          exact ⟨fun hap => ⟨hap, .inl hcreate⟩, fun hsafe => hsafe.1⟩
        rw [if_neg hcreate]
        obtain ⟨h0, -⟩ | ⟨g, hg, c⟩ := pmapCreate_spec a.sound
        · exact absurd h0 hcreate
        have hne : g ≠ r := fun heq => c.notMem (heq ▸ hr)
        have hap := a.apart r hr hcreate
        have hcases := execLoad_cases c.sound (Finset.mem_insert_of_mem hr)
          (Finset.mem_erase.mpr ⟨hne, Finset.mem_insert_self g R⟩) ptr
          (exec_argsFit v t.vmMap argvPtr envpPtr bytes) t rfl
        rw [← htr] at hcases hap
        rw [hg] at hcreate ⊢
        rcases hcases with ⟨hok, hmaps, hrun⟩ | ⟨hnot, rc, t', v', hrun, hvm⟩
        · exact .inr (.inl ⟨⟨hap, .inr ⟨hok, hmaps⟩⟩, hrun⟩)
        · refine .inr (.inr ⟨fun hsafe => hnot (hsafe.2.resolve_left hcreate), rc, t', v', hrun, ?_⟩)
          rw [hvm, htr]
          exact fun heq' => hne (Nat.eq_of_mul_eq_mul_right (by decide) heq')

end Chimera
