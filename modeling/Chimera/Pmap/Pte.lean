import Chimera.Pmm.Model

/-!
# Page-table entries

An entry of an x86-64 page table is a 64-bit word: flag bits, and a frame number in bits 12 to 51.
The bit tests `e & PAGE_X` of `pmap.c` are the bits themselves (`getLsbD`). Each way in which
`pmap.c` builds an entry gets its flags and its frame as simp lemmas, so that no proof above looks
at bits.
-/

namespace Chimera

/-- `PAGE_PRESENT`. -/
def pagePresent : BitVec 64 := 0x1#64
/-- `PAGE_WRITE`. -/
def pageWrite : BitVec 64 := 0x2#64
/-- `PAGE_USER`. -/
def pageUser : BitVec 64 := 0x4#64
/-- `PAGE_COW`. -/
def pageCow : BitVec 64 := 0x200#64
/-- `PAGE_NX`. -/
def pageNx : BitVec 64 := 0x8000000000000000#64
/-- `PTE_PHYS_MASK`. -/
def ptePhysMask : BitVec 64 := 0x000FFFFFFFFFF000#64

/-- `e & PAGE_PRESENT`. -/
def present (e : BitVec 64) : Bool := e.getLsbD 0
/-- `e & PAGE_WRITE`. -/
def write (e : BitVec 64) : Bool := e.getLsbD 1
/-- `e & PAGE_USER`. -/
def user (e : BitVec 64) : Bool := e.getLsbD 2
/-- `e & (1ULL << 7)`: the entry maps a large page. -/
def large (e : BitVec 64) : Bool := e.getLsbD 7
/-- `e & PAGE_COW`. -/
def cow (e : BitVec 64) : Bool := e.getLsbD 9

/-- `e & PTE_PHYS_MASK`, a physical address. -/
def ptePhys (e : BitVec 64) : ℕ := (e &&& ptePhysMask).toNat

/-- The frame an entry names. -/
def pteFrame (e : BitVec 64) : ℕ := ptePhys e / pageSize

/-- The frame of a physical address, as `get_table_ptr` reads it. -/
def frameOf (phys : ℕ) : ℕ := pteFrame (BitVec.ofNat 64 phys)

/-- An entry for a table: `(phys & PTE_PHYS_MASK) | PAGE_PRESENT | PAGE_WRITE | PAGE_USER`. -/
def tableEntry (phys : ℕ) : BitVec 64 :=
  (BitVec.ofNat 64 phys &&& ptePhysMask) ||| pagePresent ||| pageWrite ||| pageUser

/-- A leaf: `(paddr & PTE_PHYS_MASK) | flags | PAGE_PRESENT | PAGE_USER`. -/
def leafEntry (paddr : ℕ) (flags : BitVec 64) : BitVec 64 :=
  (BitVec.ofNat 64 paddr &&& ptePhysMask) ||| flags ||| pagePresent ||| pageUser

/-- A writable entry downgraded for sharing: `(e & ~PAGE_WRITE) | PAGE_COW`. -/
def cowMark (e : BitVec 64) : BitVec 64 := (e &&& ~~~pageWrite) ||| pageCow

/-- A copy-on-write entry moved to its own frame. -/
def cowMove (newPhys : ℕ) (e : BitVec 64) : BitVec 64 :=
  ((BitVec.ofNat 64 newPhys &&& ptePhysMask) ||| (e &&& ~~~ptePhysMask) ||| pageWrite) &&&
    ~~~pageCow

/-- A copy-on-write entry whose frame nobody else holds: `(e | PAGE_WRITE) & ~PAGE_COW`. -/
def cowReuse (e : BitVec 64) : BitVec 64 := (e ||| pageWrite) &&& ~~~pageCow

/-- The entry `pmap_protect_user_range` writes for a protection. -/
def protectEntry (e : BitVec 64) (prot : ℕ) : BitVec 64 :=
  let f₁ := pagePresent ||| pageUser
  let f₂ := if prot &&& 2 ≠ 0 then f₁ ||| pageWrite else f₁
  let f₃ := if prot &&& 4 = 0 then f₂ ||| pageNx else f₂
  let f₄ := if prot = 0 then f₃ &&& ~~~pagePresent else f₃
  (e &&& ptePhysMask) ||| f₄

/-! ## Frames -/

lemma pteFrame_eq (e : BitVec 64) : pteFrame e = e.toNat / 2 ^ 12 % 2 ^ 40 := by
  have hmask : ptePhysMask.toNat = (2 ^ 40 - 1) <<< 12 := by decide
  unfold pteFrame ptePhys
  rw [BitVec.toNat_and, hmask, show pageSize = 2 ^ 12 from rfl, ← Nat.shiftRight_eq_div_pow,
    Nat.shiftRight_and_distrib, Nat.shiftLeft_shiftRight, Nat.and_two_pow_sub_one_eq_mod,
    Nat.shiftRight_eq_div_pow]

lemma pteFrame_lt (e : BitVec 64) : pteFrame e < 2 ^ 40 := by
  rw [pteFrame_eq]
  exact Nat.mod_lt _ (by decide)

lemma frameOf_mul {f : ℕ} (hf : f < 2 ^ 40) : frameOf (f * pageSize) = f := by
  unfold frameOf pageSize
  rw [pteFrame_eq, BitVec.toNat_ofNat]
  omega

/-- The physical address in an entry is the start of its frame. -/
lemma ptePhys_eq (e : BitVec 64) : ptePhys e = pteFrame e * pageSize := by
  have hmask : ptePhysMask.toNat = (2 ^ 40 - 1) <<< 12 := by decide
  have hdvd : 2 ^ 12 ∣ ptePhys e := by
    refine Nat.dvd_of_mod_eq_zero ?_
    unfold ptePhys
    rw [BitVec.toNat_and, hmask, ← Nat.and_two_pow_sub_one_eq_mod, Nat.and_assoc]
    have hzero : (2 ^ 40 - 1) <<< 12 &&& (2 ^ 12 - 1) = 0 := by decide
    rw [hzero, Nat.and_zero]
  exact (Nat.div_mul_cancel hdvd).symm

/-- Two words that agree under the mask name the same frame. -/
lemma pteFrame_congr {x y : BitVec 64} (h : x &&& ptePhysMask = y &&& ptePhysMask) : pteFrame x = pteFrame y := by
  unfold pteFrame ptePhys
  rw [h]

lemma pteFrame_or (x : BitVec 64) {y : BitVec 64} (hy : y &&& ptePhysMask = 0#64) :
    pteFrame (x ||| y) = pteFrame x := by
  refine pteFrame_congr ?_
  ext i hi
  have hbit := congrArg (fun w => w.getLsbD i) hy
  simp only [BitVec.getLsbD_and, BitVec.getLsbD_zero] at hbit
  simp only [← BitVec.getLsbD_eq_getElem, BitVec.getLsbD_and, BitVec.getLsbD_or, Bool.and_or_distrib_right,
    hbit, Bool.or_false]

lemma pteFrame_and (x : BitVec 64) {y : BitVec 64} (hy : y &&& ptePhysMask = ptePhysMask) :
    pteFrame (x &&& y) = pteFrame x := by
  refine pteFrame_congr ?_
  rw [BitVec.and_assoc, hy]

@[simp] lemma pteFrame_tableEntry (phys : ℕ) : pteFrame (tableEntry phys) = frameOf phys := by
  unfold tableEntry
  rw [pteFrame_or _ (by decide), pteFrame_or _ (by decide), pteFrame_or _ (by decide), pteFrame_and _ (by decide)]
  rfl

lemma pteFrame_leafEntry (paddr : ℕ) {flags : BitVec 64} (hf : flags &&& ptePhysMask = 0#64) :
    pteFrame (leafEntry paddr flags) = frameOf paddr := by
  unfold leafEntry
  rw [pteFrame_or _ (by decide), pteFrame_or _ (by decide), pteFrame_or _ hf, pteFrame_and _ (by decide)]
  rfl

@[simp] lemma pteFrame_cowMark (e : BitVec 64) : pteFrame (cowMark e) = pteFrame e := by
  unfold cowMark
  rw [pteFrame_or _ (by decide), pteFrame_and _ (by decide)]

@[simp] lemma pteFrame_cowReuse (e : BitVec 64) : pteFrame (cowReuse e) = pteFrame e := by
  unfold cowReuse
  rw [pteFrame_and _ (by decide), pteFrame_or _ (by decide)]

@[simp] lemma pteFrame_cowMove (newPhys : ℕ) (e : BitVec 64) : pteFrame (cowMove newPhys e) = frameOf newPhys := by
  have hflags : (e &&& ~~~ptePhysMask) &&& ptePhysMask = 0#64 := by
    rw [BitVec.and_assoc]
    have hzero : ~~~ptePhysMask &&& ptePhysMask = 0#64 := by decide
    rw [hzero]
    exact BitVec.and_zero
  unfold cowMove
  rw [pteFrame_and _ (by decide), pteFrame_or _ (by decide), pteFrame_or _ hflags, pteFrame_and _ (by decide)]
  rfl

@[simp] lemma pteFrame_protectEntry (e : BitVec 64) (prot : ℕ) : pteFrame (protectEntry e prot) = pteFrame e := by
  unfold protectEntry
  split_ifs <;> rw [pteFrame_or _ (by decide), pteFrame_and _ (by decide)]

/-! ## Flags -/

section flags

variable (phys : ℕ) (flags e : BitVec 64) (prot : ℕ)

@[simp] lemma present_zero : present 0#64 = false := by decide

@[simp] lemma present_tableEntry : present (tableEntry phys) = true := by
  simp [present, tableEntry, pagePresent, pageWrite, pageUser, ptePhysMask]

@[simp] lemma user_tableEntry : user (tableEntry phys) = true := by
  simp [user, tableEntry, pagePresent, pageWrite, pageUser, ptePhysMask]

@[simp] lemma large_tableEntry : large (tableEntry phys) = false := by
  simp [large, tableEntry, pagePresent, pageWrite, pageUser, ptePhysMask]

@[simp] lemma present_leafEntry : present (leafEntry phys flags) = true := by
  simp [present, leafEntry, pagePresent, pageUser, ptePhysMask]

@[simp] lemma user_leafEntry : user (leafEntry phys flags) = true := by
  simp [user, leafEntry, pagePresent, pageUser, ptePhysMask]

@[simp] lemma write_leafEntry : write (leafEntry phys flags) = write flags := by
  simp [write, leafEntry, pagePresent, pageUser, ptePhysMask]

@[simp] lemma cow_leafEntry : cow (leafEntry phys flags) = cow flags := by
  simp [cow, leafEntry, pagePresent, pageUser, ptePhysMask]

@[simp] lemma present_cowMark : present (cowMark e) = present e := by simp [present, cowMark, pageWrite, pageCow]

@[simp] lemma user_cowMark : user (cowMark e) = user e := by simp [user, cowMark, pageWrite, pageCow]

@[simp] lemma write_cowMark : write (cowMark e) = false := by simp [write, cowMark, pageWrite, pageCow]

@[simp] lemma present_cowReuse : present (cowReuse e) = present e := by simp [present, cowReuse, pageWrite, pageCow]

@[simp] lemma user_cowReuse : user (cowReuse e) = user e := by simp [user, cowReuse, pageWrite, pageCow]

@[simp] lemma write_cowReuse : write (cowReuse e) = true := by simp [write, cowReuse, pageWrite, pageCow]

@[simp] lemma cow_cowReuse : cow (cowReuse e) = false := by simp [cow, cowReuse, pageWrite, pageCow]

@[simp] lemma present_cowMove : present (cowMove phys e) = present e := by
  simp [present, cowMove, pageWrite, pageCow, ptePhysMask]

@[simp] lemma user_cowMove : user (cowMove phys e) = user e := by
  simp [user, cowMove, pageWrite, pageCow, ptePhysMask]

@[simp] lemma write_cowMove : write (cowMove phys e) = true := by
  simp [write, cowMove, pageWrite, pageCow, ptePhysMask]

@[simp] lemma cow_cowMove : cow (cowMove phys e) = false := by simp [cow, cowMove, pageWrite, pageCow, ptePhysMask]

lemma present_protectEntry : present (protectEntry e prot) = decide (prot ≠ 0) := by
  unfold protectEntry
  split_ifs <;> simp_all [present, pagePresent, pageUser, pageWrite, pageNx, ptePhysMask]

lemma write_protectEntry : write (protectEntry e prot) = decide (prot &&& 2 ≠ 0) := by
  unfold protectEntry
  split_ifs <;> simp_all [write, pagePresent, pageUser, pageWrite, pageNx, ptePhysMask]

end flags

/-! ## Links between tables -/

/-- The table an upper-level entry links to: none if it is absent or maps a large page. -/
def childTable (e : BitVec 64) : Option ℕ := if present e ∧ ¬ large e then some (pteFrame e) else none

@[simp] lemma childTable_zero : childTable 0#64 = none := by decide

@[simp] lemma childTable_tableEntry (phys : ℕ) : childTable (tableEntry phys) = some (frameOf phys) := by
  simp [childTable]

end Chimera
