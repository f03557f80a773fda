import Chimera.Pmap.Accounting

/-!
# Copies between the kernel and user memory

`copyin` and `copyinstr` read user memory through `pmap_extract`, a page at a time; `copyout` writes
it through the entries themselves, and on its way grows the stack and breaks copy-on-write. What
they should do is said byte by byte, without pages: user code reaches address `va` at a physical
address by the processor's own walk (`UserMaps`), the bytes read are the ones found there
(`HoldsAt`), and each byte written goes to a page that is writable and not copy-on-write when it is
written (`CopiedOut`).

The two reads are right for every page table (`copyin_holds`, `copyinstr_holds`). `copyout` tests an
entry for `PRESENT` and `WRITE` only, so it relies on what the rest of `pmap.c` keeps: the tables are
sound, and no writable entry is also marked copy-on-write (`copyout_copied`).
-/

namespace Chimera

open Lib

/-! ## `pmap_extract`, `copyin` and `copyinstr` -/

/-- The physical address behind a user address, `0` if there is none. The masks of a sum do not
overlap, so that `|` is `+`.
Source: `pmap_extract` -/
def pmapExtract (v : Vm) (pml4Phys vaddr : ℕ) : ℕ :=
  if pml4Phys = 0 ∨ vaddr < 0x1000 ∨ vaddr ≥ userEnd then 0
  else
    let pml4e := v.mem (frameOf pml4Phys) (vaIndex 4 vaddr)
    if ¬ present pml4e ∨ ¬ user pml4e then 0
    else
      let pdpte := v.mem (pteFrame pml4e) (vaIndex 3 vaddr)
      if ¬ present pdpte ∨ ¬ user pdpte then 0
      else if large pdpte then pteFrame pdpte / 2 ^ 18 * 2 ^ 30 + vaddr % 2 ^ 30
      else
        let pde := v.mem (pteFrame pdpte) (vaIndex 2 vaddr)
        if ¬ present pde ∨ ¬ user pde then 0
        else if large pde then pteFrame pde / 2 ^ 9 * 2 ^ 21 + vaddr % 2 ^ 21
        else
          let pte := v.mem (pteFrame pde) (vaIndex 1 vaddr)
          if ¬ present pte ∨ ¬ user pte then 0
          else ptePhys pte + vaddr % 2 ^ 12

/-- The byte at an offset in a frame. -/
def frameByte (v : Vm) (f off : ℕ) : BitVec 8 := getByte (v.mem f (off / 8)) (off % 8)

/-- Bytes one after the other in a frame. -/
def readBytes (v : Vm) (f : ℕ) : ℕ → ℕ → List (BitVec 8)
  | _, 0 => []
  | off, n + 1 => frameByte v f off :: readBytes v f (off + 1) n

/-- The loop of `copyin`; each round copies at least one byte, so as many rounds as there are bytes
suffice. -/
def copyinLoop (v : Vm) (pml4Phys : ℕ) : ℕ → ℕ → ℕ → Option (List (BitVec 8))
  | _, _, 0 => some []
  | 0, _, _ + 1 => none
  | n + 1, currUaddr, remaining =>
      let phys := pmapExtract v pml4Phys currUaddr
      if phys = 0 then none
      else
        let pageOffset := currUaddr % pageSize
        let chunk := min (pageSize - pageOffset) remaining
        (copyinLoop v pml4Phys n (currUaddr + chunk) (remaining - chunk)).map
          (readBytes v (phys / pageSize) pageOffset chunk ++ ·)

/-- Copy `len` bytes of user memory of the address space the processor runs on; `none` is
`CHIMERA_ERR_INVALID`.
Source: `copyin` -/
def copyin (v : Vm) (pml4Phys uaddr len : ℕ) : Option (List (BitVec 8)) :=
  if uaddr = 0 ∨ len = 0 then none
  else if uaddr < 0x1000 ∨ len > userStackMax - 0x1000 ∨ uaddr > userStackMax - len then none
  else copyinLoop v pml4Phys len uaddr len

/-- How `copyinstr` ends, with the bytes it has written to the kernel buffer. -/
inductive CopyinstrResult where
  /-- `CHIMERA_SUCCESS`. -/
  | success (bytes : List (BitVec 8))
  /-- `CHIMERA_ERR_INVALID`. -/
  | invalid
  /-- `CHIMERA_ERR_RANGE`. -/
  | range (bytes : List (BitVec 8))
  deriving DecidableEq, Repr

/-- The result of a copy that has written `bs` already. -/
def CopyinstrResult.after (bs : List (BitVec 8)) : CopyinstrResult → CopyinstrResult
  | .success l => .success (bs ++ l)
  | .invalid => .invalid
  | .range l => .range (bs ++ l)

/-- The inner loop of `copyinstr`, over the rest of a page and of the buffer: the bytes copied, and
whether the last one is the terminator. -/
def copyinstrPage (v : Vm) (f : ℕ) : ℕ → ℕ → ℕ → List (BitVec 8) × Bool
  | _, 0, _ => ([], false)
  | _, _ + 1, 0 => ([], false)
  | off, pageRemain + 1, room + 1 =>
      let c := frameByte v f off
      if c = 0 then ([c], true)
      else
        let r := copyinstrPage v f (off + 1) pageRemain room
        (c :: r.1, r.2)

/-- The outer loop of `copyinstr`; each round copies at least one byte. -/
def copyinstrLoop (v : Vm) (pml4Phys : ℕ) : ℕ → ℕ → ℕ → CopyinstrResult
  | _, _, 0 => .range []
  | 0, _, _ + 1 => .invalid
  | n + 1, currUaddr, room =>
      if currUaddr ≥ userStackMax then .invalid
      else
        let phys := pmapExtract v pml4Phys currUaddr
        if phys = 0 then .invalid
        else
          let pageOffset := currUaddr % pageSize
          let r := copyinstrPage v (phys / pageSize) pageOffset (pageSize - pageOffset) room
          if r.2 then .success r.1
          else (copyinstrLoop v pml4Phys n (currUaddr + r.1.length) (room - r.1.length)).after r.1

/-- Copy a string of user memory into a buffer of `maxlen` bytes.
Source: `copyinstr` -/
def copyinstr (v : Vm) (pml4Phys uaddr maxlen : ℕ) : CopyinstrResult :=
  if uaddr = 0 ∨ maxlen = 0 then .invalid
  else if uaddr < 0x1000 ∨ uaddr ≥ userStackMax then .invalid
  else copyinstrLoop v pml4Phys maxlen uaddr maxlen

/-! ## What user code reaches -/

/-- An entry user code may go through. -/
def userEntry (e : BitVec 64) : Prop := present e ∧ user e

/-- **The processor's walk for user code**: address `va` is at the physical address given, in a page
of 1 GiB, 2 MiB or 4 KiB. -/
inductive UserMaps (v : Vm) (pml4Phys va : ℕ) : ℕ → Prop
  | huge {pml4e pdpte : BitVec 64} (h4 : v.mem (frameOf pml4Phys) (vaIndex 4 va) = pml4e)
      (h3 : v.mem (pteFrame pml4e) (vaIndex 3 va) = pdpte) (u4 : userEntry pml4e)
      (u3 : userEntry pdpte) (l3 : large pdpte) :
      UserMaps v pml4Phys va (pteFrame pdpte / 2 ^ 18 * 2 ^ 30 + va % 2 ^ 30)
  | big {pml4e pdpte pde : BitVec 64} (h4 : v.mem (frameOf pml4Phys) (vaIndex 4 va) = pml4e)
      (h3 : v.mem (pteFrame pml4e) (vaIndex 3 va) = pdpte)
      (h2 : v.mem (pteFrame pdpte) (vaIndex 2 va) = pde) (u4 : userEntry pml4e)
      (u3 : userEntry pdpte) (u2 : userEntry pde) (l3 : ¬ large pdpte) (l2 : large pde) :
      UserMaps v pml4Phys va (pteFrame pde / 2 ^ 9 * 2 ^ 21 + va % 2 ^ 21)
  | small {pml4e pdpte pde pte : BitVec 64} (h4 : v.mem (frameOf pml4Phys) (vaIndex 4 va) = pml4e)
      (h3 : v.mem (pteFrame pml4e) (vaIndex 3 va) = pdpte)
      (h2 : v.mem (pteFrame pdpte) (vaIndex 2 va) = pde)
      (h1 : v.mem (pteFrame pde) (vaIndex 1 va) = pte) (u4 : userEntry pml4e)
      (u3 : userEntry pdpte) (u2 : userEntry pde) (u1 : userEntry pte) (l3 : ¬ large pdpte)
      (l2 : ¬ large pde) : UserMaps v pml4Phys va (pteFrame pte * pageSize + va % pageSize)

/-- The addresses user memory may have, `USER_SPACE_MIN` to `USER_SPACE_MAX`. -/
def inUserSpace (va : ℕ) : Prop := 0x1000 ≤ va ∧ va ≤ userStackMax

/-- The bytes that user code finds at `va`, `va + 1`, …, each translated on its own. -/
def HoldsAt (v : Vm) (pml4Phys : ℕ) : ℕ → List (BitVec 8) → Prop
  | _, [] => True
  | va, b :: bs =>
      (inUserSpace va ∧ ∃ phys, UserMaps v pml4Phys va phys ∧
        b = frameByte v (phys / pageSize) (phys % pageSize)) ∧ HoldsAt v pml4Phys (va + 1) bs

section reads

variable {v : Vm} {p : ℕ} {ua va : ℕ} {bs : List (BitVec 8)}

lemma vaIndex_congr {k va' : ℕ} (h : va' / pageSize = va / pageSize) : vaIndex k va' = vaIndex k va := by
  unfold vaIndex
  rw [pow_add, ← Nat.div_div_eq_div_mul, ← Nat.div_div_eq_div_mul, show 2 ^ 12 = pageSize from rfl, h]

/-- **Addresses of one page are in one frame**, at their own offsets. -/
lemma UserMaps.same_page {va' phys : ℕ} (h : UserMaps v p va phys) (hva : va' / pageSize = va / pageSize) :
    UserMaps v p va' (phys / pageSize * pageSize + va' % pageSize) := by
  have hidx : ∀ k, vaIndex k va = vaIndex k va' := fun k => vaIndex_congr hva.symm
  have hdiv : va' / 4096 = va / 4096 := hva
  cases h with
  | @huge _ pdpte h4 h3 u4 u3 l3 =>
    rw [hidx] at h4 h3
    have hphys := UserMaps.huge h4 h3 u4 u3 l3
    have heq : (pteFrame pdpte / 2 ^ 18 * 2 ^ 30 + va % 2 ^ 30) / pageSize * pageSize + va' % pageSize =
        pteFrame pdpte / 2 ^ 18 * 2 ^ 30 + va' % 2 ^ 30 := by
      simp only [pageSize]
      omega
    rwa [heq]
  | @big _ _ pde h4 h3 h2 u4 u3 u2 l3 l2 =>
    rw [hidx] at h4 h3 h2
    have hphys := UserMaps.big h4 h3 h2 u4 u3 u2 l3 l2
    have heq : (pteFrame pde / 2 ^ 9 * 2 ^ 21 + va % 2 ^ 21) / pageSize * pageSize + va' % pageSize =
        pteFrame pde / 2 ^ 9 * 2 ^ 21 + va' % 2 ^ 21 := by
      simp only [pageSize]
      omega
    rwa [heq]
  | @small _ _ _ pte h4 h3 h2 h1 u4 u3 u2 u1 l3 l2 =>
    rw [hidx] at h4 h3 h2 h1
    have hphys := UserMaps.small h4 h3 h2 h1 u4 u3 u2 u1 l3 l2
    have heq : (pteFrame pte * pageSize + va % pageSize) / pageSize * pageSize + va' % pageSize =
        pteFrame pte * pageSize + va' % pageSize := by
      simp only [pageSize]
      omega
    rwa [heq]

/-- **`pmap_extract` finds what user code reaches.** -/
lemma pmapExtract_maps (h : pmapExtract v p va ≠ 0) :
    0x1000 ≤ va ∧ va < userEnd ∧ UserMaps v p va (pmapExtract v p va) := by
  unfold pmapExtract at h ⊢
  by_cases hr : p = 0 ∨ va < 0x1000 ∨ va ≥ userEnd
  · rw [if_pos hr] at h
    exact absurd rfl h
  rw [if_neg hr] at h ⊢
  refine ⟨by omega, by omega, ?_⟩
  dsimp only at h ⊢
  have hentry : ∀ {e : BitVec 64}, ¬ (¬ present e ∨ ¬ user e) → userEntry e := by
    intro e he
    push Not at he
    exact he
  split_ifs at h ⊢ with h4 h3 l3 h2 l2 h1
  · exact absurd rfl h
  · exact absurd rfl h
  · exact .huge rfl rfl (hentry h4) (hentry h3) l3
  · exact absurd rfl h
  · exact .big rfl rfl rfl (hentry h4) (hentry h3) (hentry h2) l3 l2
  · exact absurd rfl h
  · rw [ptePhys_eq]
    exact .small rfl rfl rfl rfl (hentry h4) (hentry h3) (hentry h2) (hentry h1) l3 l2

lemma HoldsAt.append {cs : List (BitVec 8)} (h : HoldsAt v p va bs) (h' : HoldsAt v p (va + bs.length) cs)
    : HoldsAt v p va (bs ++ cs) := by
  induction bs generalizing va with
  | nil => exact h'
  | cons b bs ih =>
    refine ⟨h.1, ih h.2 ?_⟩
    rwa [List.length_cons, Nat.add_comm bs.length 1, ← Nat.add_assoc] at h'

@[simp] lemma length_readBytes (f off n : ℕ) : (readBytes v f off n).length = n := by
  induction n generalizing off with
  | zero => rfl
  | succ n ih => rw [readBytes, List.length_cons, ih]

/-- **The bytes of one page**, from the frame the walk for one of its addresses gives. -/
lemma holdsAt_readBytes {phys : ℕ} (hlo : 0x1000 ≤ ua) (hhi : ua < userEnd) (h : UserMaps v p ua phys) (n : ℕ)
    (hn : ua % pageSize + n ≤ pageSize) :
    HoldsAt v p ua (readBytes v (phys / pageSize) (ua % pageSize) n) := by
  -- over the offsets in the page, so that the induction can move on by one byte
  have hoff : ∀ off, off + n ≤ pageSize → 0x1000 ≤ ua / pageSize * pageSize + off →
      HoldsAt v p (ua / pageSize * pageSize + off) (readBytes v (phys / pageSize) off n) := by
    clear hn
    induction n with
    | zero => exact fun _ _ _ => trivial
    | succ n ih =>
      intro off hle hge
      have hrest := ih (off + 1) (by omega) (by omega)
      rw [← Nat.add_assoc] at hrest
      refine ⟨⟨⟨hge, ?_⟩, _, h.same_page ?_, ?_⟩, hrest⟩
      · simp only [userStackMax, userEnd, pageSize] at *
        omega
      · simp only [pageSize] at *
        omega
      · have hlt : off < pageSize := by omega
        rw [Nat.mul_add_mod', Nat.mod_eq_of_lt hlt, Nat.mul_add_mod', Nat.mod_eq_of_lt hlt,
          Nat.add_comm, Nat.add_mul_div_right _ _ (by decide), Nat.div_eq_of_lt hlt, Nat.zero_add]
  have hua : ua / pageSize * pageSize + ua % pageSize = ua := Nat.div_add_mod' ua pageSize
  have hres := hoff (ua % pageSize) hn (by rwa [hua])
  rwa [hua] at hres

/-- **The loop of `copyin`** returns the bytes of user memory. -/
lemma copyinLoop_holds {n len : ℕ} (h : copyinLoop v p n ua len = some bs) : bs.length = len ∧ HoldsAt v p ua bs := by
  induction n generalizing ua len bs with
  | zero =>
    cases len with
    | zero =>
      cases h
      exact ⟨rfl, trivial⟩
    | succ len => cases h
  | succ n ih =>
    cases len with
    | zero =>
      cases h
      exact ⟨rfl, trivial⟩
    | succ len =>
      rw [copyinLoop] at h
      · by_cases hphys : pmapExtract v p ua = 0
        · rw [if_pos hphys] at h
          cases h
        rw [if_neg hphys] at h
        obtain ⟨rest, hrest, rfl⟩ := Option.map_eq_some_iff.mp h
        obtain ⟨hlen, hholds⟩ := ih hrest
        obtain ⟨hlo, hhi, hmaps⟩ := pmapExtract_maps hphys
        have hmod : ua % pageSize < pageSize := Nat.mod_lt _ (by decide)
        constructor
        · rw [List.length_append, length_readBytes, hlen]
          omega
        · apply (holdsAt_readBytes hlo hhi hmaps _ (by omega)).append
          rwa [length_readBytes]
      · exact fun h0 => absurd h0 (by omega)

/-- **`copyin`** returns the bytes of user memory, as many as asked for. -/
lemma copyin_holds {len : ℕ} (h : copyin v p ua len = some bs) : bs.length = len ∧ HoldsAt v p ua bs := by
  unfold copyin at h
  split_ifs at h
  exact copyinLoop_holds h

/-- The inner loop of `copyinstr` reads on to the first terminator, and no further. -/
lemma copyinstrPage_spec (f off pageRemain room : ℕ) {r : List (BitVec 8) × Bool}
    (hr : r = copyinstrPage v f off pageRemain room) :
    r.1 = readBytes v f off r.1.length ∧ r.1.length ≤ pageRemain ∧ r.1.length ≤ room ∧
      (r.2 = true → ∃ l, r.1 = l ++ [0] ∧ 0 ∉ l) ∧
      (r.2 = false → 0 ∉ r.1) := by
  induction pageRemain generalizing off room r with
  | zero =>
    obtain rfl := hr
    simp [copyinstrPage, readBytes]
  | succ pageRemain ih =>
    cases room with
    | zero =>
      obtain rfl := hr
      simp [copyinstrPage, readBytes]
    | succ room =>
      rw [copyinstrPage] at hr
      by_cases hc : frameByte v f off = 0
      · rw [if_pos hc, hc] at hr
        obtain rfl := hr
        refine ⟨by simp [readBytes, hc], by simp, by simp, fun _ => ⟨[], rfl, by simp⟩, ?_⟩
        exact fun h => by cases h
      · rw [if_neg hc] at hr
        obtain ⟨hbytes, hp, hroom, hfound, hnone⟩ := ih (off + 1) room rfl
        dsimp only at hr
        obtain rfl := hr
        have hne : (0 : BitVec 8) ≠ frameByte v f off := fun h => hc h.symm
        refine ⟨?_, Nat.succ_le_succ hp, Nat.succ_le_succ hroom, fun h => ?_, fun h => ?_⟩
        · rw [List.length_cons, readBytes, ← hbytes]
        · obtain ⟨l, hl, h0⟩ := hfound h
          refine ⟨frameByte v f off :: l, by rw [hl, List.cons_append], ?_⟩
          exact List.not_mem_cons_of_ne_of_not_mem hne h0
        · exact List.not_mem_cons_of_ne_of_not_mem hne (hnone h)

/-- **The loop of `copyinstr`** returns the bytes up to the first terminator. -/
lemma copyinstrLoop_holds {n room : ℕ} (h : copyinstrLoop v p n ua room = .success bs) :
    HoldsAt v p ua bs ∧ bs.length ≤ room ∧ ∃ l, bs = l ++ [0] ∧ 0 ∉ l := by
  induction n generalizing ua room bs with
  | zero => cases room <;> cases h
  | succ n ih =>
    cases room with
    | zero => cases h
    | succ room =>
      rw [copyinstrLoop] at h
      · dsimp only at h
        by_cases htop : ua ≥ userStackMax
        · rw [if_pos htop] at h
          cases h
        by_cases hphys : pmapExtract v p ua = 0
        · rw [if_neg htop, if_pos hphys] at h
          cases h
        rw [if_neg htop, if_neg hphys] at h
        obtain ⟨hlo, hhi, hmaps⟩ := pmapExtract_maps hphys
        obtain ⟨hbytes, hpage, hroom, hfound, hnone⟩ := copyinstrPage_spec
          (pmapExtract v p ua / pageSize) (ua % pageSize) (pageSize - ua % pageSize) (room + 1) rfl
        generalize copyinstrPage v (pmapExtract v p ua / pageSize) (ua % pageSize)
          (pageSize - ua % pageSize) (room + 1) = r at h hbytes hpage hroom hfound hnone
        have hmod : ua % pageSize < pageSize := Nat.mod_lt _ (by decide)
        have hr : HoldsAt v p ua r.1 := by
          rw [hbytes]
          exact holdsAt_readBytes hlo hhi hmaps _ (by omega)
        by_cases hnul : r.2 = true
        · rw [if_pos hnul] at h
          cases h
          exact ⟨hr, hroom, hfound hnul⟩
        · rw [if_neg hnul] at h
          cases hloop : copyinstrLoop v p n (ua + r.1.length) (room + 1 - r.1.length) with
          | invalid =>
            rw [hloop] at h
            cases h
          | range l =>
            rw [hloop] at h
            cases h
          | success rest =>
            rw [hloop] at h
            cases h
            obtain ⟨hrest, hle, l, hl, h0⟩ := ih hloop
            refine ⟨hr.append hrest, ?_, r.1 ++ l, ?_, ?_⟩
            · rw [List.length_append]
              omega
            · rw [hl, List.append_assoc]
            · rw [List.mem_append, not_or]
              exact ⟨hnone (Bool.eq_false_of_not_eq_true hnul), h0⟩
      · exact fun h0 => absurd h0 (by omega)

/-- **`copyinstr`** returns the bytes up to and including the first terminator. -/
lemma copyinstr_holds {maxlen : ℕ} (h : copyinstr v p ua maxlen = .success bs) :
    HoldsAt v p ua bs ∧ bs.length ≤ maxlen ∧ ∃ l, bs = l ++ [0] ∧ 0 ∉ l := by
  unfold copyinstr at h
  split_ifs at h
  exact copyinstrLoop_holds h

end reads

/-! ## What one page of `copyout` does -/

/-- From `v` to `v'`, `copyout` has looked for a frame behind the page of `ua` in address space `s` to
write to, with the result given: none, a fresh zeroed page of the stack, the frame of a writable
entry, or that of a copy-on-write entry which has been broken. -/
inductive PageFor (v v' : Vm) (R : Finset ℕ) (s ua : ℕ) : Option ℕ → Prop
  | refused (g : Grown v v' R) : PageFor v v' R s ua none
  | stack {g : ℕ} (hp : ¬ present (view v.mem s (vaSlot ua)))
      (hlo : userStackMin ≤ ua / pageSize * pageSize) (hhi : ua / pageSize * pageSize ≤ userStackMax)
      (m : Filled v v' R s (vaSlot ua) (leafEntry (g * pageSize) stackFlags) fun _ => 0#64) :
      PageFor v v' R s ua (some (pteFrame (leafEntry (g * pageSize) stackFlags)))
  | writable (hp : present (view v.mem s (vaSlot ua))) (hw : write (view v.mem s (vaSlot ua)))
      (heq : v' = v) : PageFor v v' R s ua (some (pteFrame (view v.mem s (vaSlot ua))))
  | reused (hp : present (view v.mem s (vaSlot ua))) (hw : ¬ write (view v.mem s (vaSlot ua)))
      (hc : cow (view v.mem s (vaSlot ua))) (hrc : rc v.pmm (pteFrame (view v.mem s (vaSlot ua))) ≤ 1)
      (w : Rewritten v v' R s (vaSlot ua) (cowReuse (view v.mem s (vaSlot ua)))) :
      PageFor v v' R s ua (some (pteFrame (view v.mem s (vaSlot ua))))
  | moved {g : ℕ} (hp : present (view v.mem s (vaSlot ua))) (hw : ¬ write (view v.mem s (vaSlot ua)))
      (hc : cow (view v.mem s (vaSlot ua))) (m : Moved v v' R s (vaSlot ua) g) :
      PageFor v v' R s ua (some g)

section writes

variable {v v' : Vm} {R : Finset ℕ} {s : ℕ}

lemma vaSlot_page (va : ℕ) : vaSlot (va / pageSize * pageSize) = vaSlot va := by
  simp only [vaSlot, vaIndex, pageSize, Prod.mk.injEq, Fin.ext_iff]
  omega

variable {f ua va : ℕ} {v₁ : Vm} {b : BitVec 8} {bs : List (BitVec 8)}

section

variable (h : Sound v R) (hs : s ∈ R)
include h hs

lemma Sound.readPte_eq (hva : va < userEnd) :
    readPte v (s * pageSize) va = view v.mem s (vaSlot va) := by
  rw [readPte, h.getPtePtr_eq hs hva, view]
  cases tableOf v.mem s (vaSlot va) <;> rfl

/-- The page `copyout` adds to a stack, mapped or given back. -/
lemma pageFor_stack (hp : ¬ present (view v.mem s (vaSlot ua)))
    (hlo : userStackMin ≤ ua / pageSize * pageSize) (hhi : ua / pageSize * pageSize ≤ userStackMax)
    {a : ℕ × Pmm} (ha : a = pmmAllocPage v.pmm) (hok : allocFailed a.1 = false) {m : ℕ × Vm}
    (hm : m = pmapMapUserPage ({ v with pmm := a.2 }.setFrame (a.1 / pageSize) fun _ => 0#64) (s * pageSize) (ua / pageSize * pageSize) a.1 stackFlags)
    :
    (m.1 = 0 → PageFor v (m.2.release a.1) R s ua none) ∧
      (m.1 ≠ 0 → PageFor v m.2 R s ua (some (a.1 / pageSize))) := by
  obtain ⟨hfail, -⟩ | ⟨g, hg, new⟩ := allocPage_cases h.inv
  · rw [ha, hfail] at hok
    cases hok
  have hdiv : a.1 / pageSize = g := by rw [ha, hg, Nat.mul_div_cancel g (by decide)]
  have ha1 : a.1 = g * pageSize := by rw [ha, hg]
  rw [hdiv, ha1] at hm
  rw [← ha] at new
  have hflags : stackFlags &&& ptePhysMask = 0#64 := by decide
  have hnew : ({ v with pmm := a.2 }.setFrame g fun _ => 0#64).mem g = fun _ => 0#64 := Function.update_self _ _ _
  have hspec := mapFresh_spec h ({ v with pmm := a.2 }.setFrame g fun _ => 0#64) hs new rfl
    (fun f hf => Function.update_of_ne hf _ _) (ua / pageSize * pageSize) hflags hm
  rw [vaSlot_page, hnew] at hspec
  rw [hdiv, ha1]
  rcases hspec with ⟨h0, gr⟩ | ⟨h1, -, f⟩
  · exact ⟨fun _ => .refused gr, fun hne => absurd h0 hne⟩
  · constructor
    · intro h0
      rw [h0] at h1
      exact absurd (Nat.mul_eq_zero.mp h1.symm) (by simp [new.ne_zero, pageSize])
    · intro _
      have r := PageFor.stack hp hlo hhi f
      rwa [pteFrame_leafEntry _ hflags, new.frame] at r

/-- A copy-on-write page that `copyout` breaks. -/
lemma pageFor_cow (hua : ua < userEnd) (hw : ¬ write (view v.mem s (vaSlot ua)))
    {c : Bool × Vm} (hc : c = pmapHandleCowFault v (s * pageSize) (ua / pageSize * pageSize)) :
    (c.1 = false → PageFor v c.2 R s ua none) ∧
      (c.1 = true → PageFor v c.2 R s ua (some (pteFrame (readPte c.2 (s * pageSize) ua))) ∧
        present (readPte c.2 (s * pageSize) ua) ∧ write (readPte c.2 (s * pageSize) ua)) := by
  have hspec := pmapHandleCowFault_spec h hs (ua / pageSize * pageSize)
  rw [← hc, vaSlot_page] at hspec
  rcases hspec with ⟨h0, g⟩ | ⟨h1, -, hp, hcow, ⟨hrc, w⟩ | ⟨-, g, m⟩⟩
  · exact ⟨fun _ => .refused g, fun h => by simp [h0] at h⟩
  · refine ⟨fun h => by simp [h1] at h, fun _ => ?_⟩
    rw [w.sound.readPte_eq hs hua, w.view_eq s hs, if_pos ⟨rfl, rfl⟩, pteFrame_cowReuse, present_cowReuse,
      write_cowReuse]
    exact ⟨.reused hp hw hcow hrc w, hp, rfl⟩
  · refine ⟨fun h => by simp [h1] at h, fun _ => ?_⟩
    rw [m.sound.readPte_eq hs hua, m.view_eq s hs, if_pos ⟨rfl, rfl⟩, m.frame_new, present_cowMove, write_cowMove]
    exact ⟨.moved hp hw hcow m, hp, rfl⟩

/-- **What one page of `copyout` does.** -/
theorem copyoutPage_spec (hua : ua < userEnd) :
    PageFor v (copyoutPage v (s * pageSize) ua).2 R s ua (copyoutPage v (s * pageSize) ua).1 := by
  have hskip : PageFor v v R s ua none := .refused (.refl h)
  unfold copyoutPage
  rw [h.readPte_eq hs hua]
  dsimp only
  by_cases hp : present (view v.mem s (vaSlot ua)) = true
  swap
  · rw [if_pos hp]
    split_ifs with hstack hfail hmap
    · obtain ⟨-, l⟩ | ⟨g, hg, new⟩ := allocPage_cases h.inv
      · exact .refused (grown_of_allocFailed h l)
      · rw [hg, new.ok] at hfail
        cases hfail
    · exact (pageFor_stack h hs hp hstack.1 hstack.2 rfl (Bool.eq_false_of_not_eq_true hfail) rfl).1 hmap
    · exact (pageFor_stack h hs hp hstack.1 hstack.2 rfl (Bool.eq_false_of_not_eq_true hfail) rfl).2 hmap
    · exact hskip
  rw [if_neg (not_not.mpr hp)]
  by_cases hw : write (view v.mem s (vaSlot ua)) = true
  · rw [if_neg (not_not.mpr hw)]
    exact .writable hp hw rfl
  rw [if_pos hw]
  by_cases hc : cow (view v.mem s (vaSlot ua)) = true
  swap
  · rw [if_neg hc]
    exact hskip
  rw [if_pos hc]
  obtain ⟨hfail, hok⟩ := pageFor_cow h hs hua hw rfl
  by_cases hbreak : (pmapHandleCowFault v (s * pageSize) (ua / pageSize * pageSize)).1 = true
  · obtain ⟨q, hp', hw'⟩ := hok hbreak
    rw [if_neg (not_not.mpr hbreak), if_neg (by simp [hp', hw'])]
    exact q
  · rw [if_pos hbreak]
    exact hfail (Bool.eq_false_of_not_eq_true hbreak)

end

/-! ## `copyout` byte by byte -/

/-- No writable entry of address space `s` is marked copy-on-write. -/
def NoWriteCow (v : Vm) (s : ℕ) : Prop :=
  ∀ x, present (view v.mem s x) → write (view v.mem s x) → ¬ cow (view v.mem s x)

/-- From `v` to `v'` the bytes have been stored at `ua`, `ua + 1`, … of address space `s`, one after
the other, each through a user entry that was writable and not copy-on-write at that moment. -/
inductive CopiedOut (R : Finset ℕ) (s : ℕ) : Vm → ℕ → List (BitVec 8) → Vm → Prop
  | nil {v : Vm} {ua : ℕ} : CopiedOut R s v ua [] v
  | cons {v v₁ v' : Vm} {ua f : ℕ} {b : BitVec 8} {bs : List (BitVec 8)} (hua : inUserSpace ua)
      (hpage : PageFor v v₁ R s ua (some f))
      (hmaps : UserMaps v₁ (s * pageSize) ua (f * pageSize + ua % pageSize))
      (hw : write (readPte v₁ (s * pageSize) ua)) (hc : ¬ cow (readPte v₁ (s * pageSize) ua))
      (hrest : CopiedOut R s (v₁.setByteAt f (ua % pageSize) b) (ua + 1) bs v') :
      CopiedOut R s v ua (b :: bs) v'

/-- The page of `ua` in address space `s` is open for writing, in frame `f`. -/
structure OpenPage (v : Vm) (R : Finset ℕ) (s ua f : ℕ) : Prop where
  sound : Sound v R
  root : s ∈ R
  present : present (view v.mem s (vaSlot ua))
  write : write (view v.mem s (vaSlot ua))
  cow : ¬ cow (view v.mem s (vaSlot ua))
  frame : pteFrame (view v.mem s (vaSlot ua)) = f

/-- **In sound tables user code reaches every present entry.** -/
lemma Sound.userMaps (h : Sound v R) (hs : s ∈ R) (hva : va < userEnd) (hp : present (view v.mem s (vaSlot va))) :
    UserMaps v (s * pageSize) va (pteFrame (view v.mem s (vaSlot va)) * pageSize + va % pageSize) := by
  have hpath := slotPath_vaSlot hva
  have hchild : ∀ {e : BitVec 64} {g : ℕ}, childTable e = some g → Chimera.present e ∧ g = pteFrame e := by
    intro e g he
    unfold childTable at he
    split_ifs at he with hc
    exact ⟨hc.1, (Option.some.inj he).symm⟩
  obtain ⟨pt, hpt, hview⟩ := table_of_present hp
  have hu1 : userEntry (view v.mem s (vaSlot va)) := ⟨hp, h.shape.leaf_user hs hp⟩
  rw [hview] at hu1 ⊢
  rw [tableOf, hpath] at hpt
  obtain ⟨f3, h3, hpt⟩ := Option.bind_eq_some_iff.mp hpt
  obtain ⟨f2, h2, hpt⟩ := Option.bind_eq_some_iff.mp hpt
  obtain ⟨f1, h1, hpt⟩ := Option.bind_eq_some_iff.mp hpt
  have hw1 : walk childTable v.mem s [vaIndex 4 va] = some f3 := by rw [walk_cons, h3, Option.bind_some, walk_nil]
  have hw2 : walk childTable v.mem s [vaIndex 4 va, vaIndex 3 va] = some f2 := by
    rw [walk_cons, h3, Option.bind_some, walk_cons, h2, Option.bind_some, walk_nil]
  obtain ⟨hp4, rfl⟩ := hchild h3
  obtain ⟨hp3, rfl⟩ := hchild h2
  obtain ⟨hp2, rfl⟩ := hchild h1
  cases hpt
  have hu4 := h.shape.upper hs (vaPath_mem hva ⟨_, rfl⟩) (walk_nil s) hp4
  have hu3 := h.shape.upper hs (vaPath_mem hva ⟨_, rfl⟩) hw1 hp3
  have hu2 := h.shape.upper hs (vaPath_mem hva ⟨_, rfl⟩) hw2 hp2
  exact .small (by rw [h.frameOf_root hs]) rfl rfl rfl ⟨hp4, hu4.1⟩ ⟨hp3, hu3.1⟩ ⟨hp2, hu2.1⟩ hu1
    hu3.2 hu2.2

/-- A page that has been found is open, unless it was writable and copy-on-write before. -/
lemma PageFor.open (q : PageFor v v' R s ua (some f)) (h : Sound v R) (hs : s ∈ R) (hcow : NoWriteCow v s)
    : OpenPage v' R s ua f ∧ NoWriteCow v' s := by
  generalize ho : some f = o at q
  -- one entry changes, to one that is not copy-on-write
  have hset : ∀ {e : BitVec 64}, (∀ y, view v'.mem s y = if s = s ∧ y = vaSlot ua then e else
      view v.mem s y) → Chimera.cow e = false → NoWriteCow v' s := by
    intro e hview he x hp hw
    rw [hview x] at hp hw ⊢
    split_ifs at hp hw ⊢
    · simp [he]
    · exact hcow x hp hw
  cases q with
  | refused g => cases ho
  | @stack g hp hlo hhi m =>
    have hview := m.view_eq s hs
    have hnew := hview (vaSlot ua)
    rw [if_pos ⟨rfl, rfl⟩] at hnew
    refine ⟨⟨m.sound, hs, ?_, ?_, ?_, ?_⟩, hset hview ?_⟩
    · rw [hnew, present_leafEntry]
    · rw [hnew, write_leafEntry]
      decide
    · rw [hnew, cow_leafEntry]
      decide
    · rw [hnew, Option.some.inj ho]
    · rw [cow_leafEntry]
      decide
  | writable hp hw heq =>
    subst heq
    exact ⟨⟨h, hs, hp, hw, hcow _ hp hw, (Option.some.inj ho).symm⟩, hcow⟩
  | reused hp hw hc hrc w =>
    have hview := w.view_eq s hs
    have hnew := hview (vaSlot ua)
    rw [if_pos ⟨rfl, rfl⟩] at hnew
    refine ⟨⟨w.sound, hs, ?_, ?_, ?_, ?_⟩, hset hview (cow_cowReuse _)⟩
    · rwa [hnew, present_cowReuse]
    · rw [hnew, write_cowReuse]
    · rw [hnew, cow_cowReuse]
      exact Bool.false_ne_true
    · rw [hnew, pteFrame_cowReuse, Option.some.inj ho]
  | @moved g hp hw hc m =>
    have hview := m.view_eq s hs
    have hnew := hview (vaSlot ua)
    rw [if_pos ⟨rfl, rfl⟩] at hnew
    refine ⟨⟨m.sound, hs, ?_, ?_, ?_, ?_⟩, hset hview (cow_cowMove _ _)⟩
    · rwa [hnew, present_cowMove]
    · rw [hnew, write_cowMove]
    · rw [hnew, cow_cowMove]
      exact Bool.false_ne_true
    · rw [hnew, m.frame_new, Option.some.inj ho]

/-- A store to an open page touches its frame only. -/
lemma OpenPage.touch (o : OpenPage v R s ua f) (off : ℕ) (b : BitVec 8) : Touched v (v.setByteAt f off b) R {f} := by
  apply o.sound.touch
  · rintro g rfl
    rw [← o.frame]
    exact o.sound.shape.leaf_frame o.root o.present
  · exact fun g hg => Function.update_of_ne hg _ _

lemma OpenPage.touched {ua' : ℕ} {F : Set ℕ} (o : OpenPage v R s ua f) (t : Touched v v' R F)
    (hpage : vaSlot ua' = vaSlot ua) : OpenPage v' R s ua' f := by
  have hview : view v'.mem s (vaSlot ua') = view v.mem s (vaSlot ua) := by rw [hpage, t.view_eq s o.root]
  refine ⟨t.sound, o.root, ?_, ?_, ?_, ?_⟩
  · rw [hview]
    exact o.present
  · rw [hview]
    exact o.write
  · rw [hview]
    exact o.cow
  · rw [hview]
    exact o.frame

lemma OpenPage.pageFor (o : OpenPage v R s ua f) : PageFor v v R s ua (some f) := by
  rw [← o.frame]
  exact .writable o.present o.write rfl

/-- **One byte** of a page that has been found. -/
lemma OpenPage.copiedOut (o : OpenPage v₁ R s ua f) (q : PageFor v v₁ R s ua (some f)) (hlo : 0x1000 ≤ ua)
    (hhi : ua < userEnd) (hrest : CopiedOut R s (v₁.setByteAt f (ua % pageSize) b) (ua + 1) bs v') :
    CopiedOut R s v ua (b :: bs) v' := by
  have hpte := o.sound.readPte_eq o.root hhi
  refine .cons ⟨hlo, ?_⟩ q ?_ ?_ ?_ hrest
  · simp only [userStackMax, userEnd] at hhi ⊢
    omega
  · rw [← o.frame]
    exact o.sound.userMaps o.root hhi o.present
  · rw [hpte]
    exact o.write
  · rw [hpte]
    exact o.cow

lemma vaSlot_congr {va' : ℕ} (h : va' / pageSize = va / pageSize) : vaSlot va' = vaSlot va := by
  rw [← vaSlot_page va', h, vaSlot_page]

/-- **The bytes of one page** that has been found. -/
lemma OpenPage.copiedOut_page (o : OpenPage v₁ R s ua f) (q : PageFor v v₁ R s ua (some f)) (hlo : 0x1000 ≤ ua)
    (hend : ua + (b :: bs).length ≤ userEnd) (hpage : ua % pageSize + (b :: bs).length ≤ pageSize) :
    CopiedOut R s v ua (b :: bs) (v₁.setBytesAt f (ua % pageSize) (b :: bs)) := by
  induction bs generalizing v v₁ ua b with
  | nil =>
    rw [List.length_singleton] at hend
    exact o.copiedOut q hlo (by omega) .nil
  | cons b' bs ih =>
    rw [List.length_cons, List.length_cons] at hend hpage
    apply o.copiedOut q hlo (by omega)
    -- the next byte is in the same page, which stays open
    have hdiv : (ua + 1) / pageSize = ua / pageSize := by
      simp only [pageSize] at hpage ⊢
      omega
    have hmod : (ua + 1) % pageSize = ua % pageSize + 1 := by
      simp only [pageSize] at hpage ⊢
      omega
    have o' := o.touched (o.touch (ua % pageSize) b) (vaSlot_congr hdiv)
    have hrest := ih o' o'.pageFor (by omega) (b := b') (by rw [List.length_cons]; omega)
      (by rw [List.length_cons]; omega)
    rw [hmod] at hrest
    exact hrest

lemma CopiedOut.append {v2 v3 : Vm} {cs : List (BitVec 8)} (h : CopiedOut R s v₁ ua bs v2)
    (h' : CopiedOut R s v2 (ua + bs.length) cs v3) : CopiedOut R s v₁ ua (bs ++ cs) v3 := by
  induction h with
  | nil => exact h'
  | @cons v v₁ v' ua f b bs hua hpage hmaps hw hc _ ih =>
    refine .cons hua hpage hmaps hw hc (ih ?_)
    rwa [List.length_cons, Nat.add_comm bs.length 1, ← Nat.add_assoc] at h'

/-- What is stored through a writable entry says that the entry is not copy-on-write. -/
lemma CopiedOut.not_cow (h : CopiedOut R s v ua (b :: bs) v') (hp : present (view v.mem s (vaSlot ua)))
    (hw : write (view v.mem s (vaSlot ua))) : ¬ cow (readPte v (s * pageSize) ua) := by
  cases h with
  | @cons _ v₁ _ _ f _ _ hua hpage hmaps hwr hc hrest =>
    generalize ho : some f = o at hpage
    cases hpage with
    | refused g => cases ho
    | stack hp' hlo hhi m => exact absurd hp hp'
    | writable hp' hw' heq => rwa [heq] at hc
    | reused hp' hw' hc' hrc w => exact absurd hw hw'
    | moved hp' hw' hc' m => exact absurd hw hw'

lemma copyoutLoop_succ (p n ua : ℕ) (b : BitVec 8) (data : List (BitVec 8)) (v : Vm) :
    copyoutLoop p (n + 1) ua (b :: data) v =
      match copyoutPage v p ua with
      | (none, v₁) => (false, v₁)
      | (some f, v₁) =>
        let chunk := min (pageSize - ua % pageSize) (b :: data).length
        copyoutLoop p n (ua + chunk) ((b :: data).drop chunk)
          (v₁.setBytesAt f (ua % pageSize) ((b :: data).take chunk)) := rfl

/-- Writing bytes touches one frame. -/
lemma setBytesAt_eq (v : Vm) (f off : ℕ) (bs : List (BitVec 8)) :
    v.setBytesAt f off bs = { v with mem := (v.setBytesAt f off bs).mem } ∧
      ∀ g ≠ f, (v.setBytesAt f off bs).mem g = v.mem g := by
  induction bs generalizing v off with
  | nil => exact ⟨rfl, fun _ _ => rfl⟩
  | cons b bs ih =>
    obtain ⟨heq, hmem⟩ := ih (v.setByteAt f off b) (off + 1)
    refine ⟨heq, fun g hg => (hmem g hg).trans ?_⟩
    exact Function.update_of_ne hg _ _

/-- Bytes written to a frame that is no table leave the tables alone. -/
lemma Sound.touchBytes (h : Sound v R) (hf : f ∉ tables v.mem R) (off : ℕ) (bs : List (BitVec 8))
    : Touched v (v.setBytesAt f off bs) R {f} := by
  obtain ⟨heq, hmem⟩ := setBytesAt_eq v f off bs
  rw [heq]
  apply h.touch
  · rintro g rfl
    exact hf
  · exact fun g hg => hmem g hg

/-- **The loop of `copyout`** stores the bytes where it should. -/
lemma copyoutLoop_copied (hs : s ∈ R) (n : ℕ) {v : Vm} (h : Sound v R) (hcow : NoWriteCow v s)
    (hlo : 0x1000 ≤ ua) {data : List (BitVec 8)} (hend : ua + data.length ≤ userEnd)
    (hok : (copyoutLoop (s * pageSize) n ua data v).1 = true) :
    CopiedOut R s v ua data (copyoutLoop (s * pageSize) n ua data v).2 := by
  induction n generalizing v ua data with
  | zero =>
    cases data with
    | nil => exact .nil
    | cons b data => cases hok
  | succ n ih =>
    cases data with
    | nil => exact .nil
    | cons b data =>
      have hpos : 0 < (b :: data).length := Nat.succ_pos _
      have hua : ua < userEnd := by omega
      have q := copyoutPage_spec h hs hua
      rw [copyoutLoop_succ] at hok ⊢
      rcases hfound : copyoutPage v (s * pageSize) ua with ⟨_ | f, v₁⟩
      · rw [hfound] at hok
        cases hok
      rw [hfound] at q hok
      obtain ⟨o, hcow1⟩ := q.open h hs hcow
      have hmod : ua % pageSize < pageSize := Nat.mod_lt _ (by decide)
      set chunk := min (pageSize - ua % pageSize) (b :: data).length with hchunk
      have hle : chunk ≤ (b :: data).length := min_le_right _ _
      have htake : ((b :: data).take chunk).length = chunk := List.length_take_of_le hle
      have hdrop : ((b :: data).drop chunk).length = (b :: data).length - chunk := List.length_drop
      -- the page, then what is left
      obtain ⟨c, hc⟩ : ∃ c, chunk = c + 1 := ⟨chunk - 1, by omega⟩
      have hfirst : CopiedOut R s v ua ((b :: data).take chunk)
          (v₁.setBytesAt f (ua % pageSize) ((b :: data).take chunk)) := by
        rw [hc, List.take_succ_cons] at htake ⊢
        exact o.copiedOut_page q hlo (by omega) (by omega)
      have hft : f ∉ tables v₁.mem R := by
        rw [← o.frame]
        exact o.sound.shape.leaf_frame hs o.present
      have t := o.sound.touchBytes hft (ua % pageSize) ((b :: data).take chunk)
      have hcow2 : NoWriteCow (v₁.setBytesAt f (ua % pageSize) ((b :: data).take chunk)) s := by
        intro x hp hw
        rw [t.view_eq s hs] at hp hw ⊢
        exact hcow1 x hp hw
      have hrest := ih t.sound hcow2 (by omega) (by omega) hok
      have hall := hfirst.append (by rwa [htake])
      rwa [List.take_append_drop] at hall

/-- **`copyout`** stores the bytes where it should. -/
lemma copyout_copied (h : Sound v R) (hs : s ∈ R) (hcow : NoWriteCow v s) {data : List (BitVec 8)}
    (hok : (copyout v (s * pageSize) ua data).1 = true) :
    CopiedOut R s v ua data (copyout v (s * pageSize) ua data).2 := by
  unfold copyout at hok ⊢
  split_ifs at hok ⊢ with h1 h2
  apply copyoutLoop_copied hs _ h hcow _ _ hok
  · omega
  · simp only [userStackMax, userEnd] at h2 ⊢
    omega

end writes

/-! ## The result -/

/-- **User copies are sound.** `copyin` returns the bytes user code finds at its range, in every page
table, and `copyinstr` those up to the first terminator; a `copyout` that succeeds, in sound tables
none of whose writable entries is copy-on-write, has stored each byte where user code finds it,
through an entry that was writable and not copy-on-write when it did. -/
theorem user_copy_sound : (∀ v p ua len bs, copyin v p ua len = some bs → bs.length = len ∧ HoldsAt v p ua bs) ∧
      (∀ v p ua maxlen bs, copyinstr v p ua maxlen = .success bs →
        HoldsAt v p ua bs ∧ bs.length ≤ maxlen ∧ ∃ l, bs = l ++ [0] ∧ 0 ∉ l) ∧
      ∀ v R s ua data, Sound v R → s ∈ R → NoWriteCow v s → (copyout v (s * pageSize) ua data).1 = true →
          CopiedOut R s v ua data (copyout v (s * pageSize) ua data).2 := by
  refine ⟨fun v p ua len bs h => copyin_holds h, fun v p ua maxlen bs h => copyinstr_holds h, ?_⟩
  exact fun v R s ua data h hs hcow hok => copyout_copied h hs hcow hok

/-- One address space after boot. -/
def soloVm : Vm := (pmapCreate bootVm).2

lemma soloVm_created : Created bootVm soloVm ∅ 259 := by
  have hroot : (pmapCreate bootVm).1 = 259 * pageSize := by decide +kernel
  rcases pmapCreate_spec bootVm_sound with ⟨h0, -⟩ | ⟨g, hg, c⟩
  · rw [h0] at hroot
    exact absurd hroot (by decide)
  · have heq : g = 259 := Nat.eq_of_mul_eq_mul_right (by decide : 0 < pageSize) (hg.symm.trans hroot)
    rwa [heq] at c

/-- A new address space reads the code of its trampoline, and `copyout` gives it a first page of
stack. -/
theorem user_copy_sound_solo : HoldsAt soloVm (259 * pageSize) 0x70000008 [0x48, 0x8B, 0x7C, 0x24] ∧
      HoldsAt soloVm (259 * pageSize) 0x7000000C [0x10, 0xB8, 0xB8, 0x00] ∧
      CopiedOut {259} 259 soloVm 0x7FF000000FFF [0x41, 0x42]
        (copyout soloVm (259 * pageSize) 0x7FF000000FFF [0x41, 0x42]).2 := by
  have c := soloVm_created
  refine ⟨?_, ?_, ?_⟩
  · exact (user_copy_sound.1 _ _ _ 4 _ (by decide +kernel)).2
  · exact (user_copy_sound.2.1 _ _ _ 9 _ (by decide +kernel)).1
  · apply user_copy_sound.2.2 _ _ _ _ _ c.sound (by decide)
    · -- the one entry there is, the trampoline's, is read-only
      intro x hp hw
      rcases c.view_new x with h0 | ⟨-, ht, heq⟩
      · rw [h0] at hp
        simp at hp
      · rw [heq, (trampLeaf_entry ht).2.1] at hw
        cases hw
    · decide +kernel

/-- A page that was mapped writable and copy-on-write at once. -/
def writeCowVm : Vm := mapFreshPage soloVm (259 * pageSize) 0x70001000 (pageWrite ||| pageCow)

/-- **`copyout` stores through a copy-on-write entry that is also writable.** -/
theorem copyout_writes_cow : ¬ ∀ v R s ua data, Sound v R → s ∈ R → (copyout v (s * pageSize) ua data).1 = true →
      CopiedOut R s v ua data (copyout v (s * pageSize) ua data).2 := by
  intro hall
  have hs : Sound writeCowVm {259} := by
    rcases mapFreshPage_spec soloVm_created.sound (r := 259) (by decide) 0x70001000
      (show (pageWrite ||| pageCow) &&& ptePhysMask = 0#64 by decide) with g | ⟨-, g, m⟩
    · exact g.sound
    · exact m.sound
  have hcopied := hall writeCowVm {259} 259 0x70001000 [0x41] hs (by decide) (by decide +kernel)
  have hp : present (view writeCowVm.mem 259 (vaSlot 0x70001000)) := by decide +kernel
  have hw : write (view writeCowVm.mem 259 (vaSlot 0x70001000)) := by decide +kernel
  have hcow : cow (readPte writeCowVm (259 * pageSize) 0x70001000) := by decide +kernel
  exact hcopied.not_cow hp hw hcow

end Chimera
