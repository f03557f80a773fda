import Chimera.Pmap.UserCopy

/-!
# Protection changes: `sys_mprotect`

`sys_mprotect` rewrites the entries of a range. The entry is the only record of the mapping, and for
`PROT_NONE` its present bit is cleared; every later operation (another protection change, an unmapping, the
teardown) skips entries without that bit.

A sequence of protection changes should be reversible (`Reversible`): the page is present exactly when the
last protection is not `PROT_NONE`, it keeps its contents, and unmapping or destroying it afterwards gives
its frame back once. That is so exactly when no call took the page away, or the last one did and the mapping
holds no reference that anyone could give back (`protection_reversible_iff`). A page that was taken away
never comes back, and its frame is lost (`prot_none_loses_page`).
-/

namespace Chimera

open Lib

/-- Change the protection of a range of the task with page table `vmMap`; the protection is cut to 32 bits.
Source: `sys_mprotect` -/
def sysMprotect (v : Vm) (vmMap addr len prot : ℕ) : ℤ × Vm :=
  if vmMap = 0 ∨ len = 0 then (-22, v)
  else
    let r := pmapProtectUserRange v vmMap addr len (prot % 2 ^ 32)
    (if r.1 then 0 else -14, r.2)

/-- The arguments of a call. -/
structure MprotectCall where
  addr : ℕ
  len : ℕ
  prot : ℕ
  addr_lt : addr < 2 ^ 64
  len_lt : len < 2 ^ 64
  prot_lt : prot < 2 ^ 64

lemma slotVa_aligned (x : Slot) : slotVa x / pageSize * pageSize = slotVa x := by
  rw [← slotVa_vaSlot (slotVa_lt x), vaSlot_slotVa]

namespace MprotectCall

/-- The page has an address in `[addr, addr + len)`. -/
def covers (c : MprotectCall) (x : Slot) : Prop := c.addr < slotVa x + pageSize ∧ slotVa x < c.addr + c.len

/-- The page is in the range that `pmap_protect_user_range` computes; its end wraps at `2 ^ 64`. -/
def reaches (c : MprotectCall) (x : Slot) : Prop :=
  x ∈ span (c.addr / pageSize * pageSize) (u64 (c.addr + c.len + 0xFFF) / pageSize * pageSize)

/-- Without a wrap every page covered is reached. -/
lemma reaches_of_covers {c : MprotectCall} {x : Slot} (h : c.covers x)
    (hwrap : c.addr + c.len + 0xFFF < 2 ^ 64) : c.reaches x := by
  have hpage := slotVa_aligned x
  have hu64 : u64 (c.addr + c.len + 0xFFF) = c.addr + c.len + 0xFFF := Nat.mod_eq_of_lt hwrap
  obtain ⟨hlo, hhi⟩ := h
  simp only [reaches, span, hu64, pageSize, Set.mem_ofPred_eq] at hlo hhi hpage ⊢
  omega

end MprotectCall

/-- **A sequence of successful calls** that all cover the page `x` of address space `r`. -/
inductive Reprotected (r : ℕ) (x : Slot) : Vm → List MprotectCall → Vm → Prop
  | nil {v : Vm} : Reprotected r x v [] v
  | cons {v v' : Vm} (c : MprotectCall) {cs : List MprotectCall} (hcovers : c.covers x)
      (hok : (sysMprotect v (r * pageSize) c.addr c.len c.prot).1 = 0)
      (hrest : Reprotected r x (sysMprotect v (r * pageSize) c.addr c.len c.prot).2 cs v') :
      Reprotected r x v (c :: cs) v'

/-- The entries of other pages, and not of the trampoline's, that map frame `f`. -/
def otherRefs (v : Vm) (r : ℕ) (x : Slot) (f : ℕ) : ℕ :=
  ∑ y ∈ (Finset.univ.erase trampSlot).erase x, hit (view v.mem r y) f

/-- Unmapping the page `x`, or destroying the address space, gives back one reference of `f` for it. -/
structure ReleasedOnce (v : Vm) (r : ℕ) (x : Slot) (f : ℕ) : Prop where
  unmap_ends : ∃ fuel t, pmapUnmapUserRange fuel v (r * pageSize) (slotVa x) pageSize = some t
  unmap : ∀ fuel t, pmapUnmapUserRange fuel v (r * pageSize) (slotVa x) pageSize = some t →
    rc t.pmm f + 1 = rc v.pmm f
  destroy : rc (pmapDestroyUserSpace v (r * pageSize)).pmm f + 1 + otherRefs v r x f = rc v.pmm f

/-- **The page `x` after protection changes** from `v` to `v'`, the last of them with `prot`. A mapping of
the trampoline, or of a frame that the allocator does not manage, holds no reference. -/
structure Reversible (v v' : Vm) (r : ℕ) (x : Slot) (prot : ℕ) : Prop where
  present_iff : present (view v'.mem r x) = true ↔ prot ≠ 0
  frame_eq : pteFrame (view v'.mem r x) = pteFrame (view v.mem r x)
  contents_eq : v'.mem (pteFrame (view v.mem r x)) = v.mem (pteFrame (view v.mem r x))
  released : x ≠ trampSlot → pteFrame (view v.mem r x) < v.pmm.maxPhysPage →
    ReleasedOnce v' r x (pteFrame (view v.mem r x))

/-- **A call takes the page away**: it reaches the page with a protection whose low 32 bits are zero. -/
def TakenAway (cs : List MprotectCall) (x : Slot) : Prop := ∃ c ∈ cs, c.reaches x ∧ c.prot % 2 ^ 32 = 0

lemma takenAway_cons (c : MprotectCall) (cs : List MprotectCall) (x : Slot) :
    TakenAway (c :: cs) x ↔ TakenAway [c] x ∨ TakenAway cs x := by
  simp only [TakenAway, List.mem_cons, List.not_mem_nil, or_false, exists_eq_or_imp, exists_eq_left]

/-! ## The sequence -/

section sequence

variable {v v' : Vm} {R : Finset ℕ} {r : ℕ} {x : Slot}

/-- What protection changes keep, and what they do to the page `x`. -/
structure Recast (v v' : Vm) (R : Finset ℕ) (r : ℕ) (x : Slot) (cs : List MprotectCall) : Prop where
  sound : Sound v' R
  pmm_eq : v'.pmm = v.pmm
  tables_eq : tables v'.mem R = tables v.mem R
  data_eq : ∀ f, f ∉ tables v.mem R → v'.mem f = v.mem f
  frame_eq : pteFrame (view v'.mem r x) = pteFrame (view v.mem r x)
  present_iff : present (view v'.mem r x) = true ↔ present (view v.mem r x) = true ∧ ¬ TakenAway cs x

lemma pteFrame_protectedEntry (prot : ℕ) (e : BitVec 64) : pteFrame (protectedEntry prot e) = pteFrame e := by
  unfold protectedEntry
  split_ifs
  · exact pteFrame_protectEntry e prot
  · rfl

lemma sysMprotect_recast (h : Sound v R) (hr : r ∈ R) (c : MprotectCall)
    (hok : (sysMprotect v (r * pageSize) c.addr c.len c.prot).1 = 0) :
    Recast v (sysMprotect v (r * pageSize) c.addr c.len c.prot).2 R r x [c] := by
  rw [sysMprotect] at hok ⊢
  by_cases hbad : r * pageSize = 0 ∨ c.len = 0
  · rw [if_pos hbad] at hok
    cases hok
  rw [if_neg hbad] at hok ⊢
  obtain ⟨X, -, p, hX⟩ := pmapProtectUserRange_spec h hr c.addr c.len (c.prot % 2 ^ 32)
  have hdone : (pmapProtectUserRange v (r * pageSize) c.addr c.len (c.prot % 2 ^ 32)).1 = true := by
    have hret : (if (pmapProtectUserRange v (r * pageSize) c.addr c.len (c.prot % 2 ^ 32)).1 = true then
        (0 : ℤ) else -14) = 0 := hok
    by_contra hfalse
    rw [if_neg hfalse] at hret
    exact absurd hret (by decide)
  have hspan := hX hdone
  have htaken : TakenAway [c] x ↔ x ∈ X ∧ c.prot % 2 ^ 32 = 0 := by
    rw [hspan]
    simp [TakenAway, MprotectCall.reaches]
  refine ⟨p.sound, p.pmm_eq, p.walks.tables_eq, p.data_eq, ?_, ?_⟩
  · by_cases hx : x ∈ X
    · rw [p.changed x hx, pteFrame_protectedEntry]
    · rw [p.kept r hr x fun h => hx h.2]
  · rw [htaken]
    by_cases hx : x ∈ X
    · rw [p.changed x hx, protectedEntry]
      split_ifs with hp
      · simp [present_protectEntry, hp, hx]
      · simp [hp]
    · rw [p.kept r hr x fun h => hx h.2]
      simp [hx]

lemma Reprotected.recast {cs : List MprotectCall} (hrun : Reprotected r x v cs v') (h : Sound v R)
    (hr : r ∈ R) : Recast v v' R r x cs := by
  induction hrun with
  | nil => exact ⟨h, rfl, rfl, fun _ _ => rfl, rfl, by simp [TakenAway]⟩
  | @cons v v' c cs _ hok _ ih =>
    have hstep := sysMprotect_recast (x := x) h hr c hok
    have hrest := ih hstep.sound
    refine ⟨hrest.sound, hrest.pmm_eq.trans hstep.pmm_eq, hrest.tables_eq.trans hstep.tables_eq,
      fun f hf => ?_, hrest.frame_eq.trans hstep.frame_eq, ?_⟩
    · rw [hrest.data_eq f (hstep.tables_eq ▸ hf), hstep.data_eq f hf]
    · rw [hrest.present_iff, hstep.present_iff, takenAway_cons c cs x, not_or, and_assoc]

end sequence

/-! ## Giving the frame back -/

section release

variable {v : Vm} {R : Finset ℕ} {r : ℕ}

/-- **Unmapping one page** releases the frame of a present entry, unless at the trampoline. -/
lemma unmapOne_rc (h : Sound v R) (hr : r ∈ R) (x : Slot) (f : ℕ) :
    (∃ fuel t, pmapUnmapUserRange fuel v (r * pageSize) (slotVa x) pageSize = some t) ∧
      ∀ fuel t, pmapUnmapUserRange fuel v (r * pageSize) (slotVa x) pageSize = some t →
        rc t.pmm f = rc v.pmm f - if x = trampSlot then 0 else hit (view v.mem r x) f := by
  have hlt := slotVa_lt x
  have hstart := slotVa_aligned x
  have hends : ∀ a < userEnd, a / pageSize * pageSize = a →
      u64 (a + pageSize + 4095) / pageSize * pageSize = a + pageSize ∧
        min (u64 (a + 64 * pageSize)) (a + pageSize) = a + pageSize := by
    intro a ha haligned
    simp only [u64, pageSize, userEnd] at ha haligned ⊢
    omega
  obtain ⟨hstop, hchunk⟩ := hends _ hlt hstart
  have hargs : ¬ (r * pageSize = 0 ∨ pageSize = 0) := not_or.mpr ⟨h.root_ne_zero hr, by decide⟩
  have hmore : slotVa x < slotVa x + pageSize := Nat.lt_add_of_pos_right (by decide)
  have hloop : ∀ fuel, pmapUnmapUserRange (fuel + 1) v (r * pageSize) (slotVa x) pageSize =
      some (unmapChunk v (r * pageSize) (slotVa x) (slotVa x + pageSize) true) := by
    intro fuel
    rw [pmapUnmapUserRange, pmapUnmapUserRangeEx, if_neg hargs, hstop, hstart, unmapLoop, if_pos hmore]
    rw [hchunk]
    cases fuel <;> rw [unmapLoop, if_neg (lt_irrefl _)]
  refine ⟨⟨1, _, hloop 0⟩, fun fuel t ht => ?_⟩
  cases fuel with
  | zero =>
    rw [pmapUnmapUserRange, pmapUnmapUserRangeEx, if_neg hargs, hstop, hstart, unmapLoop, if_pos hmore] at ht
    cases ht
  | succ fuel =>
    rw [hloop fuel] at ht
    cases ht
    have hone : (slotVa x + pageSize - slotVa x + pageSize - 1) / pageSize = 1 := by
      rw [Nat.add_sub_cancel_left]
      decide
    have htramp := vaSlot_eq_trampSlot hlt
    rw [vaSlot_slotVa] at htramp
    unfold unmapChunk
    rw [hone]
    simp only [forUpTo, Nat.zero_mul, Nat.add_zero, unmapPage, h.getPtePtr_eq hr hlt, vaSlot_slotVa]
    cases hpt : tableOf v.mem r x with
    | none => simp [view, hpt]
    | some pt =>
      have hview := view_of_table hpt
      simp only [Option.map_some, ← hview]
      by_cases hp : present (view v.mem r x) = true
      · by_cases hx : x = trampSlot
        · rw [if_pos hx]
          simp [hp, htramp.mp hx]
        · have hnt : pmapIsTrampolineVa (slotVa x) = false := by simpa [htramp] using hx
          rw [if_neg hx]
          simp [hp, hnt, rc_release_pte]
      · have hnone : hit (view v.mem r x) f = 0 := by simp [hit, hp]
        simp [hp, hnone]

/-- **Destroying the address space** releases the frame once for every entry, but the trampoline's. -/
lemma destroy_rc (h : Sound v R) (hr : r ∈ R) {f : ℕ} (hf : f < v.pmm.maxPhysPage)
    (hdata : f ∉ tables v.mem R) :
    rc (pmapDestroyUserSpace v (r * pageSize)).pmm f +
      ∑ y ∈ Finset.univ.erase trampSlot, hit (view v.mem r y) f = rc v.pmm f := by
  have d := pmapDestroyUserSpace_spec h hr
  have hslack := d.slack_eq f hf
  have hrefs : refs (pmapDestroyUserSpace v (r * pageSize)).mem (R.erase r) f = refs v.mem (R.erase r) f :=
    refs_congr fun r' hr' y => by rw [d.view_eq r' hr' y]
  have hsplit : refs v.mem R f = row v.mem r f + refs v.mem (R.erase r) f := by
    rw [← refs_insert (Finset.notMem_erase r R), Finset.insert_erase hr]
  have hrow : row v.mem r f = hit (view v.mem r trampSlot) f +
      ∑ y ∈ Finset.univ.erase trampSlot, hit (view v.mem r y) f :=
    (Finset.add_sum_erase _ _ (Finset.mem_univ trampSlot)).symm
  have hgone : f ∉ tables (pmapDestroyUserSpace v (r * pageSize)).mem (R.erase r) :=
    fun ht => hdata (d.tables_sub f ht)
  unfold slack at hslack
  rw [hrefs, tabs_of_notMem hgone, tabs_of_notMem hdata] at hslack
  omega

lemma sum_erase_erase {ι : Type*} [Fintype ι] [DecidableEq ι] (g : ι → ℕ) {a b : ι} (h : b ≠ a) :
    ∑ y ∈ Finset.univ.erase a, g y = g b + ∑ y ∈ (Finset.univ.erase a).erase b, g y :=
  (Finset.add_sum_erase _ g (Finset.mem_erase_of_ne_of_mem h (Finset.mem_univ b))).symm

/-- **A page with a reference** is released once exactly if its entry is present. -/
lemma releasedOnce_iff (h : Sound v R) (hr : r ∈ R) {x : Slot} {f : ℕ} (hx : x ≠ trampSlot)
    (hf : f < v.pmm.maxPhysPage) (hframe : pteFrame (view v.mem r x) = f) (hdata : f ∉ tables v.mem R) :
    ReleasedOnce v r x f ↔ present (view v.mem r x) = true := by
  obtain ⟨hends, hrc⟩ := unmapOne_rc h hr x f
  constructor
  · intro hrel
    obtain ⟨fuel, t, ht⟩ := hends
    have hone := hrel.unmap fuel t ht
    rw [hrc fuel t ht, if_neg hx] at hone
    exact (hit_pos.mp (by omega : 0 < hit (view v.mem r x) f)).1
  · intro hp
    have hhit : hit (view v.mem r x) f = 1 := if_pos ⟨hp, hframe⟩
    have hnt : ¬ v.isTramp f := fun ht => hx (h.tramp_slot hr hp (hframe ▸ ht))
    have hpos : 0 < rc v.pmm f := by
      have hs := h.counted f hf hnt
      have hle := hit_le_refs (m := v.mem) hr x f
      unfold slack at hs
      omega
    refine ⟨hends, fun fuel t ht => ?_, ?_⟩
    · rw [hrc fuel t ht, if_neg hx, hhit]
      omega
    · have hd := destroy_rc h hr hf hdata
      have hsum := sum_erase_erase (fun y => hit (view v.mem r y) f) hx
      unfold otherRefs
      omega

end release

/-! ## Reversibility -/

/-- **Protection changes are reversible exactly when no call takes the page away, or the last one does and
the mapping holds no reference.** For every sound state, every mapped page and every sequence of successful
calls that cover it. -/
theorem protection_reversible_iff {v v' : Vm} {R : Finset ℕ} (h : Sound v R) {r : ℕ} (hr : r ∈ R) {x : Slot}
    (hx : present (view v.mem r x) = true) {cs : List MprotectCall} {last : MprotectCall}
    (hrun : Reprotected r x v (cs ++ [last]) v') :
    Reversible v v' r x last.prot ↔ (¬ TakenAway (cs ++ [last]) x ∧ last.prot ≠ 0) ∨
        (TakenAway (cs ++ [last]) x ∧ last.prot = 0 ∧
          (x = trampSlot ∨ v.pmm.maxPhysPage ≤ pteFrame (view v.mem r x))) := by
  have k := hrun.recast h hr
  have hpres : present (view v'.mem r x) = true ↔ ¬ TakenAway (cs ++ [last]) x := by
    rw [k.present_iff]
    exact and_iff_right hx
  have hdata : pteFrame (view v.mem r x) ∉ tables v.mem R := h.shape.leaf_frame hr hx
  have hrel : x ≠ trampSlot → pteFrame (view v.mem r x) < v.pmm.maxPhysPage →
      (ReleasedOnce v' r x (pteFrame (view v.mem r x)) ↔ ¬ TakenAway (cs ++ [last]) x) := by
    intro hne hlt
    rw [← hpres]
    exact releasedOnce_iff k.sound hr hne (k.pmm_eq ▸ hlt) k.frame_eq (k.tables_eq ▸ hdata)
  constructor
  · rintro ⟨hp, -, -, hreleased⟩
    rw [hpres] at hp
    by_cases htaken : TakenAway (cs ++ [last]) x
    · refine .inr ⟨htaken, by_contra fun hne => hp.mpr hne htaken, ?_⟩
      by_contra hno
      push Not at hno
      exact (hrel hno.1 hno.2).mp (hreleased hno.1 hno.2) htaken
    · exact .inl ⟨htaken, hp.mp htaken⟩
  · intro hcond
    refine ⟨?_, k.frame_eq, k.data_eq _ hdata, fun hne hlt => ?_⟩
    · rw [hpres]
      rcases hcond with ⟨hno, hne⟩ | ⟨htaken, hzero, -⟩
      · exact iff_of_true hno hne
      · exact iff_of_false (not_not.mpr htaken) (not_not.mpr hzero)
    · rw [hrel hne hlt]
      rcases hcond with ⟨hno, -⟩ | ⟨-, -, htramp | hle⟩
      · exact hno
      · exact absurd htramp hne
      · exact absurd hlt (not_lt.mpr hle)

/-! ## A page and its protection -/

/-- An address space with a page at `0x70001000`. -/
def pagedVm : Vm := mapFreshPage soloVm (259 * pageSize) 0x70001000 pageWrite

lemma pagedVm_sound : Sound pagedVm {259} := by
  rcases mapFreshPage_spec soloVm_created.sound (r := 259) (by decide) 0x70001000
    (show pageWrite &&& ptePhysMask = 0#64 by decide) with g | ⟨-, g, m⟩
  · exact g.sound
  · exact m.sound

lemma pagedVm_present : present (view pagedVm.mem 259 (vaSlot 0x70001000)) = true := by decide +kernel

/-- A protection change of that page. -/
def protectPaged (prot : ℕ) (h : prot < 2 ^ 64) : MprotectCall :=
  ⟨0x70001000, 4096, prot, by decide, by decide, h⟩

lemma protectPaged_covers (prot : ℕ) (h : prot < 2 ^ 64) : (protectPaged prot h).covers (vaSlot 0x70001000) := by
  have hva : slotVa (vaSlot 0x70001000) = 0x70001000 := by decide
  simp [MprotectCall.covers, hva, protectPaged, pageSize]

/-- The page is made read-only and writable again. -/
theorem protection_reversible_read_write : ∃ v', Reprotected 259 (vaSlot 0x70001000) pagedVm
        ([protectPaged 1 (by decide)] ++ [protectPaged 3 (by decide)]) v' ∧
      Reversible pagedVm v' 259 (vaSlot 0x70001000) 3 := by
  have hrun : Reprotected 259 (vaSlot 0x70001000) pagedVm
      ([protectPaged 1 (by decide)] ++ [protectPaged 3 (by decide)]) _ :=
    .cons _ (protectPaged_covers 1 (by decide)) (by decide +kernel)
      (.cons _ (protectPaged_covers 3 (by decide)) (by decide +kernel) .nil)
  refine ⟨_, hrun, (protection_reversible_iff pagedVm_sound (by decide) pagedVm_present hrun).mpr (.inl ⟨?_, ?_⟩)⟩
  · rintro ⟨c, hc, -, hprot⟩
    simp only [List.cons_append, List.nil_append, List.mem_cons, List.not_mem_nil, or_false] at hc
    rcases hc with rfl | rfl <;> exact absurd hprot (by decide)
  · decide

/-- **A page that was taken away does not come back**: `PROT_NONE`, then `PROT_READ | PROT_WRITE`, both with
success. -/
theorem prot_none_loses_page : ∃ v', Reprotected 259 (vaSlot 0x70001000) pagedVm
        ([protectPaged 0 (by decide)] ++ [protectPaged 3 (by decide)]) v' ∧
      present (view pagedVm.mem 259 (vaSlot 0x70001000)) = true ∧ Sound pagedVm {259} ∧
      ¬ Reversible pagedVm v' 259 (vaSlot 0x70001000) 3 := by
  have hrun : Reprotected 259 (vaSlot 0x70001000) pagedVm
      ([protectPaged 0 (by decide)] ++ [protectPaged 3 (by decide)]) _ :=
    .cons _ (protectPaged_covers 0 (by decide)) (by decide +kernel)
      (.cons _ (protectPaged_covers 3 (by decide)) (by decide +kernel) .nil)
  refine ⟨_, hrun, pagedVm_present, pagedVm_sound, fun hrev => ?_⟩
  have hpres := (hrun.recast pagedVm_sound (by decide)).present_iff.mp (hrev.present_iff.mpr (by decide))
  refine hpres.2 ⟨protectPaged 0 (by decide), by simp, ?_, rfl⟩
  exact MprotectCall.reaches_of_covers (protectPaged_covers 0 (by decide)) (by decide)

end Chimera
