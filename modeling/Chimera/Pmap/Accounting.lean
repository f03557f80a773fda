import Chimera.Pmap.Clone
import Chimera.Pmap.Unmap
import Chimera.Pmap.Destroy
import Chimera.Pmap.Fresh
import Chimera.Pmap.Cow
import Chimera.Pmm.Init

/-!
# Frame accounting over whole runs

A run starts with no address space and goes through any sequence of `pmap_create`, mappings of fresh
pages, `pmap_unmap_user_range`, `pmap_clone_user_space`, `pmap_handle_cow_fault` and
`pmap_destroy_user_space`. The invariant `Accounted` says that the slack of every frame is what its
count was before the run. So a mapped frame has exactly one reference per entry, and when the last
address space is gone everything the run has used is free again.

All of this is for runs that unmap ranges of the user half only. `pmap_unmap_user_range` does not
check this, and it ignores the upper sixteen bits of an address but not in its test for the
trampoline: unmapping the trampoline under an alias of its address gives a reference back that no
entry ever had (`aliasUnmap_breaks_accounting`).
-/

namespace Chimera

open Lib

/-! ## Runs -/

/-- The calls of a run; address spaces are named by the frame of their PML4. -/
inductive PmapOp where
  | create
  | mapFresh (r va : ℕ) (flags : BitVec 64)
  | unmap (r va len : ℕ)
  | clone (r : ℕ)
  | cowFault (r va : ℕ)
  | destroy (r : ℕ)

/-- Map a frame fresh from `pmm_alloc_page`, and give it back when the mapping is refused, as the
callers of `pmap_map_user_page` do. -/
def mapFreshPage (v : Vm) (pml4Phys va : ℕ) (flags : BitVec 64) : Vm :=
  let a := pmmAllocPage v.pmm
  let v₁ := { v with pmm := a.2 }
  if allocFailed a.1 then v₁
  else
    let m := pmapMapUserPage v₁ pml4Phys va a.1 flags
    if m.1 = 0 then m.2.release a.1 else m.2

/-- One call, on the state and the set of live address spaces. -/
inductive PmapStep : Vm → Finset ℕ → PmapOp → Vm → Finset ℕ → Prop
  | create {v R} : PmapStep v R .create (pmapCreate v).2
      (if (pmapCreate v).1 = 0 then R else insert ((pmapCreate v).1 / pageSize) R)
  | mapFresh {v R r va flags} (hr : r ∈ R) (hva : va < userEnd) (htr : pmapIsTrampolineVa va = false)
      (hflags : flags &&& ptePhysMask = 0#64) :
      PmapStep v R (.mapFresh r va flags) (mapFreshPage v (r * pageSize) va flags) R
  | unmap {v v' R r va len fuel} (hr : r ∈ R)
      (h : pmapUnmapUserRange fuel v (r * pageSize) va len = some v') :
      PmapStep v R (.unmap r va len) v' R
  /-- No frame may be mapped more than 65534 times. -/
  | clone {v R r} (hr : r ∈ R) (hroom : ∀ f, refs v.mem R f + row v.mem r f ≤ 65534) :
      PmapStep v R (.clone r) (pmapCloneUserSpace v (r * pageSize)).2
        (if (pmapCloneUserSpace v (r * pageSize)).1 = 0 then R
          else insert ((pmapCloneUserSpace v (r * pageSize)).1 / pageSize) R)
  | cowFault {v R r va} (hr : r ∈ R) :
      PmapStep v R (.cowFault r va) (pmapHandleCowFault v (r * pageSize) va).2 R
  | destroy {v R r} (hr : r ∈ R) :
      PmapStep v R (.destroy r) (pmapDestroyUserSpace v (r * pageSize)) (R.erase r)

/-- The frames in use: page tables, and frames mapped elsewhere than at the trampoline. -/
def usedFrames (v : Vm) (R : Finset ℕ) : Set ℕ :=
  tables v.mem R ∪
    {f | ∃ r ∈ R, ∃ x, x ≠ trampSlot ∧ present (view v.mem r x) ∧ pteFrame (view v.mem r x) = f}

/-- A run from `v₀`, whose calls all satisfy `P`, with the set of all frames it has used so far. -/
inductive PmapRun (v₀ : Vm) (P : PmapOp → Prop) : Vm → Finset ℕ → Set ℕ → Prop
  | start : PmapRun v₀ P v₀ ∅ ∅
  | step {v R U v' R'} (op : PmapOp) (hrun : PmapRun v₀ P v R U) (hP : P op) (hstep : PmapStep v R op v' R') :
      PmapRun v₀ P v' R' (U ∪ usedFrames v' R')

/-- What the reference counts promise: one reference per entry, and nothing left when the last
address space is gone. -/
structure FrameAccounting (v : Vm) (R : Finset ℕ) (U : Set ℕ) : Prop where
  counted : ∀ r ∈ R, ∀ x, x ≠ trampSlot → present (view v.mem r x) →
    rc v.pmm (pteFrame (view v.mem r x)) = refs v.mem R (pteFrame (view v.mem r x))
  freed : R = ∅ → ∀ f ∈ U, f ∈ v.pmm.freeSet ∨ v.isTramp f

/-- Unmapping stays in the user half. -/
def PmapOp.inUserHalf : PmapOp → Prop
  | .unmap _ va len => va + len ≤ userEnd
  | _ => True

/-! ## The invariant -/

/-- The accounting of a run that began at `v₀`. -/
structure Accounted (v₀ v : Vm) (R : Finset ℕ) (U : Set ℕ) : Prop where
  sound : Sound v R
  max_eq : v.pmm.maxPhysPage = v₀.pmm.maxPhysPage
  slack_eq : ∀ f ≠ 0, f < v.pmm.maxPhysPage → ¬ v.isTramp f → slack v R f = rc v₀.pmm f
  tramp_entry : ∀ r ∈ R, present (view v.mem r trampSlot) →
    v.isTramp (pteFrame (view v.mem r trampSlot)) ∧ write (view v.mem r trampSlot) = false ∧
      cow (view v.mem r trampSlot) = false
  used_sub : usedFrames v R ⊆ U
  used : ∀ f ∈ U, f ≠ 0 ∧ f < v.pmm.maxPhysPage ∧ rc v₀.pmm f = 0

/-- What one call does, as far as the accounting is concerned. -/
structure Balanced (v v' : Vm) (R R' : Finset ℕ) : Prop where
  sound : Sound v' R'
  max_eq : v'.pmm.maxPhysPage = v.pmm.maxPhysPage
  tramp_eq : v.trampPhys ≠ 0 → v'.trampPhys = v.trampPhys
  slack_eq : ∀ f ≠ 0, f < v.pmm.maxPhysPage → ¬ v'.isTramp f → slack v' R' f = slack v R f
  tramp_entry : ∀ r ∈ R', present (view v'.mem r trampSlot) →
    v'.isTramp (pteFrame (view v'.mem r trampSlot)) ∧ write (view v'.mem r trampSlot) = false ∧
      cow (view v'.mem r trampSlot) = false
  used : ∀ f ∈ usedFrames v' R', f ∈ usedFrames v R ∨ (rc v.pmm f = 0 ∧ f ≠ 0 ∧ f < v.pmm.maxPhysPage)

section step

variable {v₀ v v' : Vm} {R R' : Finset ℕ} {U : Set ℕ} {f g r : ℕ} {x : Slot}

lemma isTramp_of_eq (h : v.trampPhys ≠ 0 → v'.trampPhys = v.trampPhys) (ht : v.isTramp f) : v'.isTramp f := by
  unfold Vm.isTramp
  rw [h ht.1]
  exact ht

lemma Accounted.balanced (a : Accounted v₀ v R U) (b : Balanced v v' R R') :
    Accounted v₀ v' R' (U ∪ usedFrames v' R') := by
  refine ⟨b.sound, b.max_eq.trans a.max_eq, fun f hf0 hf hnt => ?_, b.tramp_entry, Set.subset_union_right, ?_⟩
  · rw [b.max_eq] at hf
    rw [b.slack_eq f hf0 hf hnt]
    exact a.slack_eq f hf0 hf fun ht => hnt (isTramp_of_eq b.tramp_eq ht)
  · rw [b.max_eq]
    rintro f (hf | hf)
    · exact a.used f hf
    · rcases b.used f hf with hold | ⟨hzero, hf0, hlt⟩
      · exact a.used f (a.used_sub hold)
      · refine ⟨hf0, hlt, ?_⟩
        -- a free frame has no slack
        obtain ⟨htab, hmap, hnt⟩ := a.sound.fresh hlt hzero
        have hs := a.slack_eq f hf0 hlt hnt
        have hc := a.sound.counted f hlt hnt
        unfold slack at hs hc
        omega

/-- What is mapped elsewhere than at the trampoline is in use. -/
lemma mem_usedFrames (hr : r ∈ R) (hx : x ≠ trampSlot) (hp : present (view v.mem r x))
    : pteFrame (view v.mem r x) ∈ usedFrames v R :=
  .inr ⟨r, hr, x, hx, hp, rfl⟩

/-- The tables after a call are old or fresh. -/
lemma table_used (hs : Sound v' R') (hmax : v'.pmm.maxPhysPage = v.pmm.maxPhysPage)
    (h : ∀ f, rc v.pmm f ≠ 0 → f ∉ tables v.mem R → f ∉ tables v'.mem R') (hf : f ∈ tables v'.mem R') :
    f ∈ usedFrames v R ∨ (rc v.pmm f = 0 ∧ f ≠ 0 ∧ f < v.pmm.maxPhysPage) := by
  obtain ⟨hlt, hf0⟩ := hs.table_lt f hf
  by_cases hold : f ∈ tables v.mem R
  · exact .inl (.inl hold)
  · refine .inr ⟨?_, hf0, hmax ▸ hlt⟩
    by_contra hrc
    exact h f hrc hold hf

/-- A mapped frame has one reference per entry. -/
lemma Accounted.counted (a : Accounted v₀ v R U) (hr : r ∈ R) (hx : x ≠ trampSlot)
    (hp : present (view v.mem r x)) :
    rc v.pmm (pteFrame (view v.mem r x)) = refs v.mem R (pteFrame (view v.mem r x)) := by
  obtain ⟨hf0, hlt, hzero⟩ := a.used _ (a.used_sub (mem_usedFrames hr hx hp))
  have hnt : ¬ v.isTramp (pteFrame (view v.mem r x)) := fun ht => hx (a.sound.tramp_slot hr hp ht)
  have hs := a.slack_eq _ hf0 hlt hnt
  have htab := tabs_of_notMem (a.sound.shape.leaf_frame hr hp)
  unfold slack at hs
  rw [htab, hzero] at hs
  omega

lemma Accounted.hit_tramp (a : Accounted v₀ v R U) (hr : r ∈ R) (hf : ¬ v.isTramp f) :
    hit (view v.mem r trampSlot) f = 0 := by
  rw [hit, if_neg]
  rintro ⟨hp, rfl⟩
  exact hf (a.tramp_entry r hr hp).1

/-! ## The calls -/

lemma Accounted.grown (a : Accounted v₀ v R U) (g : Grown v v' R) : Balanced v v' R R := by
  have htr : v.trampPhys ≠ 0 → v'.trampPhys = v.trampPhys := fun _ => g.tramp_eq
  refine ⟨g.sound, g.max_eq, htr, fun f hf0 _ _ => g.slack_eq f hf0, fun r hr hp => ?_, ?_⟩
  · rw [g.view_eq r hr] at hp ⊢
    obtain ⟨h1, h2⟩ := a.tramp_entry r hr hp
    exact ⟨isTramp_of_eq htr h1, h2⟩
  · rintro f (hf | ⟨r, hr, x, hx, hp, rfl⟩)
    · exact table_used g.sound g.max_eq g.used hf
    · rw [g.view_eq r hr] at hp ⊢
      exact .inl (mem_usedFrames hr hx hp)

/-- The trampoline's own entry is neither writable nor copy-on-write. -/
lemma trampLeaf_entry (ht : v.trampPhys ≠ 0) : v.isTramp (pteFrame (leafEntry v.trampPhys pageUser)) ∧
      write (leafEntry v.trampPhys pageUser) = false ∧ cow (leafEntry v.trampPhys pageUser) = false := by
  rw [pteFrame_leafEntry _ (by decide), write_leafEntry, cow_leafEntry]
  exact ⟨⟨ht, rfl⟩, by decide, by decide⟩

lemma Accounted.created (a : Accounted v₀ v R U) (c : Created v v' R g) : Balanced v v' R (insert g R) := by
  refine ⟨c.sound, c.max_eq, c.tramp_eq, c.slack_eq, fun r hr hp => ?_, ?_⟩
  · rcases Finset.mem_insert.mp hr with rfl | hr
    · rcases c.view_new trampSlot with h0 | ⟨-, ht, heq⟩
      · rw [h0] at hp
        simp at hp
      · rw [heq]
        exact trampLeaf_entry ht
    · rw [c.view_eq r hr] at hp ⊢
      obtain ⟨h1, h2⟩ := a.tramp_entry r hr hp
      exact ⟨isTramp_of_eq c.tramp_eq h1, h2⟩
  · rintro f (hf | ⟨r, hr, x, hx, hp, rfl⟩)
    · exact table_used c.sound c.max_eq c.used hf
    · rcases Finset.mem_insert.mp hr with rfl | hr
      · rcases c.view_new x with h0 | ⟨hxt, -⟩
        · rw [h0] at hp
          simp at hp
        · exact absurd hxt hx
      · rw [c.view_eq r hr] at hp ⊢
        exact .inl (mem_usedFrames hr hx hp)

lemma Accounted.filled (a : Accounted v₀ v R U) (hr : r ∈ R) (hx : x ≠ trampSlot) {w : BitVec 64}
    {c : ℕ → BitVec 64} (m : Filled v v' R r x w c) : Balanced v v' R R := by
  have htr : v.trampPhys ≠ 0 → v'.trampPhys = v.trampPhys := fun _ => m.tramp_eq
  have hnt : ∀ f, ¬ v'.isTramp f → ¬ v.isTramp f := fun f h ht => h (isTramp_of_eq htr ht)
  refine ⟨m.sound, m.max_eq, htr, fun f hf0 hf h => ?_, fun r' hr' hp => ?_, ?_⟩
  · -- an entry that was there is released: its frame is not the fresh one
    have hdrop : dropped x (view v.mem r x) w f = hit (view v.mem r x) f := by
      by_cases hp : present (view v.mem r x) = true
      · have hne := (a.sound.fresh m.lt_max m.fresh).2.1 r hr x hp
        rw [dropped, if_neg (by simp [hne, hx])]
      · have h0 : hit (view v.mem r x) f = 0 := by simp [hit, hp]
        rw [dropped, h0]
        split_ifs <;> rfl
    rw [m.slack_eq f hf0 hf (hnt f h), hdrop]
    ring
  · rw [m.view_eq r' hr', if_neg fun h => hx h.2.symm] at hp ⊢
    obtain ⟨h1, h2⟩ := a.tramp_entry r' hr' hp
    exact ⟨isTramp_of_eq htr h1, h2⟩
  · rintro f (hf | ⟨r', hr', y, hy, hp, rfl⟩)
    · exact table_used m.sound m.max_eq m.used hf
    · rw [m.view_eq r' hr'] at hp ⊢
      split_ifs at hp ⊢
      · exact .inr ⟨m.fresh, m.ne_zero, m.lt_max⟩
      · exact .inl (mem_usedFrames hr' hy hp)

/-- **What mapping a fresh page does**: it is refused, or one slot maps a page nobody used before. -/
lemma mapFreshPage_spec (h : Sound v R) (hr : r ∈ R) (va : ℕ) {flags : BitVec 64}
    (hflags : flags &&& ptePhysMask = 0#64) :
    Grown v (mapFreshPage v (r * pageSize) va flags) R ∨
      (va < userEnd ∧ ∃ g, Filled v (mapFreshPage v (r * pageSize) va flags) R r (vaSlot va)
        (leafEntry (g * pageSize) flags) (v.mem g)) := by
  unfold mapFreshPage
  obtain ⟨hfail, l⟩ | ⟨g, hg, a⟩ := allocPage_cases h.inv
  · simp only [hfail, if_true]
    exact .inl (grown_of_allocFailed h l)
  · simp only [hg, a.ok, Bool.false_eq_true, if_false]
    have hne : g * pageSize ≠ 0 := Nat.mul_ne_zero a.ne_zero (by decide)
    rcases mapFresh_spec h { v with pmm := (pmmAllocPage v.pmm).2 } hr a rfl (fun _ _ => rfl) va hflags
      rfl with ⟨h0, gr⟩ | ⟨h1, hva, m⟩
    · rw [if_pos h0]
      exact .inl gr
    · rw [if_neg (by rw [h1]; exact hne)]
      exact .inr ⟨hva, g, m⟩

section

variable (a : Accounted v₀ v R U) (hr : r ∈ R)
include a hr

lemma Accounted.mapFreshPage {va : ℕ} (hva : va < userEnd)
    (htr : pmapIsTrampolineVa va = false) {flags : BitVec 64} (hflags : flags &&& ptePhysMask = 0#64) :
    Balanced v (mapFreshPage v (r * pageSize) va flags) R R := by
  have hx : vaSlot va ≠ trampSlot := fun heq => by
    rw [vaSlot_eq_trampSlot hva, htr] at heq
    exact Bool.false_ne_true heq
  rcases mapFreshPage_spec a.sound hr va hflags with g | ⟨-, g, m⟩
  · exact a.grown g
  · exact a.filled hr hx m

lemma Accounted.unmapped {X : Set Slot} (u : Unmapped v v' R r X true)
    : Balanced v v' R R := by
  have htr : v.trampPhys ≠ 0 → v'.trampPhys = v.trampPhys := fun _ => u.tramp_eq
  refine ⟨u.sound, u.max_eq, htr, fun f _ hf h => ?_, fun r' hr' hp => ?_, ?_⟩
  · exact u.slack_eq rfl f hf (a.hit_tramp hr fun ht => h (isTramp_of_eq htr ht))
  · have hold := u.view_of_present hr' hp
    rw [hold] at hp ⊢
    obtain ⟨h1, h2⟩ := a.tramp_entry r' hr' hp
    exact ⟨isTramp_of_eq htr h1, h2⟩
  · rintro f (hf | ⟨r', hr', y, hy, hp, rfl⟩)
    · rw [u.walks.tables_eq] at hf
      exact .inl (.inl hf)
    · have hold := u.view_of_present hr' hp
      rw [hold] at hp ⊢
      exact .inl (mem_usedFrames hr' hy hp)

/-- Under the bound on the number of mappings a clone meets no count at its ceiling. -/
lemma Accounted.canClone (hroom : ∀ f, refs v.mem R f + row v.mem r f ≤ 65534) : CanClone v r := by
  intro x hp
  by_cases hx : x = trampSlot
  · subst hx
    obtain ⟨ht, -⟩ := a.tramp_entry r hr hp
    refine ⟨fun h0 => ?_, fun _ hnt => absurd ht hnt⟩
    obtain ⟨heq, -⟩ := a.sound.tramp ht.1
    rw [← ht.2, h0, Nat.zero_mul] at heq
    exact ht.1 heq
  · obtain ⟨hf0, -⟩ := a.used _ (a.used_sub (mem_usedFrames hr hx hp))
    refine ⟨hf0, fun _ _ => ?_⟩
    have := hroom (pteFrame (view v.mem r x))
    rw [a.counted hr hx hp]
    omega

lemma Accounted.forked (k : Forked v v' R r g) :
    Balanced v v' R (insert g R) := by
  have hnt : ∀ f, ¬ v'.isTramp f → ¬ v.isTramp f := fun f h ht => h (isTramp_of_eq k.tramp_eq ht)
  -- entries of the source and of the other spaces
  have hold : ∀ r' ∈ R, ∀ x, view v'.mem r' x = sharedEntry (view v.mem r' x) ∨
      view v'.mem r' x = view v.mem r' x := by
    intro r' hr' x
    by_cases hrr : r' = r
    · exact .inl (hrr ▸ k.src_view x)
    · exact .inr (k.other r' hr' hrr x)
  have htrEntry : ∀ r' ∈ R, present (view v.mem r' trampSlot) →
      sharedEntry (view v.mem r' trampSlot) = view v.mem r' trampSlot := by
    intro r' hr' hp
    rw [sharedEntry, if_neg]
    rintro ⟨-, hw⟩
    rw [(a.tramp_entry r' hr' hp).2.1] at hw
    exact Bool.false_ne_true hw
  refine ⟨k.sound, k.max_eq, k.tramp_eq, fun f hf0 hf h => ?_, fun r' hr' hp => ?_, ?_⟩
  · have hle := k.slack_le f hf0 hf h
    rw [a.hit_tramp hr (hnt f h)] at hle
    have hge := k.slack_ge f hf0 hf h
    push_cast at hle
    linarith
  · rcases Finset.mem_insert.mp hr' with rfl | hr'
    · rcases k.dst_view trampSlot with h0 | ⟨hps, hc⟩ | ⟨-, ht, heq⟩
      · rw [h0] at hp
        simp at hp
      · obtain ⟨h1, h2, h3⟩ := a.tramp_entry r hr hps
        rw [hc, pteFrame_childEntry, write_childEntry, childEntry, cow_leafEntry, childFlags, h2, h3]
        exact ⟨isTramp_of_eq k.tramp_eq h1, rfl, by decide⟩
      · rw [heq]
        exact trampLeaf_entry ht
    · have hsame : view v'.mem r' trampSlot = view v.mem r' trampSlot := by
        rcases hold r' hr' trampSlot with hs | hs
        · rw [hs, present_sharedEntry] at hp
          rw [hs, htrEntry r' hr' hp]
        · exact hs
      rw [hsame] at hp ⊢
      obtain ⟨h1, h2⟩ := a.tramp_entry r' hr' hp
      exact ⟨isTramp_of_eq k.tramp_eq h1, h2⟩
  · rintro f (hf | ⟨r', hr', x, hx, hp, rfl⟩)
    · exact table_used k.sound k.max_eq k.used hf
    · left
      rcases Finset.mem_insert.mp hr' with rfl | hr'
      · rcases k.dst_view x with h0 | ⟨hps, hc⟩ | ⟨hxt, -⟩
        · rw [h0] at hp
          simp at hp
        · rw [hc, pteFrame_childEntry]
          exact mem_usedFrames hr hx hps
        · exact absurd hxt hx
      · rcases hold r' hr' x with hs | hs
        · rw [hs, present_sharedEntry] at hp
          rw [hs, pteFrame_sharedEntry]
          exact mem_usedFrames hr' hx hp
        · rw [hs] at hp ⊢
          exact mem_usedFrames hr' hx hp

/-- A copy-on-write page is not the trampoline's. -/
lemma Accounted.cow_ne_tramp (hp : present (view v.mem r x))
    (hc : cow (view v.mem r x)) : x ≠ trampSlot := by
  rintro rfl
  rw [(a.tramp_entry r hr hp).2.2] at hc
  exact Bool.false_ne_true hc

lemma Accounted.cowFault (va : ℕ) :
    Balanced v (pmapHandleCowFault v (r * pageSize) va).2 R R := by
  rcases pmapHandleCowFault_spec a.sound hr va with ⟨-, g⟩ | ⟨-, -, hp, hc, ⟨-, w⟩ | ⟨-, g, m⟩⟩
  · exact a.grown g
  · have hx := a.cow_ne_tramp hr hp hc
    generalize (pmapHandleCowFault v (r * pageSize) va).2 = v' at w ⊢
    generalize vaSlot va = x at hp hc w hx
    have htr : v.trampPhys ≠ 0 → v'.trampPhys = v.trampPhys := fun _ => w.tramp_eq
    refine ⟨w.sound, by rw [w.pmm_eq], htr, fun f _ _ _ => ?_, fun r' hr' hp' => ?_, ?_⟩
    · rw [w.slack_eq, hit_congr (present_cowReuse _) (pteFrame_cowReuse _)]
      ring
    · rw [w.view_eq r' hr', if_neg fun h => hx h.2.symm] at hp' ⊢
      obtain ⟨h1, h2⟩ := a.tramp_entry r' hr' hp'
      exact ⟨isTramp_of_eq htr h1, h2⟩
    · rintro f (hf | ⟨r', hr', y, hy, hp', rfl⟩)
      · rw [w.walks.tables_eq] at hf
        exact .inl (.inl hf)
      · left
        rw [w.view_eq r' hr'] at hp' ⊢
        split_ifs at hp' ⊢
        · rw [pteFrame_cowReuse]
          exact mem_usedFrames hr hx hp
        · exact mem_usedFrames hr' hy hp'
  · have hx := a.cow_ne_tramp hr hp hc
    generalize (pmapHandleCowFault v (r * pageSize) va).2 = v' at m ⊢
    generalize vaSlot va = x at hp hc m hx
    have htr : v.trampPhys ≠ 0 → v'.trampPhys = v.trampPhys := fun _ => m.tramp_eq
    refine ⟨m.sound, m.max_eq, htr, fun f _ hf h => ?_, fun r' hr' hp' => ?_, ?_⟩
    · exact m.slack_eq f hf fun ht => h (isTramp_of_eq htr ht)
    · rw [m.view_eq r' hr', if_neg fun h => hx h.2.symm] at hp' ⊢
      obtain ⟨h1, h2⟩ := a.tramp_entry r' hr' hp'
      exact ⟨isTramp_of_eq htr h1, h2⟩
    · rintro f (hf | ⟨r', hr', y, hy, hp', rfl⟩)
      · rw [m.walks.tables_eq] at hf
        exact .inl (.inl hf)
      · rw [m.view_eq r' hr'] at hp' ⊢
        split_ifs at hp' ⊢
        · rw [m.frame_new]
          exact .inr ⟨m.fresh, m.ne_zero, m.lt_max⟩
        · exact .inl (mem_usedFrames hr' hy hp')

lemma Accounted.destroyed (d : Destroyed v v' R r) :
    Balanced v v' R (R.erase r) := by
  have htr : v.trampPhys ≠ 0 → v'.trampPhys = v.trampPhys := fun _ => d.tramp_eq
  refine ⟨d.sound, d.max_eq, htr, fun f _ hf h => ?_, fun r' hr' hp => ?_, ?_⟩
  · rw [d.slack_eq f hf, a.hit_tramp hr fun ht => h (isTramp_of_eq htr ht)]
    push_cast
    ring
  · rw [d.view_eq r' hr'] at hp ⊢
    obtain ⟨h1, h2⟩ := a.tramp_entry r' (Finset.mem_of_mem_erase hr') hp
    exact ⟨isTramp_of_eq htr h1, h2⟩
  · rintro f (hf | ⟨r', hr', x, hx, hp, rfl⟩)
    · exact .inl (.inl (d.tables_sub f hf))
    · rw [d.view_eq r' hr'] at hp ⊢
      exact .inl (mem_usedFrames (Finset.mem_of_mem_erase hr') hx hp)

end

lemma insert_root {p : ℕ} (hs : Sound v' (insert g R)) (hp : p = g * pageSize) :
    (if p = 0 then R else insert (p / pageSize) R) = insert g R := by
  have hne := hs.root_ne_zero (Finset.mem_insert_self g R)
  rw [hp, if_neg hne, Nat.mul_div_cancel g (by decide)]

/-- **Every call keeps the books.** -/
theorem Accounted.step (a : Accounted v₀ v R U) {op : PmapOp} (hop : op.inUserHalf)
    (hstep : PmapStep v R op v' R') : Balanced v v' R R' := by
  cases hstep with
  | create =>
    rcases pmapCreate_spec a.sound with ⟨h0, g⟩ | ⟨g, hg, c⟩
    · rw [if_pos h0]
      exact a.grown g
    · rw [insert_root c.sound hg]
      exact a.created c
  | mapFresh hr hva htr hflags => exact a.mapFreshPage hr hva htr hflags
  | unmap hr h => exact a.unmapped hr ((pmapUnmapUserRangeEx_spec a.sound hr hop true).1 _ _ h)
  | clone hr hroom =>
    rcases pmapCloneUserSpace_spec a.sound hr (a.canClone hr hroom) with ⟨h0, g⟩ | ⟨g, hg, k⟩
    · rw [if_pos h0]
      exact a.grown g
    · rw [insert_root k.sound hg]
      exact a.forked hr k
  | cowFault hr => exact a.cowFault hr _
  | destroy hr => exact a.destroyed hr (pmapDestroyUserSpace_spec a.sound hr)

end step

/-- **Every run keeps the books.** -/
theorem PmapRun.accounted {v₀ v : Vm} {R : Finset ℕ} {U : Set ℕ} (h0 : Sound v₀ ∅)
    (hrun : PmapRun v₀ PmapOp.inUserHalf v R U) : Accounted v₀ v R U := by
  induction hrun with
  | start =>
    have hempty : tables v₀.mem ∅ = ∅ := Set.eq_empty_of_forall_notMem fun f ⟨r, hr, _⟩ => by simp at hr
    refine ⟨h0, rfl, fun f _ _ _ => ?_, by simp, ?_, by simp⟩
    · have htab : tabs v₀.mem ∅ f = 0 := tabs_of_notMem (by rw [hempty]; exact Set.notMem_empty f)
      simp [slack, refs, htab]
    · rintro f (hf | ⟨r, hr, _⟩)
      · rwa [hempty] at hf
      · simp at hr
  | step _ _ hP hstep ih => exact ih.balanced (ih.step hP hstep)

/-- **Frame accounting.** In every run that unmaps in the user half only, a mapped frame has one
reference per entry, and once the last address space is destroyed every frame the run has used is
free again. -/
theorem frame_accounting {v₀ v : Vm} {R : Finset ℕ} {U : Set ℕ} (h₀ : Sound v₀ ∅)
    (hrun : PmapRun v₀ PmapOp.inUserHalf v R U) : FrameAccounting v R U := by
  have a := hrun.accounted h₀
  refine ⟨fun r hr x hx hp => a.counted hr hx hp, ?_⟩
  rintro rfl f hf
  obtain ⟨hf0, hlt, hzero⟩ := a.used f hf
  by_cases ht : v.isTramp f
  · exact .inr ht
  · left
    have hs := a.slack_eq f hf0 hlt ht
    have htab : tabs v.mem ∅ f = 0 := tabs_of_notMem fun ⟨r, hr, _⟩ => by simp at hr
    rw [hzero] at hs
    simp only [slack, refs, Finset.sum_empty, htab, Nat.cast_zero, sub_zero] at hs
    exact mem_freeSet.mpr ⟨hlt, by exact_mod_cast hs⟩

/-! ## A small machine -/

/-- One usable entry of 32 pages, the first three of which hold the descriptors. -/
def bootMap : List MemmapEntry := [⟨0x100000, 0x20000, .usable, megabyte_lt, by decide⟩]

/-- Its allocator. -/
def bootPmm : Pmm := (pmmInit bootMap).get (by decide +kernel)

lemma bootPmm_inv : bootPmm.Inv := by
  have hgood : GoodMap bootMap := by
    refine ⟨?_, List.pairwise_singleton _ _⟩
    simp only [bootMap, List.mem_singleton, forall_eq]
    exact ⟨⟨0x100, rfl⟩, ⟨32, rfl⟩⟩
  have hinit : pmmInit bootMap = some bootPmm := by rw [bootPmm, Option.some_get]
  exact pmmInit_inv hgood (by decide) hinit

/-- The machine after `pmm_init`, before the first address space. -/
def bootVm : Vm where
  pmm := bootPmm
  mem := fun _ _ => 0#64
  kernelPml4 := 0
  trampPhys := 0

/-- Without address spaces only the allocator matters. -/
lemma sound_empty {v : Vm} (hinv : v.pmm.Inv) (ht : v.trampPhys = 0) : Sound v ∅ := by
  have hnone : ∀ {r}, ¬ r ∈ (∅ : Finset ℕ) := fun {r} => Finset.notMem_empty r
  have htables : ∀ f, f ∉ tables v.mem ∅ := by
    rintro f ⟨r, hr, -⟩
    exact hnone (Finset.mem_coe.mp hr)
  refine ⟨hinv, ⟨fun _ _ _ _ _ hr => (hnone (Finset.mem_coe.mp hr)).elim, fun hr => (hnone hr).elim,
    fun hr => (hnone hr).elim, fun hr => (hnone hr).elim⟩, fun f hf => (htables f hf).elim, fun f _ _ => ?_,
    fun hne => (hne ht).elim, fun hr => (hnone hr).elim⟩
  simp [slack, refs, tabs_of_notMem (htables f)]

lemma bootVm_sound : Sound bootVm ∅ := sound_empty bootPmm_inv rfl

/-- An address space is made, gets a page, and is destroyed again. -/
theorem frame_accounting_boot :
    ∃ U, 259 ∈ U ∧ FrameAccounting (pmapDestroyUserSpace (mapFreshPage (pmapCreate bootVm).2
      (259 * pageSize) 0x400000 pageWrite) (259 * pageSize)) ∅ U := by
  have hroot : (pmapCreate bootVm).1 = 259 * pageSize := by decide +kernel
  have h1 : PmapStep bootVm ∅ .create (pmapCreate bootVm).2 {259} := by
    simpa [hroot, pageSize] using PmapStep.create (v := bootVm) (R := ∅)
  have hr : 259 ∈ ({259} : Finset ℕ) := Finset.mem_singleton_self 259
  have r0 : PmapRun bootVm PmapOp.inUserHalf bootVm ∅ ∅ := .start
  have r1 := r0.step .create trivial h1
  have r2 := r1.step (.mapFresh 259 0x400000 pageWrite) trivial
    (.mapFresh hr (by decide) (by decide) (by decide))
  have r3 := r2.step (.destroy 259) trivial (.destroy hr)
  refine ⟨_, ?_, frame_accounting bootVm_sound r3⟩
  exact .inl (.inl (.inr (.inl (root_mem_tables hr))))

/-- Two address spaces that map a frame are two entries. -/
lemma two_le_refs {m : ℕ → ℕ → BitVec 64} {R : Finset ℕ} {r s f : ℕ} {x y : Slot} (hr : r ∈ R)
    (hs : s ∈ R) (hne : r ≠ s) (hx : hit (view m r x) f = 1) (hy : hit (view m s y) f = 1) :
    2 ≤ refs m R f := by
  have hle : hit (view m r x) f + hit (view m s y) f ≤ refs m R f :=
    add_le_sum_sum hr hs (fun h => hne h.1.symm) fun r y => hit (view m r y) f
  omega

/-- The trampoline's address with a bit above the walked ones. -/
def aliasVa : ℕ := 2 ^ 48 + signalTrampVa

/-- Unmap the page at `aliasVa`. -/
def aliasUnmap (v : Vm) (r : ℕ) : Vm :=
  (pmapUnmapUserRange 1 v (r * pageSize) aliasVa pageSize).getD v

/-- Two address spaces are made, and both unmap the trampoline under its alias. -/
def aliasFreed : Vm := aliasUnmap (aliasUnmap (pmapCreate (pmapCreate bootVm).2).2 259) 264

/-- The first one maps a fresh page, and a third one is made. -/
def aliasEnd : Vm := (pmapCreate (mapFreshPage aliasFreed (259 * pageSize) 0x70001000 pageWrite)).2

lemma aliasEnd_run : ∃ U, PmapRun bootVm (fun _ => True) aliasEnd {268, 264, 259} U := by
  have hroot1 : (pmapCreate bootVm).1 = 259 * pageSize := by decide +kernel
  have hroot2 : (pmapCreate (pmapCreate bootVm).2).1 = 264 * pageSize := by decide +kernel
  have hroot3 : (pmapCreate (mapFreshPage aliasFreed (259 * pageSize) 0x70001000 pageWrite)).1 =
      268 * pageSize := by decide +kernel
  have hunmap : ∀ {v r}, (pmapUnmapUserRange 1 v (r * pageSize) aliasVa pageSize).isSome →
      pmapUnmapUserRange 1 v (r * pageSize) aliasVa pageSize = some (aliasUnmap v r) := by
    intro v r h
    obtain ⟨w, hw⟩ := Option.isSome_iff_exists.mp h
    rw [aliasUnmap, hw, Option.getD_some]
  have h1 : PmapStep bootVm ∅ .create (pmapCreate bootVm).2 {259} := by
    simpa [hroot1, pageSize] using PmapStep.create (v := bootVm) (R := ∅)
  have h2 : PmapStep (pmapCreate bootVm).2 {259} .create (pmapCreate (pmapCreate bootVm).2).2
      {264, 259} := by
    simpa [hroot2, pageSize] using PmapStep.create (v := (pmapCreate bootVm).2)
  have r0 : PmapRun bootVm (fun _ => True) bootVm ∅ ∅ := .start
  have r2 := (r0.step .create trivial h1).step .create trivial h2
  have r3 := r2.step (.unmap 259 aliasVa pageSize) trivial
    (.unmap (by decide) (hunmap (by decide +kernel)))
  have r4 := r3.step (.unmap 264 aliasVa pageSize) trivial
    (.unmap (by decide) (hunmap (by decide +kernel)))
  have r5 := r4.step (.mapFresh 259 0x70001000 pageWrite) trivial
    (.mapFresh (by decide) (by decide) (by decide) (by decide))
  have h6 : PmapStep (mapFreshPage aliasFreed (259 * pageSize) 0x70001000 pageWrite) {264, 259} .create
      aliasEnd {268, 264, 259} := by
    have h := PmapStep.create (v := mapFreshPage aliasFreed (259 * pageSize) 0x70001000 pageWrite)
      (R := {264, 259})
    rw [hroot3, if_neg (by decide), Nat.mul_div_cancel _ (by decide)] at h
    exact h
  exact ⟨_, r5.step .create trivial h6⟩

/-- **Outside the user half the books do not balance.** The trampoline page has lost its references
and is mapped as a fresh page, while a new address space still gets it as its trampoline: two entries
and one reference. -/
theorem aliasUnmap_breaks_accounting :
    ¬ ∀ v₀ v R U, Sound v₀ ∅ → PmapRun v₀ (fun _ => True) v R U → FrameAccounting v R U := by
  intro hall
  obtain ⟨U, hrun⟩ := aliasEnd_run
  have hacc := (hall _ _ _ _ bootVm_sound hrun).counted 259 (by decide) (vaSlot 0x70001000) (by decide)
    (by decide +kernel)
  have hframe : pteFrame (view aliasEnd.mem 259 (vaSlot 0x70001000)) = 260 := by decide +kernel
  have hrc : rc aliasEnd.pmm 260 = 1 := by decide +kernel
  have htwo : 2 ≤ refs aliasEnd.mem {268, 264, 259} 260 :=
    two_le_refs (r := 259) (s := 268) (x := vaSlot 0x70001000) (y := trampSlot) (by decide) (by decide)
      (by decide) (by decide +kernel) (by decide +kernel)
  rw [hframe, hrc] at hacc
  omega

end Chimera
