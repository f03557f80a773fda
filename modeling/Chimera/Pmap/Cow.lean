import Chimera.Pmap.Map

/-!
# Protection, copy-on-write faults and user accesses

Three ways to change what an address space may do with its pages. `pmap_protect_user_range` rewrites
the flags of a range (`Protected`). `pmap_handle_cow_fault` makes a page writable: in place if nobody
else holds its frame, otherwise by moving it to a fresh copy (`Moved`). A user store writes one byte
of a writable page and touches no table (`Touched`).
-/

namespace Chimera

open Lib
open Function (update update_of_ne)

variable {v : Vm} {R : Finset ℕ} {r : ℕ}

/-! ## Protection -/

/-- The entry `pmap_protect_user_range` leaves for `e`. -/
def protectedEntry (prot : ℕ) (e : BitVec 64) : BitVec 64 :=
  if present e then protectEntry e prot else e

/-- From `v` to `t` the pages `X` of address space `r` got the protection `prot`. -/
structure Protected (v t : Vm) (R : Finset ℕ) (r : ℕ) (X : Set Slot) (prot : ℕ) : Prop where
  sound : Sound t R
  changed : ∀ x ∈ X, view t.mem r x = protectedEntry prot (view v.mem r x)
  kept : ∀ r' ∈ R, ∀ x, ¬ (r' = r ∧ x ∈ X) → view t.mem r' x = view v.mem r' x
  walks : SameWalks v.mem t.mem R
  data_eq : ∀ f, f ∉ tables v.mem R → t.mem f = v.mem f
  pmm_eq : t.pmm = v.pmm
  tramp_eq : t.trampPhys = v.trampPhys

lemma Protected.refl (h : Sound v R) (r prot : ℕ) : Protected v v R r ∅ prot :=
  ⟨h, fun _ hx => hx.elim, fun _ _ _ _ => rfl, fun _ _ _ _ => rfl, fun _ _ => rfl, rfl, rfl⟩

lemma user_protectEntry (e : BitVec 64) (prot : ℕ) : user (protectEntry e prot) = true := by
  unfold protectEntry
  split_ifs <;> simp [user, pagePresent, pageUser, pageWrite, pageNx, ptePhysMask]

lemma Protected.page {t : Vm} {X : Set Slot} {prot : ℕ} (c : Protected v t R r X prot) (hr : r ∈ R)
    {va : ℕ} (hva : va < userEnd) (hx : vaSlot va ∉ X) :
    Protected v (protectPage (r * pageSize) prot va t) R r (insert (vaSlot va) X) prot := by
  set x := vaSlot va with hxdef
  have hout : view t.mem r x = view v.mem r x := c.kept r hr x fun h => hx h.2
  have habsent : ¬ present (view t.mem r x) → Protected v t R r (insert x X) prot := by
    intro habs
    refine ⟨c.sound, ?_, fun r' hr' y hy => c.kept r' hr' y fun h => hy ⟨h.1, .inr h.2⟩, c.walks,
      c.data_eq, c.pmm_eq, c.tramp_eq⟩
    rintro y (rfl | hy)
    · rw [hout] at habs ⊢
      rw [protectedEntry, if_neg habs]
    · exact c.changed y hy
  unfold protectPage
  rw [c.sound.getPtePtr_eq hr hva, ← hxdef]
  cases hpt : tableOf t.mem r x with
  | none =>
    refine habsent ?_
    rw [view, hpt, Option.elim_none]
    simp
  | some pt =>
    simp only [Option.map_some]
    rw [← view_of_table hpt]
    by_cases hp : present (view t.mem r x) = true
    swap
    · rw [if_neg hp]
      exact habsent hp
    rw [if_pos hp]
    have hw := c.sound.rewrite hr hpt (w := protectEntry (view t.mem r x) prot) fun _ =>
      ⟨user_protectEntry _ _, hp, pteFrame_protectEntry _ _⟩
    generalize t.setWord pt (slotLast x) (protectEntry (view t.mem r x) prot) = t' at hw ⊢
    refine ⟨hw.sound, ?_, fun r' hr' y hy => ?_, fun r' hr' q hq => ?_, fun f hf => ?_,
      hw.pmm_eq.trans c.pmm_eq, hw.tramp_eq.trans c.tramp_eq⟩
    · intro y hy
      rw [hw.view_eq r hr y]
      split_ifs with hyx
      · rw [hyx.2, ← hout, protectedEntry, if_pos hp]
      · rcases hy with hy | hy
        · exact absurd ⟨rfl, hy⟩ hyx
        · exact c.changed y hy
    · rw [hw.view_eq r' hr' y, if_neg fun h => hy ⟨h.1, .inl h.2⟩]
      exact c.kept r' hr' y fun h => hy ⟨h.1, .inr h.2⟩
    · exact (hw.walks r' hr' q hq).trans (c.walks r' hr' q hq)
    · rw [hw.data_eq f (by rwa [c.walks.tables_eq]), c.data_eq f hf]

/-- **What `pmap_protect_user_range` does**: nothing, or it rewrites the pages of a range in the user
half. -/
theorem pmapProtectUserRange_spec (h : Sound v R) (hr : r ∈ R) (va len prot : ℕ) :
    ∃ X ⊆ span (va / pageSize * pageSize) (u64 (va + len + 0xFFF) / pageSize * pageSize),
      Protected v (pmapProtectUserRange v (r * pageSize) va len prot).2 R r X prot ∧
      ((pmapProtectUserRange v (r * pageSize) va len prot).1 = true →
        X = span (va / pageSize * pageSize) (u64 (va + len + 0xFFF) / pageSize * pageSize)) := by
  unfold pmapProtectUserRange
  set a := va / pageSize * pageSize with hadef
  set b := u64 (va + len + 0xFFF) / pageSize * pageSize with hbdef
  by_cases hnull : r * pageSize = 0 ∨ len = 0
  · simp only [if_pos hnull]
    exact ⟨∅, Set.empty_subset _, Protected.refl h r prot, fun hx => by simp at hx⟩
  simp only [if_neg hnull]
  by_cases hend : b ≥ userEnd
  · simp only [if_pos hend]
    exact ⟨∅, Set.empty_subset _, Protected.refl h r prot, fun hx => by simp at hx⟩
  simp only [if_neg hend]
  refine ⟨span a b, subset_rfl, ?_, fun _ => rfl⟩
  exact forUpTo_span (fun X t => Protected v t R r X prot)
    (Nat.dvd_mul_left _ _) (Nat.dvd_mul_left _ _) (not_le.mp hend).le (Protected.refl h r prot)
    fun va hva X t hx c => c.page hr hva hx

/-! ## Copy-on-write faults -/

/-- From `v` to `v'` slot `x` of address space `r` moved to the fresh frame `g`, with its contents. -/
structure Moved (v v' : Vm) (R : Finset ℕ) (r : ℕ) (x : Slot) (g : ℕ) : Prop where
  sound : Sound v' R
  fresh : rc v.pmm g = 0
  lt_max : g < v.pmm.maxPhysPage
  ne_zero : g ≠ 0
  view_eq : ∀ r' ∈ R, ∀ y, view v'.mem r' y =
    if r' = r ∧ y = x then cowMove (g * pageSize) (view v.mem r x) else view v.mem r' y
  frame_new : pteFrame (cowMove (g * pageSize) (view v.mem r x)) = g
  walks : SameWalks v.mem v'.mem R
  data_eq : ∀ f, f ∉ tables v.mem R → f ≠ g → v'.mem f = v.mem f
  slack_eq : ∀ f < v.pmm.maxPhysPage, ¬ v.isTramp f → slack v' R f = slack v R f
  max_eq : v'.pmm.maxPhysPage = v.pmm.maxPhysPage
  tramp_eq : v'.trampPhys = v.trampPhys

/-- The copying branch of the fault handler. -/
lemma moved_of_copy (h : Sound v R) (hr : r ∈ R) {x : Slot} {pt : ℕ} (hpt : tableOf v.mem r x = some pt)
    (hp : present (view v.mem r x)) (hmany : 1 < rc v.pmm (pteFrame (view v.mem r x))) {g : ℕ}
    {p : Pmm} (a : NewPage v.pmm p g) {v' : Vm}
    (hv' : v' = (({ v with pmm := p }.setFrame g (v.mem (pteFrame (view v.mem r x)))).release
      (ptePhys (view v.mem r x))).setWord pt (slotLast x) (cowMove (g * pageSize) (view v.mem r x))) :
    Moved v v' R r x g := by
  obtain ⟨hgt, hgm, hgtr⟩ := h.fresh a.lt a.free
  have hold : pteFrame (view v.mem r x) ≠ g := hgm r hr x hp
  have hframe : pteFrame (cowMove (g * pageSize) (view v.mem r x)) = g := by rw [pteFrame_cowMove, a.frame]
  have hdiv : ptePhys (view v.mem r x) / pageSize = pteFrame (view v.mem r x) := rfl
  -- the copy is data in a frame nobody uses
  have ht := h.touch (by rintro f rfl; exact hgt)
    (update v.mem g (v.mem (pteFrame (view v.mem r x)))) (fun f hf => update_of_ne hf _ _)
  have hpt1 : tableOf (update v.mem g (v.mem (pteFrame (view v.mem r x)))) r x = some pt := by
    rw [← hpt]
    exact ht.walks.tableOf_eq hr
  have hmem : v'.mem = update (update v.mem g (v.mem (pteFrame (view v.mem r x)))) pt
      (update (update v.mem g (v.mem (pteFrame (view v.mem r x))) pt) (slotLast x)
        (cowMove (g * pageSize) (view v.mem r x))) := by
    rw [hv']
    rfl
  have htables1 : tables (update v.mem g (v.mem (pteFrame (view v.mem r x)))) R = tables v.mem R := ht.walks.tables_eq
  obtain ⟨hshape, hwalks1, hview1⟩ := ht.sound.shape.writeLeaf hr hpt1 v'.mem
    (fun _ => ⟨by rw [user_cowMove]; exact h.shape.leaf_user hr hp, by
      rw [hframe]
      exact fun hx => hgt (htables1 ▸ hx)⟩) hmem
  have hview : ∀ r' ∈ R, ∀ y, view v'.mem r' y =
      if r' = r ∧ y = x then cowMove (g * pageSize) (view v.mem r x) else view v.mem r' y := by
    intro r' hr' y
    rw [hview1 r' hr' y]
    split_ifs
    · rfl
    · exact ht.view_eq r' hr' y
  have hwalks : SameWalks v.mem v'.mem R := fun r' hr' q hq => (hwalks1 r' hr' q hq).trans (ht.walks r' hr' q hq)
  have hpmm : v'.pmm = pmmReleasePage p (ptePhys (view v.mem r x)) := by rw [hv']; rfl
  have hmax : v'.pmm.maxPhysPage = v.pmm.maxPhysPage := by rw [hpmm, pmmReleasePage_maxPhysPage, a.max_eq]
  have htr : v'.trampPhys = v.trampPhys := by rw [hv']; rfl
  have hrc' : ∀ f, rc v'.pmm f = if f = g then 1 else
      rc v.pmm f - if pteFrame (view v.mem r x) = f then 1 else 0 := by
    intro f
    rw [hpmm, pmmReleasePage_rc, hdiv, a.rc_eq]
    by_cases hf : f = g
    · subst hf
      rw [if_neg fun h => hold h.symm, if_pos rfl, if_pos rfl]
    · rw [if_neg hf, if_neg hf]
      by_cases hf' : f = pteFrame (view v.mem r x)
      · rw [if_pos hf', if_pos hf'.symm]
      · rw [if_neg hf', if_neg fun h => hf' h.symm, Nat.sub_zero]
  have hslack : ∀ f < v.pmm.maxPhysPage, slack v' R f = slack v R f := by
    intro f hf
    have hrefs := refs_write hr hview f
    have hnew : hit (cowMove (g * pageSize) (view v.mem r x)) f = if f = g then 1 else 0 := by
      rw [hit, hframe, present_cowMove]
      simp [hp, eq_comm]
    have hone : hit (view v.mem r x) f = if pteFrame (view v.mem r x) = f then 1 else 0 := by simp [hit, hp]
    rw [hnew, hone] at hrefs
    unfold slack
    rw [tabs_congr hwalks.tables_eq, hrc']
    by_cases hfg : f = g
    · subst hfg
      rw [if_pos rfl, if_neg hold] at hrefs
      rw [if_pos rfl, a.free]
      omega
    · rw [if_neg hfg] at hrefs ⊢
      by_cases hf' : pteFrame (view v.mem r x) = f
      · rw [if_pos hf'] at hrefs ⊢
        subst hf'
        omega
      · rw [if_neg hf'] at hrefs ⊢
        omega
  refine ⟨⟨?_, hshape, ?_, fun f hf hnt => ?_, fun hne => ?_, fun {r' y} hr' hp' ht' => ?_⟩, a.free, a.lt,
    a.ne_zero, hview, hframe, hwalks, fun f hf hfg => ?_, fun f hf _ => hslack f hf, hmax, htr⟩
  · obtain ⟨L, hL⟩ := a.inv
    rw [hpmm]
    exact hL.release _
  · rw [hwalks.tables_eq, hmax]
    exact h.table_lt
  · rw [hmax] at hf
    rw [hslack f hf]
    exact h.counted f hf (mt (isTramp_congr htr f).mpr hnt)
  · rw [htr] at hne ⊢
    obtain ⟨h1, h2, h3, h4⟩ := h.tramp hne
    refine ⟨h1, by rw [hmax]; exact h2, ?_, by rwa [hwalks.tables_eq]⟩
    rw [hrc']
    split_ifs with hx hb
    · exact one_ne_zero
    · rw [hb] at hmany
      omega
    · exact h3
  · rw [isTramp_congr htr] at ht'
    rw [hview r' hr' y] at hp' ht'
    split_ifs at hp' ht' with hxy
    · rw [hframe] at ht'
      exact absurd ht' hgtr
    · exact h.tramp_slot hr' hp' ht'
  · have hfp : f ≠ pt := fun heq => hf (heq ▸ tableOf_mem_tables hr hpt)
    rw [hmem, update_of_ne hfp, update_of_ne hfg]

/-- **What `pmap_handle_cow_fault` does**: it fails, or makes a copy-on-write page writable, in place
if the frame has one reference at most, as a copy otherwise. -/
theorem pmapHandleCowFault_spec (h : Sound v R) (hr : r ∈ R) (va : ℕ) :
    ((pmapHandleCowFault v (r * pageSize) va).1 = false ∧ Grown v (pmapHandleCowFault v (r * pageSize) va).2 R) ∨
      ((pmapHandleCowFault v (r * pageSize) va).1 = true ∧ va < userEnd ∧
        present (view v.mem r (vaSlot va)) ∧ cow (view v.mem r (vaSlot va)) ∧
        ((rc v.pmm (pteFrame (view v.mem r (vaSlot va))) ≤ 1 ∧
            Rewritten v (pmapHandleCowFault v (r * pageSize) va).2 R r (vaSlot va)
              (cowReuse (view v.mem r (vaSlot va)))) ∨
          (1 < rc v.pmm (pteFrame (view v.mem r (vaSlot va))) ∧
            ∃ g, Moved v (pmapHandleCowFault v (r * pageSize) va).2 R r (vaSlot va) g))) := by
  unfold pmapHandleCowFault
  by_cases hva : r * pageSize = 0 ∨ va ≥ userEnd
  · rw [if_pos hva]
    exact .inl ⟨rfl, Grown.refl h⟩
  have hlt : va < userEnd := by omega
  rw [if_neg hva, h.getPtePtr_eq hr hlt]
  set x := vaSlot va
  cases hpt : tableOf v.mem r x with
  | none => exact .inl ⟨rfl, Grown.refl h⟩
  | some pt =>
    simp only [Option.map_some]
    rw [← view_of_table hpt]
    by_cases hpc : present (view v.mem r x) = true ∧ cow (view v.mem r x) = true
    swap
    · rw [if_pos (by rwa [← not_and_or])]
      exact .inl ⟨rfl, Grown.refl h⟩
    obtain ⟨hp, hc⟩ := hpc
    have hdiv : ptePhys (view v.mem r x) / pageSize = pteFrame (view v.mem r x) := rfl
    rw [if_neg (by simp [hp, hc]), pmmGetRefcount_eq, hdiv]
    by_cases hmany : rc v.pmm (pteFrame (view v.mem r x)) > 1
    · rw [if_pos hmany]
      obtain ⟨hfail, l⟩ | ⟨g, hg, a⟩ := allocPage_cases h.inv
      · rw [if_pos hfail]
        exact .inl ⟨rfl, grown_of_allocFailed h l⟩
      · rw [hg, if_neg (by rw [a.ok]; exact Bool.false_ne_true), a.frame]
        refine .inr ⟨rfl, hlt, hp, hc, .inr ⟨hmany, g, ?_⟩⟩
        have hptg : pt ≠ g := fun heq => (h.fresh a.lt a.free).1 (heq ▸ tableOf_mem_tables hr hpt)
        refine moved_of_copy h hr hpt hp hmany a ?_
        have hword : (({ v with pmm := (pmmAllocPage v.pmm).2 }.setFrame g
            (v.mem (pteFrame (view v.mem r x)))).release (ptePhys (view v.mem r x))).mem pt (slotLast x) =
            view v.mem r x := by
          rw [view_of_table hpt, release_mem, Vm.setFrame]
          dsimp only
          rw [update_of_ne hptg]
        rw [hword]
    · rw [if_neg hmany]
      refine .inr ⟨rfl, hlt, hp, hc, .inl ⟨by omega, ?_⟩⟩
      exact h.rewrite hr hpt fun _ => ⟨by
        rw [user_cowReuse]
        exact h.shape.leaf_user hr hp, hp, pteFrame_cowReuse _⟩

/-! ## User accesses -/

/-- **A user store** needs a writable page, and touches its frame only. -/
theorem userStore_spec (h : Sound v R) (hr : r ∈ R) {va : ℕ} {b : BitVec 8} {v' : Vm}
    (hs : userStore v (r * pageSize) va b = some v') :
    va < userEnd ∧ present (view v.mem r (vaSlot va)) ∧ write (view v.mem r (vaSlot va)) ∧
      v' = v.setByteAt (pteFrame (view v.mem r (vaSlot va))) (va % pageSize) b ∧
      Touched v v' R {pteFrame (view v.mem r (vaSlot va))} := by
  unfold userStore at hs
  by_cases hva : va ≥ userEnd
  · rw [if_pos hva] at hs
    cases hs
  have hlt : va < userEnd := by omega
  rw [if_neg hva, h.getPtePtr_eq hr hlt] at hs
  cases hpt : tableOf v.mem r (vaSlot va) with
  | none =>
    rw [hpt] at hs
    cases hs
  | some pt =>
    rw [hpt] at hs
    simp only [Option.map_some] at hs
    rw [← view_of_table hpt] at hs
    split_ifs at hs with hc
    cases hs
    refine ⟨hlt, hc.1, hc.2.2, rfl, h.touch ?_ _ fun f hf => update_of_ne hf _ _⟩
    rintro f rfl
    exact h.shape.leaf_frame hr hc.1

/-- What a user load reads. -/
lemma userLoad_eq (h : Sound v R) (hr : r ∈ R) (va : ℕ) : userLoad v (r * pageSize) va =
      if va < userEnd ∧ present (view v.mem r (vaSlot va)) then
        some (getByte (v.mem (pteFrame (view v.mem r (vaSlot va))) (va % pageSize / 8))
          (va % pageSize % 8))
      else none := by
  unfold userLoad
  by_cases hva : va ≥ userEnd
  · rw [if_pos hva, if_neg fun hx => absurd hx.1 (by omega)]
  have hlt : va < userEnd := by omega
  rw [if_neg hva, h.getPtePtr_eq hr hlt]
  cases hpt : tableOf v.mem r (vaSlot va) with
  | none =>
    rw [Option.map_none, if_neg]
    rintro ⟨-, hp⟩
    rw [view, hpt, Option.elim_none] at hp
    simp at hp
  | some pt =>
    simp only [Option.map_some]
    rw [← view_of_table hpt]
    by_cases hp : present (view v.mem r (vaSlot va)) = true
    · rw [if_pos ⟨hp, h.shape.leaf_user hr hp⟩, if_pos ⟨hlt, hp⟩]
    · rw [if_neg fun hx => hp hx.1, if_neg fun hx => hp hx.2]

/-- **An address space that keeps its entries and the contents of its frames reads the same.** -/
lemma userLoad_congr {v' : Vm} {R' : Finset ℕ} (h : Sound v R) (h' : Sound v' R') (hr : r ∈ R)
    (hr' : r ∈ R') (hview : ∀ x, view v'.mem r x = view v.mem r x)
    (hdata : ∀ x, present (view v.mem r x) →
      v'.mem (pteFrame (view v.mem r x)) = v.mem (pteFrame (view v.mem r x))) (va : ℕ) :
    userLoad v' (r * pageSize) va = userLoad v (r * pageSize) va := by
  rw [userLoad_eq h hr, userLoad_eq h' hr', hview]
  by_cases hc : va < userEnd ∧ present (view v.mem r (vaSlot va)) = true
  · rw [if_pos hc, if_pos hc, hdata _ hc.2]
  · rw [if_neg hc, if_neg hc]

end Chimera
