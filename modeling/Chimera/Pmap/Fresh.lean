import Chimera.Pmap.Map

/-!
# Mapping a fresh page

Most pages of an address space are made in one way: a page from the allocator is filled and mapped,
and given back when the mapping is refused. `mapFresh_spec` is the outcome of this pattern: tables
grown at most (`Grown`), or one slot that maps a page nobody used before (`Filled`).
-/

namespace Chimera

variable {v : Vm} {R : Finset ℕ} {r : ℕ}

/-- A page from the allocator has one reference that nothing accounts for yet. -/
lemma Sound.alloc (h : Sound v R) {g : ℕ} {p : Pmm} (a : NewPage v.pmm p g) : Sound { v with pmm := p } R ∧
      ∀ f, slack { v with pmm := p } R f = slack v R f + if f = g then 1 else 0 := by
  have hslack : ∀ f, slack { v with pmm := p } R f = slack v R f + if f = g then 1 else 0 := by
    intro f
    unfold slack
    rw [a.rc_eq]
    by_cases hf : f = g
    · subst hf
      rw [if_pos rfl, if_pos rfl, a.free]
      push_cast
      ring
    · rw [if_neg hf, if_neg hf]
      ring
  refine ⟨⟨a.inv, h.shape, fun f hf => a.max_eq.symm ▸ h.table_lt f hf, fun f hf ht => ?_, fun ht => ?_,
    fun hr hp ht => h.tramp_slot hr hp ht⟩, hslack⟩
  · have hc := h.counted f (a.max_eq ▸ hf) ht
    rw [hslack]
    split_ifs <;> linarith
  · obtain ⟨h1, h2, h3, h4⟩ := h.tramp ht
    exact ⟨h1, a.max_eq.symm ▸ h2, by rwa [a.keep h3], h4⟩

/-- From `v` to `v'` slot `x` of address space `r` maps a fresh frame by `w`, with the contents `c`. -/
structure Filled (v v' : Vm) (R : Finset ℕ) (r : ℕ) (x : Slot) (w : BitVec 64) (c : ℕ → BitVec 64) :
    Prop where
  sound : Sound v' R
  fresh : rc v.pmm (pteFrame w) = 0
  lt_max : pteFrame w < v.pmm.maxPhysPage
  ne_zero : pteFrame w ≠ 0
  view_eq : ∀ r' ∈ R, ∀ y, view v'.mem r' y = if r' = r ∧ y = x then w else view v.mem r' y
  contents : v'.mem (pteFrame w) = c
  data_eq : ∀ f, f ∉ tables v'.mem R → v.held f → v'.mem f = v.mem f
  used : ∀ f, rc v.pmm f ≠ 0 → f ∉ tables v.mem R → f ∉ tables v'.mem R
  rc_eq : ∀ f, rc v.pmm f ≠ 0 → rc v'.pmm f = rc v.pmm f - dropped x (view v.mem r x) w f
  slack_eq : ∀ f ≠ 0, f < v.pmm.maxPhysPage → ¬ v.isTramp f →
    slack v' R f = slack v R f + hit (view v.mem r x) f - dropped x (view v.mem r x) w f
  max_eq : v'.pmm.maxPhysPage = v.pmm.maxPhysPage
  tramp_eq : v'.trampPhys = v.trampPhys

/-- **Mapping a fresh page**, from the state `v1` in which the page has been taken and filled. -/
theorem mapFresh_spec (h : Sound v R) (v1 : Vm) (hr : r ∈ R) {g : ℕ} (a : NewPage v.pmm v1.pmm g)
    (hv1 : v1 = { v with pmm := v1.pmm, mem := v1.mem }) (hmem : ∀ f, f ≠ g → v1.mem f = v.mem f)
    (va : ℕ) {flags : BitVec 64} (hflags : flags &&& ptePhysMask = 0#64) {m : ℕ × Vm}
    (hm : m = pmapMapUserPage v1 (r * pageSize) va (g * pageSize) flags) :
    (m.1 = 0 ∧ Grown v (m.2.release (g * pageSize)) R) ∨ (m.1 = g * pageSize ∧ va < userEnd ∧
        Filled v m.2 R r (vaSlot va) (leafEntry (g * pageSize) flags) (v1.mem g)) := by
  obtain ⟨hgt, hgm, hgtr⟩ := h.fresh a.lt a.free
  -- the page has been taken and filled
  obtain ⟨ha, hslackA⟩ := h.alloc a
  have ht := ha.touch (by rintro f rfl; exact hgt) v1.mem fun f hf => hmem f hf
  rw [← hv1] at ht
  have htr : v1.trampPhys = v.trampPhys := by rw [hv1]
  have hview1 : ∀ r' ∈ R, ∀ y, view v1.mem r' y = view v.mem r' y := ht.view_eq
  have hwalks1 : SameWalks v.mem v1.mem R := ht.walks
  have hslack1 : ∀ f, slack v1 R f = slack v R f + if f = g then 1 else 0 := fun f =>
    (ht.slack_eq f).trans (hslackA f)
  have hself : rc v1.pmm g ≠ 0 := by rw [a.self]; exact one_ne_zero
  have hheld : ∀ f, v.held f → f ≠ g ∧ v1.held f := by
    rintro f (hf | hf)
    · exact ⟨a.ne hf, .inl (by rwa [a.keep hf])⟩
    · have hlt := a.lt
      exact ⟨by omega, .inr (a.max_eq.symm ▸ hf)⟩
  have hdiv : g * pageSize / pageSize = g := Nat.mul_div_cancel g (by decide)
  have hone : slack v R g = 0 := by
    have hrefs : refs v.mem R g = 0 ∧ tabs v.mem R g = 0 := by
      have hc := h.counted g a.lt hgtr
      have hfree := a.free
      unfold slack at hc
      omega
    unfold slack
    rw [a.free, hrefs.1, hrefs.2]
    rfl
  rcases mapUserPage_spec ht.sound hr va (g * pageSize) hflags (by
      rw [a.frame, hwalks1.tables_eq]; exact hgt) (fun _ => by rwa [a.frame])
      (fun hx => absurd ((isTramp_congr htr g).mp (a.frame ▸ hx)) hgtr)
      (fun _ _ => by rw [a.frame, hslack1, if_pos rfl, hone]; exact ⟨a.ne_zero, le_rfl⟩)
    with ⟨h0, gr⟩ | ⟨h1, hva, mp⟩
  · rw [← hm] at h0 gr
    refine .inl ⟨h0, ?_⟩
    have hrcg : rc m.2.pmm g = 1 := (gr.rc_eq g hself).trans a.self
    have hslackg : slack m.2 R g = 1 := by rw [gr.slack_eq g a.ne_zero, hslack1, if_pos rfl, hone]; rfl
    have htr2 := gr.tramp_eq.trans htr
    obtain ⟨hsound, -⟩ := gr.sound.release (g * pageSize) (by
      rw [hdiv, isTramp_congr htr2]; exact hgtr) (fun _ => by rw [hdiv, hslackg])
    have hrcr : ∀ f, rc (m.2.release (g * pageSize)).pmm f = if f = g then 0 else rc m.2.pmm f := by
      intro f
      rw [release_pmm, pmmReleasePage_rc, hdiv]
      split_ifs with hf
      · rw [hf, hrcg]
      · rfl
    refine ⟨hsound, fun r' hr' y => (gr.view_eq r' hr' y).trans (hview1 r' hr' y), fun r' hr' q hq f hw => ?_,
      fun f hf hh => ?_, fun f hf hft => ?_, fun f hf => ?_, fun f hf => ?_,
      ((pmmReleasePage_maxPhysPage _ _).trans gr.max_eq).trans a.max_eq, htr2⟩
    · refine gr.walk_mono r' hr' q hq f ?_
      rw [hwalks1 r' hr' q hq]
      exact hw
    · obtain ⟨hfg', hh1⟩ := hheld f hh
      exact (gr.data_eq f hf hh1).trans (hmem f hfg')
    · exact gr.used f (by rwa [a.keep hf]) (by rwa [hwalks1.tables_eq])
    · rw [hrcr, if_neg (a.ne hf), gr.rc_eq f (by rwa [a.keep hf]), a.keep hf]
    · have hsl := gr.slack_eq f hf
      rw [hslack1] at hsl
      by_cases hfg' : f = g
      · subst hfg'
        unfold slack at hsl ⊢
        rw [hrcr, if_pos rfl]
        rw [hrcg, if_pos rfl] at hsl
        rw [release_mem]
        push_cast at hsl ⊢
        linarith
      · rw [if_neg hfg', add_zero] at hsl
        rw [← hsl]
        unfold slack
        rw [hrcr, if_neg hfg', release_mem]
  · rw [← hm] at h1 mp
    refine .inr ⟨h1, hva, ?_⟩
    have hframe : pteFrame (leafEntry (g * pageSize) flags) = g := by rw [pteFrame_leafEntry _ hflags, a.frame]
    have hgt2 : g ∉ tables m.2.mem R := mp.used g hself (by rwa [hwalks1.tables_eq])
    refine ⟨mp.sound, hframe.symm ▸ a.free, hframe.symm ▸ a.lt, hframe.symm ▸ a.ne_zero, fun r' hr' y => ?_,
      ?_, fun f hf hh => ?_, fun f hf hft => ?_, fun f hf => ?_,
      fun f hf0 hf hnt => ?_, mp.max_eq.trans a.max_eq, mp.tramp_eq.trans htr⟩
    · rw [mp.view_eq r' hr' y, hview1 r' hr' y]
    · rw [hframe]
      exact mp.data_eq g hgt2 (.inl hself)
    · obtain ⟨hfg', hh1⟩ := hheld f hh
      exact (mp.data_eq f hf hh1).trans (hmem f hfg')
    · exact mp.used f (by rwa [a.keep hf]) (by rwa [hwalks1.tables_eq])
    · rw [mp.rc_eq f (by rwa [a.keep hf]), a.keep hf, hview1 r hr, Nat.add_zero]
    · have hhit : (hit (leafEntry (g * pageSize) flags) f : ℤ) = if f = g then 1 else 0 := by
        rw [hit, hframe, present_leafEntry]
        by_cases hfg' : f = g
        · simp [hfg']
        · simp [hfg', Ne.symm hfg']
      rw [mp.slack_eq f hf0 (a.max_eq.symm ▸ hf) (mt (isTramp_congr htr f).mp hnt), hview1 r hr, hhit, hslack1]
      push_cast
      ring

end Chimera
