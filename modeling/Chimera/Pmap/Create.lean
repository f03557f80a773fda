import Chimera.Pmap.Map

/-!
# New address spaces

A new PML4 in a fresh frame is an address space without pages (`Planted`), and
`pmap_trampoline_install` then maps the trampoline in it (`Installed`), making the trampoline page
on its first call. Together they are `pmap_create` (`pmapCreate_spec`); `pmap_clone_user_space` puts
its copying loop between the two.
-/

namespace Chimera

open Lib

variable {v v' : Vm} {R : Finset ℕ} {r : ℕ}

/-- A mapped frame has a reference or is not managed. -/
lemma Sound.held (h : Sound v R) (hr : r ∈ R) {x : Slot} (hp : present (view v.mem r x)) :
    v.held (pteFrame (view v.mem r x)) := by
  by_contra hno
  unfold Vm.held at hno
  push Not at hno
  exact (h.fresh hno.2 hno.1).2.1 r hr x hp rfl

/-! ## The trampoline -/

/-- From `v` to `v'` the trampoline was mapped in address space `r`, or nothing was. -/
structure Installed (v v' : Vm) (R : Finset ℕ) (r : ℕ) : Prop where
  sound : Sound v' R
  view_eq : ∀ r' ∈ R, ∀ y, ¬ (r' = r ∧ y = trampSlot) → view v'.mem r' y = view v.mem r' y
  tramp_view : view v'.mem r trampSlot = view v.mem r trampSlot ∨
    (v'.trampPhys ≠ 0 ∧ view v'.mem r trampSlot = leafEntry v'.trampPhys pageUser)
  data_eq : ∀ f, rc v.pmm f ≠ 0 → f ∉ tables v.mem R → v'.mem f = v.mem f
  used : ∀ f, rc v.pmm f ≠ 0 → f ∉ tables v.mem R → f ∉ tables v'.mem R
  slack_eq : ∀ f ≠ 0, f < v.pmm.maxPhysPage → ¬ v'.isTramp f →
    slack v' R f = slack v R f + hit (view v.mem r trampSlot) f - hit (view v'.mem r trampSlot) f
  max_eq : v'.pmm.maxPhysPage = v.pmm.maxPhysPage
  tramp_eq : v.trampPhys ≠ 0 → v'.trampPhys = v.trampPhys

lemma Grown.installed (g : Grown v v' R) (hr : r ∈ R) : Installed v v' R r where
  sound := g.sound
  view_eq r' hr' y _ := g.view_eq r' hr' y
  tramp_view := .inl (g.view_eq r hr trampSlot)
  data_eq f hf hft := g.data_eq f (g.used f hf hft) (.inl hf)
  used := g.used
  slack_eq f hf _ _ := by
    rw [g.slack_eq f hf, g.view_eq r hr]
    ring
  max_eq := g.max_eq
  tramp_eq _ := g.tramp_eq

/-- Mapping a trampoline that exists. -/
lemma installed_of_tramp (h : Sound v R) (hr : r ∈ R) (ht : v.trampPhys ≠ 0) :
    Installed v (pmapMapUserPage v (r * pageSize) signalTrampVa v.trampPhys pageUser).2 R r := by
  obtain ⟨-, hlt, hrc, htab⟩ := h.tramp ht
  have hself : v.isTramp (frameOf v.trampPhys) := ⟨ht, rfl⟩
  have hflags : pageUser &&& ptePhysMask = 0#64 := by decide
  rcases mapUserPage_spec h hr signalTrampVa v.trampPhys hflags htab
    (fun _ => hrc) (fun _ => rfl) (fun _ hn => absurd hself hn) with ⟨-, g⟩ | ⟨-, -, m⟩
  · exact g.installed hr
  · have hx : vaSlot signalTrampVa = trampSlot := rfl
    rw [hx] at m
    have hdrop : ∀ old new f, dropped trampSlot old new f = 0 := fun _ _ _ => if_pos (.inr rfl)
    refine ⟨m.sound, fun r' hr' y hne => ?_, .inr ⟨m.tramp_eq.symm ▸ ht, ?_⟩,
      fun f hf hft => m.data_eq f (m.used f hf hft) (.inl hf), m.used, fun f hf0 hf hnt => ?_, m.max_eq,
      fun _ => m.tramp_eq⟩
    · rw [m.view_eq r' hr' y, if_neg hne]
    · rw [m.view_eq r hr trampSlot, if_pos ⟨rfl, rfl⟩, m.tramp_eq]
    · have hnt' := mt (isTramp_congr m.tramp_eq f).mpr hnt
      rw [m.slack_eq f hf0 hf hnt', hdrop, m.view_eq r hr trampSlot, if_pos ⟨rfl, rfl⟩]
      push_cast
      ring

/-- A fresh frame made into the trampoline page: it leaves the accounting, all else stays. -/
lemma sound_of_newTramp (h : Sound v R) (ht : v.trampPhys = 0) {g : ℕ} {p : Pmm}
    (a : NewPage v.pmm p g) (hinv : v'.pmm.Inv) (hmax : v'.pmm.maxPhysPage = v.pmm.maxPhysPage)
    (hrc : ∀ f, rc v'.pmm f = if f = g then 2 else rc v.pmm f)
    (hmem : ∀ f, f ≠ g → v'.mem f = v.mem f) (htramp : v'.trampPhys = g * pageSize) :
    Sound v' R ∧ SameWalks v.mem v'.mem R ∧ (∀ r ∈ R, ∀ x, view v'.mem r x = view v.mem r x) ∧
      ∀ f, f ≠ g → slack v' R f = slack v R f := by
  obtain ⟨hgt, hgm, -⟩ := h.fresh a.lt a.free
  obtain ⟨hshape, hwalks, hview⟩ := h.shape.writeData v'.mem
    fun f hf => hmem f fun hfg => hgt (hfg ▸ hf)
  have htr : ∀ f, v'.isTramp f → f = g := by
    rintro f ⟨-, hf⟩
    rw [hf, htramp, a.frame]
  have hself : v'.isTramp g := by
    refine ⟨?_, by rw [htramp, a.frame]⟩
    rw [htramp]
    exact Nat.mul_ne_zero a.ne_zero (by decide)
  have hslack : ∀ f, f ≠ g → slack v' R f = slack v R f := by
    intro f hf
    have hrefs : refs v'.mem R f = refs v.mem R f := refs_congr fun r' hr' x => by rw [hview r' hr' x]
    unfold slack
    rw [hrefs, tabs_congr hwalks.tables_eq, hrc, if_neg hf]
  refine ⟨⟨hinv, hshape, ?_, fun f hf hn => ?_, fun _ => ?_, fun {r' x} hr' hp ht' => ?_⟩, hwalks, hview, hslack⟩
  · rw [hwalks.tables_eq, hmax]
    exact h.table_lt
  · rw [hslack f fun hfg => hn (hfg ▸ hself)]
    exact h.counted f (hmax ▸ hf) fun hx => hx.1 ht
  · rw [htramp, a.frame, hmax, hrc, if_pos rfl, hwalks.tables_eq]
    exact ⟨rfl, a.lt, by omega, hgt⟩
  · rw [hview r' hr' x] at hp ht'
    exact absurd (htr _ ht') (hgm r' hr' x hp)

/-- **What `pmap_trampoline_install` does.** -/
theorem trampolineInstall_spec (h : Sound v R) (hr : r ∈ R) :
    Installed v (pmapTrampolineInstall v (r * pageSize)) R r := by
  unfold pmapTrampolineInstall
  by_cases ht : v.trampPhys = 0
  swap
  · rw [if_neg ht]
    exact installed_of_tramp h hr ht
  rw [if_pos ht]
  dsimp only
  obtain ⟨hfail, l⟩ | ⟨g, hg, a⟩ := allocPage_cases h.inv
  · rw [if_pos hfail]
    exact (grown_of_allocFailed h l).installed hr
  rw [hg, if_neg (by rw [a.ok]; exact Bool.false_ne_true)]
  have hdiv : g * pageSize / pageSize = g := Nat.mul_div_cancel g (by decide)
  set v2 : Vm := { (({ v with pmm := (pmmAllocPage v.pmm).2 } : Vm).setFrame (g * pageSize / pageSize)
    trampCode) with trampPhys := g * pageSize, pmm := pmmRetainPage (pmmAllocPage v.pmm).2 (g * pageSize) }
    with hv2
  show Installed v (pmapMapUserPage v2 (r * pageSize) signalTrampVa v2.trampPhys pageUser).2 R r
  have htr2 : v2.trampPhys = g * pageSize := rfl
  have hne2 : v2.trampPhys ≠ 0 := by
    rw [htr2]
    exact Nat.mul_ne_zero a.ne_zero (by decide)
  have hrcp : ∀ f, rc v2.pmm f = if f = g then 2 else rc v.pmm f := by
    intro f
    rw [pmmRetainPage_rc, hdiv, a.rc_eq, a.max_eq]
    by_cases hf : f = g
    · subst hf
      rw [if_pos rfl, if_pos ⟨rfl, a.lt, by omega⟩, if_pos rfl]
    · rw [if_neg hf, if_neg fun hx => hf hx.1, if_neg hf]
  have hpinv : v2.pmm.Inv := by
    obtain ⟨L, hL⟩ := a.inv
    refine ⟨L, hL.retain fun _ => ?_⟩
    rw [hdiv, a.self]
    omega
  have hpmax : v2.pmm.maxPhysPage = v.pmm.maxPhysPage := (pmmRetainPage_maxPhysPage _ _).trans a.max_eq
  have hmem : ∀ f, f ≠ g → v2.mem f = v.mem f := fun f hf => by
    rw [hv2, hdiv]
    exact Function.update_of_ne hf _ _
  clear_value v2
  obtain ⟨hs2, hwalks, hview, hslack⟩ := sound_of_newTramp h ht a hpinv hpmax hrcp hmem htr2
  have hi := installed_of_tramp hs2 hr hne2
  generalize (pmapMapUserPage v2 (r * pageSize) signalTrampVa v2.trampPhys pageUser).2 = v3 at hi ⊢
  have htr3 : frameOf v3.trampPhys = g := by rw [hi.tramp_eq hne2, htr2, a.frame]
  have hrcv : ∀ f, rc v.pmm f ≠ 0 → rc v2.pmm f = rc v.pmm f := fun f hf => (hrcp f).trans (if_neg (a.ne hf))
  refine ⟨hi.sound, fun r' hr' y hne => ?_, ?_, fun f hf hft => ?_, fun f hf hft => ?_, fun f hf0 hf hn => ?_,
    hi.max_eq.trans hpmax, fun hne => absurd ht hne⟩
  · rw [hi.view_eq r' hr' y hne, hview r' hr' y]
  · rcases hi.tramp_view with hold | hnew
    · exact .inl (hold.trans (hview r hr trampSlot))
    · exact .inr hnew
  · rw [hi.data_eq f (by rw [hrcv f hf]; exact hf) (by rwa [hwalks.tables_eq]), hmem f (a.ne hf)]
  · exact hi.used f (by rw [hrcv f hf]; exact hf) (by rwa [hwalks.tables_eq])
  · have hfg : f ≠ g := by
      rintro rfl
      exact hn ⟨(hi.tramp_eq hne2).symm ▸ hne2, htr3.symm⟩
    rw [hi.slack_eq f hf0 (hpmax.symm ▸ hf) hn, hslack f hfg, hview r hr]

/-- The trampoline's own entry maps no other frame. -/
lemma hit_trampLeaf {f : ℕ} (hf : ¬ v.isTramp f) (ht : v.trampPhys ≠ 0) :
    hit (leafEntry v.trampPhys pageUser) f = 0 := by
  rw [hit, pteFrame_leafEntry _ (by decide), if_neg]
  rintro ⟨-, rfl⟩
  exact hf ⟨ht, rfl⟩

/-! ## A fresh PML4 -/

/-- From `v` to `v'` the fresh frame `g` became the PML4 of an address space without pages. -/
structure Planted (v v' : Vm) (R : Finset ℕ) (g : ℕ) : Prop where
  sound : Sound v' (insert g R)
  notMem : g ∉ R
  fresh : rc v.pmm g = 0
  lt_max : g < v.pmm.maxPhysPage
  view_eq : ∀ r ∈ R, ∀ x, view v'.mem r x = view v.mem r x
  view_new : ∀ x, view v'.mem g x = 0#64
  tables_eq : tables v'.mem (insert g R) = insert g (tables v.mem R)
  data_eq : ∀ f, f ≠ g → v'.mem f = v.mem f
  rc_eq : ∀ f, rc v'.pmm f = if f = g then 1 else rc v.pmm f
  slack_eq : ∀ f, slack v' (insert g R) f = slack v R f
  max_eq : v'.pmm.maxPhysPage = v.pmm.maxPhysPage
  tramp_eq : v'.trampPhys = v.trampPhys

/-- A fresh frame made into a PML4, whatever its kernel half is copied from. -/
lemma planted_newPml4 (h : Sound v R) {g : ℕ} {p : Pmm} (a : NewPage v.pmm p g) (source : ℕ) :
    Planted v (newPml4 { v with pmm := p } (g * pageSize) source) R g := by
  obtain ⟨hgt, hgm, -⟩ := h.fresh a.lt a.free
  have hgR : g ∉ R := fun hgR => hgt (root_mem_tables hgR)
  set v1 := newPml4 { v with pmm := p } (g * pageSize) source with hv1
  have hmem : ∀ f, f ≠ g → v1.mem f = v.mem f := by
    intro f hf
    simp [hv1, newPml4, Vm.setFrame, a.frame, hf]
  have hempty : ∀ i < 256, v1.mem g i = 0#64 := by
    intro i hi
    simp [hv1, newPml4, Vm.setFrame, a.frame, not_le.mpr hi]
  obtain ⟨hshape, htables, hview, hnew⟩ := h.shape.plant v1.mem hgt hgm hempty hmem
  have hrefs : ∀ f, refs v1.mem (insert g R) f = refs v.mem R f := by
    intro f
    have hrow : row v1.mem g f = 0 := row_eq_zero fun x => by rw [hnew x, hit_zero]
    rw [refs_insert hgR, hrow, Nat.zero_add]
    exact refs_congr fun r' hr' x => by rw [hview r' hr' x]
  obtain ⟨hsound, hslack⟩ := h.newTable (show NewPage v.pmm v1.pmm g from a) hshape htables hrefs (fun r' hr' x hp => by
    rcases Finset.mem_insert.mp hr' with rfl | hr'
    · rw [hnew x] at hp
      simp at hp
    · exact ⟨hr', hview r' hr' x⟩) rfl
  exact ⟨hsound, hgR, a.free, a.lt, hview, hnew, htables, hmem, a.rc_eq, hslack, a.max_eq, rfl⟩

/-! ## `pmap_create` -/

/-- From `v` to `v'` an address space with at most the trampoline mapped was made at frame `g`. -/
structure Created (v v' : Vm) (R : Finset ℕ) (g : ℕ) : Prop where
  sound : Sound v' (insert g R)
  notMem : g ∉ R
  view_eq : ∀ r ∈ R, ∀ x, view v'.mem r x = view v.mem r x
  view_new : ∀ x, view v'.mem g x = 0#64 ∨ (x = trampSlot ∧ v'.trampPhys ≠ 0 ∧
    view v'.mem g x = leafEntry v'.trampPhys pageUser)
  slack_eq : ∀ f ≠ 0, f < v.pmm.maxPhysPage → ¬ v'.isTramp f → slack v' (insert g R) f = slack v R f
  max_eq : v'.pmm.maxPhysPage = v.pmm.maxPhysPage
  tramp_eq : v.trampPhys ≠ 0 → v'.trampPhys = v.trampPhys
  used : ∀ f, rc v.pmm f ≠ 0 → f ∉ tables v.mem R → f ∉ tables v'.mem (insert g R)
  data_eq : ∀ f, rc v.pmm f ≠ 0 → f ∉ tables v.mem R → v'.mem f = v.mem f

/-- **What `pmap_create` does**: it fails, or makes an address space. -/
theorem pmapCreate_spec (h : Sound v R) : ((pmapCreate v).1 = 0 ∧ Grown v (pmapCreate v).2 R) ∨
      ∃ g, (pmapCreate v).1 = g * pageSize ∧ Created v (pmapCreate v).2 R g := by
  unfold pmapCreate
  obtain ⟨hfail, l⟩ | ⟨g, hg, a⟩ := allocPage_cases h.inv
  · left
    simp only [hfail, if_true, true_and]
    exact grown_of_allocFailed h l
  · right
    simp only [hg, a.ok, Bool.false_eq_true, if_false]
    refine ⟨g, rfl, ?_⟩
    have hp := planted_newPml4 h a v.kernelPml4
    have hi := trampolineInstall_spec hp.sound (Finset.mem_insert_self g R)
    generalize newPml4 { v with pmm := (pmmAllocPage v.pmm).2 } (g * pageSize) v.kernelPml4 = v1
      at hp hi ⊢
    generalize pmapTrampolineInstall v1 (g * pageSize) = v2 at hi ⊢
    have hview : ∀ x, view v2.mem g x = 0#64 ∨ (x = trampSlot ∧ v2.trampPhys ≠ 0 ∧
        view v2.mem g x = leafEntry v2.trampPhys pageUser) := by
      intro x
      by_cases hx : x = trampSlot
      · subst hx
        rcases hi.tramp_view with hold | ⟨hne, hnew⟩
        · exact .inl (hold.trans (hp.view_new trampSlot))
        · exact .inr ⟨rfl, hne, hnew⟩
      · left
        rw [hi.view_eq g (Finset.mem_insert_self g R) x fun hx' => hx hx'.2, hp.view_new]
    have hkept : ∀ f, rc v.pmm f ≠ 0 → f ∉ tables v.mem R → rc v1.pmm f ≠ 0 ∧ f ∉ tables v1.mem (insert g R) := by
      intro f hrcf hft
      refine ⟨by rwa [hp.rc_eq, if_neg (a.ne hrcf)], ?_⟩
      rw [hp.tables_eq]
      rintro (hx | hx)
      · exact a.ne hrcf hx
      · exact hft hx
    refine ⟨hi.sound, hp.notMem, fun r hr x => ?_, hview, fun f hf0 hf hnt => ?_,
      hi.max_eq.trans hp.max_eq, fun hne => ?_, fun f hrcf hft => ?_, fun f hrcf hft => ?_⟩
    · have hne : r ≠ g := fun hrg => hp.notMem (hrg ▸ hr)
      rw [hi.view_eq r (Finset.mem_insert_of_mem hr) x fun hx => hne hx.1, hp.view_eq r hr x]
    · rw [hi.slack_eq f hf0 (hp.max_eq.symm ▸ hf) hnt, hp.slack_eq, hp.view_new, hit_zero]
      rcases hview trampSlot with hold | ⟨-, hne, hnew⟩
      · rw [hold, hit_zero]
        simp
      · rw [hnew, hit_trampLeaf hnt hne]
        simp
    · rw [hi.tramp_eq (hp.tramp_eq.symm ▸ hne), hp.tramp_eq]
    · exact hi.used f (hkept f hrcf hft).1 (hkept f hrcf hft).2
    · rw [hi.data_eq f (hkept f hrcf hft).1 (hkept f hrcf hft).2, hp.data_eq f (a.ne hrcf)]

end Chimera
