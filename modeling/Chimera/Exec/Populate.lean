import Chimera.Exec.MachO

/-!
# Pages made for an address space

The page loops of the loader, and the anonymous mappings of `sys_mmap`, make pages one after the
other. `Populated v v' R r P` says what a run of them has done: address space `r` has the pages `P`,
each in a frame of its own with the flags and the contents that `P` gives; every other page of every
address space is as before, with its contents. Runs compose, the later one winning where both made
a page (`Populated.trans`).
-/

namespace Chimera

open Lib

/-- The pages a run makes, with their flags and contents. -/
abbrev Pages := Slot → Option (BitVec 64 × (ℕ → BitVec 64))

/-- Slot `x` of address space `r` is a page in a frame of its own. -/
structure PageIs (v : Vm) (r : ℕ) (x : Slot) (fl : BitVec 64) (c : ℕ → BitVec 64) : Prop where
  entry : view v.mem r x = leafEntry (pteFrame (view v.mem r x) * pageSize) fl
  ne_zero : pteFrame (view v.mem r x) ≠ 0
  lt_max : pteFrame (view v.mem r x) < v.pmm.maxPhysPage
  sole : rc v.pmm (pteFrame (view v.mem r x)) = 1
  not_tramp : ¬ v.isTramp (pteFrame (view v.mem r x))
  contents : v.mem (pteFrame (view v.mem r x)) = c

/-- From `v` to `v'` the pages `P` of address space `r` were made. -/
structure Populated (v v' : Vm) (R : Finset ℕ) (r : ℕ) (P : Pages) : Prop where
  sound : Sound v' R
  loaded : ∀ x fl c, P x = some (fl, c) → PageIs v' r x fl c
  view_eq : ∀ r' ∈ R, ∀ y, ¬ (r' = r ∧ (P y).isSome) → view v'.mem r' y = view v.mem r' y
  data_eq : ∀ r' ∈ R, ∀ y, ¬ (r' = r ∧ (P y).isSome) → present (view v.mem r' y) →
    v'.mem (pteFrame (view v.mem r' y)) = v.mem (pteFrame (view v.mem r' y))
  spared : ∀ f, rc v.pmm f ≠ 0 →
    (∀ x, (P x).isSome → present (view v.mem r x) → pteFrame (view v.mem r x) ≠ f) →
    rc v'.pmm f = rc v.pmm f ∧ ∀ x, (P x).isSome → pteFrame (view v'.mem r x) ≠ f
  max_eq : v'.pmm.maxPhysPage = v.pmm.maxPhysPage
  tramp_eq : v'.trampPhys = v.trampPhys

variable {v v1 v2 : Vm} {R : Finset ℕ} {r : ℕ} {c : ℕ → BitVec 64} {fl : BitVec 64} {x y : Slot} {va : ℕ}

lemma PageIs.present (p : PageIs v r x fl c) : present (view v.mem r x) = true := by
  rw [p.entry]
  exact present_leafEntry _ _

/-- A frame with one reference is mapped once. -/
lemma Sound.sole (h : Sound v R) {r' : ℕ} (hr : r ∈ R) (hr' : r' ∈ R)
    (hx : present (view v.mem r x)) (hy : present (view v.mem r' y))
    (heq : pteFrame (view v.mem r' y) = pteFrame (view v.mem r x))
    (hlt : pteFrame (view v.mem r x) < v.pmm.maxPhysPage)
    (hone : rc v.pmm (pteFrame (view v.mem r x)) = 1)
    (hnt : ¬ v.isTramp (pteFrame (view v.mem r x))) : r' = r ∧ y = x := by
  by_contra hne
  have hc := h.counted _ hlt hnt
  have htwo : hit (view v.mem r x) (pteFrame (view v.mem r x)) +
      hit (view v.mem r' y) (pteFrame (view v.mem r x)) ≤ refs v.mem R (pteFrame (view v.mem r x)) :=
    add_le_sum_sum hr hr' hne fun r' y => hit (view v.mem r' y) (pteFrame (view v.mem r x))
  have hx1 := hit_pos.mpr ⟨hx, rfl⟩
  have hy1 := hit_pos.mpr ⟨hy, heq⟩
  unfold slack at hc
  omega

/-- The pages of a second run over those of a first. -/
def Pages.over (Q P : Pages) : Pages := fun x => (Q x).or (P x)

lemma isSome_over {P Q : Pages} : (Q.over P x).isSome ↔ (Q x).isSome ∨ (P x).isSome := by
  rw [Pages.over, Option.isSome_or, Bool.or_eq_true]

namespace Populated

variable {P Q : Pages}

/-- A page made before a run that does not touch it is still there. -/
lemma keep (p : Populated v v1 R r P) (hr : r ∈ R) (h : Sound v R) {x : Slot} (hx : P x = none)
    {fl : BitVec 64} {c : ℕ → BitVec 64} (page : PageIs v r x fl c) : PageIs v1 r x fl c := by
  have hout : ¬ (r = r ∧ (P x).isSome) := by simp [hx]
  have hview := p.view_eq r hr x hout
  have hrc : rc v1.pmm (pteFrame (view v.mem r x)) = rc v.pmm (pteFrame (view v.mem r x)) := by
    refine (p.spared _ (by rw [page.sole]; exact one_ne_zero) fun y hy hp heq => ?_).1
    obtain ⟨-, rfl⟩ := h.sole hr hr page.present hp heq page.lt_max page.sole page.not_tramp
    rw [hx] at hy
    exact absurd hy (by decide)
  refine ⟨?_, ?_, ?_, ?_, ?_, ?_⟩ <;> rw [hview]
  · exact page.entry
  · exact page.ne_zero
  · rw [p.max_eq]
    exact page.lt_max
  · rw [hrc]
    exact page.sole
  · rw [isTramp_congr p.tramp_eq]
    exact page.not_tramp
  · rw [p.data_eq r hr x hout page.present]
    exact page.contents

lemma trans (p : Populated v v1 R r P) (hr : r ∈ R) (q : Populated v1 v2 R r Q) : Populated v v2 R r (Q.over P) := by
  have hout : ∀ {r' y}, ¬ (r' = r ∧ (Q.over P y).isSome) →
      ¬ (r' = r ∧ (Q y).isSome) ∧ ¬ (r' = r ∧ (P y).isSome) := fun h =>
    ⟨fun h' => h ⟨h'.1, isSome_over.mpr (.inl h'.2)⟩, fun h' => h ⟨h'.1, isSome_over.mpr (.inr h'.2)⟩⟩
  refine ⟨q.sound, fun x fl c hx => ?_, fun r' hr' y hy => ?_, fun r' hr' y hy hp => ?_,
    fun f hf hmap => ?_, q.max_eq.trans p.max_eq, q.tramp_eq.trans p.tramp_eq⟩
  · unfold Pages.over at hx
    cases hQ : Q x with
    | none =>
      rw [hQ, Option.none_or] at hx
      exact q.keep hr p.sound hQ (p.loaded x fl c hx)
    | some w =>
      rw [hQ, Option.some_or] at hx
      exact q.loaded x fl c (hQ.trans hx)
  · exact (q.view_eq r' hr' y (hout hy).1).trans (p.view_eq r' hr' y (hout hy).2)
  · have hv := p.view_eq r' hr' y (hout hy).2
    have hq := q.data_eq r' hr' y (hout hy).1
    rw [hv] at hq
    exact (hq hp).trans (p.data_eq r' hr' y (hout hy).2 hp)
  · obtain ⟨hrc, hnew⟩ := p.spared f hf fun x hx => hmap x (isSome_over.mpr (.inr hx))
    obtain ⟨hrc', hnew'⟩ := q.spared f (hrc ▸ hf) fun x hx hp => by
      by_cases hPx : (P x).isSome
      · exact hnew x hPx
      · have hv := p.view_eq r hr x fun h => hPx h.2
        rw [hv] at hp ⊢
        exact hmap x (isSome_over.mpr (.inl hx)) hp
    refine ⟨hrc'.trans hrc, fun x hx => ?_⟩
    by_cases hQx : (Q x).isSome
    · exact hnew' x hQx
    · rw [q.view_eq r hr x fun h => hQx h.2]
      exact hnew x ((isSome_over.mp hx).resolve_left hQx)

end Populated

/-- Growing the tables makes no page. -/
lemma Grown.populated (g : Grown v v1 R) (h : Sound v R) (r : ℕ) : Populated v v1 R r fun _ => none where
  sound := g.sound
  loaded _ _ _ hx := nomatch hx
  view_eq r' hr' y _ := g.view_eq r' hr' y
  data_eq r' hr' y _ hp := by
    apply g.data_eq _ _ (h.held hr' hp)
    rw [← g.view_eq r' hr' y] at hp ⊢
    exact g.sound.shape.leaf_frame hr' hp
  spared f hf _ := ⟨g.rc_eq f hf, fun _ hx => nomatch hx⟩
  max_eq := g.max_eq
  tramp_eq := g.tramp_eq

/-- One page. -/
def onePage (x : Slot) (fl : BitVec 64) (c : ℕ → BitVec 64) : Pages :=
  fun y => if y = x then some (fl, c) else none

lemma isSome_onePage : (onePage x fl c y).isSome ↔ y = x := by
  unfold onePage
  split_ifs with h <;> simp [h]

section filled

variable {w : BitVec 64}

/-- A frame just mapped holds no table. -/
lemma Filled.notMem_tables (m : Filled v v1 R r x w c) (hr : r ∈ R) (hw : present w = true) :
    pteFrame w ∉ tables v1.mem R := by
  have hview := m.view_eq r hr x
  rw [if_pos ⟨rfl, rfl⟩] at hview
  rw [← hview]
  apply m.sound.shape.leaf_frame hr
  rwa [hview]

/-- A frame just mapped has the one reference of its entry. -/
lemma Filled.sole (m : Filled v v1 R r x w c) (h : Sound v R) (hr : r ∈ R) (hw : present w = true) :
    rc v1.pmm (pteFrame w) = 1 ∧ ¬ v.isTramp (pteFrame w) := by
  obtain ⟨htab, hmap, hnt⟩ := h.fresh m.lt_max m.fresh
  have hone : ∀ r' ∈ R, ∀ y, hit (view v.mem r' y) (pteFrame w) = 0 := by
    intro r' hr' y
    rw [hit, if_neg fun hx => hmap r' hr' y hx.1 hx.2]
  have hrefs := refs_write hr m.view_eq (pteFrame w)
  have hzero : refs v.mem R (pteFrame w) = 0 := Finset.sum_eq_zero fun r' hr' => row_eq_zero (hone r' hr')
  rw [hone r hr, hzero, hit, if_pos ⟨hw, rfl⟩] at hrefs
  have htab1 : tabs v1.mem R (pteFrame w) = 0 := tabs_of_notMem (m.notMem_tables hr hw)
  have hslack := m.slack_eq (pteFrame w) m.ne_zero m.lt_max hnt
  have hdrop : dropped x (view v.mem r x) w (pteFrame w) = 0 := by
    have hle := (dropped_le h hr x w (pteFrame w)).1
    rw [hone r hr] at hle
    omega
  have hslack0 : slack v R (pteFrame w) = 0 := by
    unfold slack
    rw [m.fresh, hzero, tabs_of_notMem htab]
    rfl
  rw [hone r hr, hdrop, hslack0] at hslack
  unfold slack at hslack
  rw [htab1] at hslack
  refine ⟨?_, hnt⟩
  push_cast at hslack
  omega

/-- **A page mapped and then filled.** -/
lemma Filled.populated {fl : BitVec 64} {g : ℕ} (m : Filled v v1 R r x (leafEntry (g * pageSize) fl) c)
    (h : Sound v R) (hr : r ∈ R) (hfl : fl &&& ptePhysMask = 0#64) (hfg : frameOf (g * pageSize) = g)
    (c' : ℕ → BitVec 64) : Populated v (v1.setFrame g c') R r (onePage x fl c') := by
  have hframe : pteFrame (leafEntry (g * pageSize) fl) = g := by rw [pteFrame_leafEntry _ hfl, hfg]
  obtain ⟨hone, hnt⟩ := m.sole h hr (present_leafEntry _ _)
  have hview : view v1.mem r x = leafEntry (g * pageSize) fl := by rw [m.view_eq r hr x, if_pos ⟨rfl, rfl⟩]
  have hgt : g ∉ tables v1.mem R := hframe ▸ m.notMem_tables hr (present_leafEntry _ _)
  have t : Touched v1 (v1.setFrame g c') R {g} := m.sound.touch (by rintro f rfl; exact hgt) _
    fun f hf => Function.update_of_ne hf _ _
  have hview' : view (v1.setFrame g c').mem r x = leafEntry (g * pageSize) fl := (t.view_eq r hr x).trans hview
  have hfresh : rc v.pmm g = 0 := hframe ▸ m.fresh
  have hkeep : ∀ {r' y}, ¬ (r' = r ∧ (onePage x fl c' y).isSome) → ¬ (r' = r ∧ y = x) :=
    fun hn hx => hn ⟨hx.1, isSome_onePage.mpr hx.2⟩
  refine ⟨t.sound, fun y fl' c'' hy => ?_, fun r' hr' y hy => ?_, fun r' hr' y hy hp => ?_,
    fun f hf hmap => ?_, m.max_eq, m.tramp_eq⟩
  · unfold onePage at hy
    split_ifs at hy with hyx
    cases hy
    subst hyx
    refine ⟨?_, ?_, ?_, ?_, ?_, ?_⟩ <;> rw [hview', hframe]
    · exact hframe ▸ m.ne_zero
    · show g < v1.pmm.maxPhysPage
      rw [m.max_eq, ← hframe]
      exact m.lt_max
    · exact hframe ▸ hone
    · rw [← hframe]
      exact mt (isTramp_congr m.tramp_eq _).mp hnt
    · exact Function.update_self _ _ _
  · rw [t.view_eq r' hr' y, m.view_eq r' hr' y, if_neg (hkeep hy)]
  · -- the page was in use before, so it is not the fresh frame
    have hne : pteFrame (view v.mem r' y) ≠ g := (h.fresh (hframe ▸ m.lt_max) hfresh).2.1 r' hr' y hp
    have hold : view v1.mem r' y = view v.mem r' y := by rw [m.view_eq r' hr' y, if_neg (hkeep hy)]
    refine (Function.update_of_ne hne _ _).trans (m.data_eq _ ?_ (h.held hr' hp))
    rw [← hold] at hp ⊢
    exact m.sound.shape.leaf_frame hr' hp
  · have hfg' : f ≠ g := fun heq => hf (heq ▸ hfresh)
    refine ⟨?_, fun y hy => ?_⟩
    · have hdrop : dropped x (view v.mem r x) (leafEntry (g * pageSize) fl) f = 0 := by
        have hle := (dropped_le h hr x (leafEntry (g * pageSize) fl) f).1
        have hhit : hit (view v.mem r x) f = 0 := by
          rw [hit, if_neg fun hx => hmap x (isSome_onePage.mpr rfl) hx.1 hx.2]
        omega
      have hrc := m.rc_eq f hf
      rw [hdrop] at hrc
      exact hrc
    · rw [isSome_onePage.mp hy, hview', hframe]
      exact hfg'.symm

end filled

/-! ## The page loops of the loader -/

/-- **One page of the loader** is made, or the tables have grown at most. -/
lemma loaderPage_spec (h : Sound v R) (hr : r ∈ R) (va : ℕ)
    (hfl : fl &&& ptePhysMask = 0#64) (c : ℕ → BitVec 64) :
    (∃ v', loaderPage (r * pageSize) va fl c v = .error v' ∧ Grown v v' R) ∨
      ∃ v', loaderPage (r * pageSize) va fl c v = .ok v' ∧ va < userEnd ∧
        Populated v v' R r (onePage (vaSlot va) fl c) := by
  unfold loaderPage
  obtain ⟨hfail, l⟩ | ⟨g, hg, a⟩ := allocPage_cases h.inv
  · left
    simp only [hfail, if_true]
    exact ⟨_, rfl, grown_of_allocFailed h l⟩
  · simp only [hg, a.ok, Bool.false_eq_true, if_false]
    rcases mapFresh_spec h { v with pmm := (pmmAllocPage v.pmm).2 } hr a rfl (fun _ _ => rfl) va hfl rfl
      with ⟨h0, gr⟩ | ⟨h1, hva, m⟩
    · left
      rw [if_pos h0]
      exact ⟨_, rfl, gr⟩
    · right
      have hne : g * pageSize ≠ 0 := Nat.mul_ne_zero a.ne_zero (by decide)
      rw [h1, if_neg hne, Nat.mul_div_cancel g (by decide)]
      exact ⟨_, rfl, hva, m.populated h hr hfl a.frame c⟩

/-- The pages of a list of addresses. -/
def pagesAt (fl : BitVec 64) (content : ℕ → ℕ → BitVec 64) (vas : List ℕ) : Pages :=
  fun x => if slotVa x ∈ vas then some (fl, content (slotVa x)) else none

/-- The addresses of a page loop: pages of the user half. -/
def PageList (vas : List ℕ) : Prop := ∀ va ∈ vas, pageSize ∣ va ∧ va < userEnd

lemma slotVa_vaSlot_page (h : pageSize ∣ va ∧ va < userEnd) : slotVa (vaSlot va) = va := by
  rw [slotVa_vaSlot h.2, Nat.div_mul_cancel h.1]

lemma pagesAt_nil (fl : BitVec 64) (content : ℕ → ℕ → BitVec 64) : pagesAt fl content [] = fun _ => none := by
  funext x
  simp [pagesAt]

lemma pagesAt_cons {content : ℕ → ℕ → BitVec 64} (h : pageSize ∣ va ∧ va < userEnd)
    (vas : List ℕ) : (pagesAt fl content vas).over (onePage (vaSlot va) fl (content va)) =
      pagesAt fl content (va :: vas) := by
  funext x
  have hx : x = vaSlot va ↔ slotVa x = va := by
    constructor
    · rintro rfl
      exact slotVa_vaSlot_page h
    · intro hx
      rw [← hx, vaSlot_slotVa]
  by_cases hmem : slotVa x ∈ vas
  · simp [Pages.over, pagesAt, hmem]
  · by_cases hva : slotVa x = va
    · have hmem' : va ∉ vas := hva ▸ hmem
      simp [Pages.over, pagesAt, onePage, hmem', hx.mpr hva, slotVa_vaSlot_page h]
    · simp [Pages.over, pagesAt, onePage, hmem, hva, hx]

/-- **A page loop** makes all its pages, or fails after some of them. -/
theorem populate_spec (hr : r ∈ R) (hfl : fl &&& ptePhysMask = 0#64)
    (content : ℕ → ℕ → BitVec 64) {vas : List ℕ} (hvas : PageList vas) (h : Sound v R) :
    (∃ v', populate (r * pageSize) fl content vas v = .ok v' ∧ Populated v v' R r (pagesAt fl content vas)) ∨
      ∃ v' front, populate (r * pageSize) fl content vas v = .error v' ∧ front <+: vas ∧
        Populated v v' R r (pagesAt fl content front) := by
  induction vas generalizing v with
  | nil =>
    left
    rw [pagesAt_nil]
    exact ⟨v, rfl, (Grown.refl h).populated h r⟩
  | cons va vas ih =>
    rw [populate]
    rcases loaderPage_spec h hr va hfl (content va) with ⟨v', heq, g⟩ | ⟨v', heq, -, p⟩
    · right
      refine ⟨v', [], by rw [heq], List.nil_prefix, ?_⟩
      rw [pagesAt_nil]
      exact g.populated h r
    · rw [heq]
      rcases ih (fun a ha => hvas a (List.mem_cons_of_mem _ ha)) p.sound with
        ⟨v'', heq', q⟩ | ⟨v'', front, heq', hfront, q⟩
      · left
        refine ⟨v'', heq', ?_⟩
        rw [← pagesAt_cons (hvas va List.mem_cons_self)]
        exact p.trans hr q
      · right
        refine ⟨v'', va :: front, heq', List.cons_prefix_cons.mpr ⟨rfl, hfront⟩, ?_⟩
        rw [← pagesAt_cons (hvas va List.mem_cons_self)]
        exact p.trans hr q

end Chimera
