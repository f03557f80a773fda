import Chimera.Pmap.Sound

/-!
# Mapping a page

`pmap_map_user_page` first makes the tables on the way, which changes nothing in the view
(`Grown`), and then writes one leaf (`Remap`). The counts move accordingly: the new entry costs the
frame one unit of slack, and an entry it replaces gives its unit back unless the code releases the
old frame, which it does when the frame changes and the page is not the trampoline's.
-/

namespace Chimera

open Lib

section fields

variable (v : Vm) (f i phys : ℕ) (w : BitVec 64)

@[simp] lemma setWord_pmm : (v.setWord f i w).pmm = v.pmm := rfl
@[simp] lemma release_mem : (v.release phys).mem = v.mem := rfl
@[simp] lemma release_pmm : (v.release phys).pmm = pmmReleasePage v.pmm phys := rfl

end fields

/-- From `p` to `q` at most page `0` was lost. -/
structure LostPage (p q : Pmm) : Prop where
  inv : q.Inv
  max_eq : q.maxPhysPage = p.maxPhysPage
  rc_eq : ∀ f ≠ 0, rc q f = rc p f
  keep : ∀ f, rc p f ≠ 0 → rc q f = rc p f

/-- From `p` to `q` the free frame `g`, which is not `0`, got its first reference. -/
structure NewPage (p q : Pmm) (g : ℕ) : Prop where
  inv : q.Inv
  max_eq : q.maxPhysPage = p.maxPhysPage
  ok : allocFailed (g * pageSize) = false
  ne_zero : g ≠ 0
  lt : g < p.maxPhysPage
  frame : frameOf (g * pageSize) = g
  free : rc p g = 0
  rc_eq : ∀ f, rc q f = if f = g then 1 else rc p f

section newPage

variable {p q : Pmm} {g f : ℕ}

lemma NewPage.self (a : NewPage p q g) : rc q g = 1 := (a.rc_eq g).trans (if_pos rfl)

lemma NewPage.ne (a : NewPage p q g) (hf : rc p f ≠ 0) : f ≠ g := fun h => hf (h ▸ a.free)

lemma NewPage.keep (a : NewPage p q g) (hf : rc p f ≠ 0) : rc q f = rc p f := (a.rc_eq f).trans (if_neg (a.ne hf))

/-- **One page from the allocator**, as `pmap.c` takes it: either the call counts as failed, and
at most page `0` was lost to it, or a fresh frame other than `0` has one reference now. -/
lemma allocPage_cases (h : p.Inv) : (allocFailed (pmmAllocPage p).1 = true ∧ LostPage p (pmmAllocPage p).2) ∨
      ∃ g, (pmmAllocPage p).1 = g * pageSize ∧ NewPage p (pmmAllocPage p).2 g := by
  obtain ⟨hinv, ⟨hfail, -⟩ | ⟨g, hg, ht⟩⟩ := pmmAllocPage_spec h
  · rw [hfail] at hinv ⊢
    exact .inl ⟨rfl, hinv, rfl, fun _ _ => rfl, fun _ _ => rfl⟩
  · have hrc : ∀ f, rc (pmmAllocPage p).2 f = if f = g then 1 else rc p f := by
      intro f
      rw [ht.rc_eq]
      exact if_congr (by rw [blk_zero, Set.mem_singleton_iff]) rfl rfl
    have hgfree := mem_freeSet.mp (ht.free (start_mem_blk g 0))
    by_cases hg0 : g = 0
    · subst hg0
      refine .inl ⟨by rw [hg]; rfl, hinv, ht.max_eq, fun f hf => by rw [hrc, if_neg hf], fun f hf => ?_⟩
      rw [hrc, if_neg]
      rintro rfl
      exact hf hgfree.2
    · refine .inr ⟨g, hg, hinv, ht.max_eq, ?_, hg0, hgfree.1, frameOf_mul ?_, hgfree.2, hrc⟩
      · have hne := mul_pageSize_ne_paddrFail g
        rw [allocFailed, decide_eq_false_iff_not]
        unfold pageSize at hne ⊢
        omega
      · have := h.max_le
        omega

end newPage

variable {R : Finset ℕ} {v : Vm} {p : Pmm} {r pt va : ℕ} {flags : BitVec 64}

/-- A new page that becomes a table, no entry of the other tables changed: the reference counts for
the table. -/
lemma Sound.newTable {v' : Vm} {R' : Finset ℕ} {g : ℕ} (h : Sound v R) (a : NewPage v.pmm v'.pmm g)
    (hshape : Shape v'.mem R') (htables : tables v'.mem R' = insert g (tables v.mem R))
    (hrefs : ∀ f, refs v'.mem R' f = refs v.mem R f)
    (hview : ∀ r ∈ R', ∀ x, present (view v'.mem r x) → r ∈ R ∧ view v'.mem r x = view v.mem r x)
    (htr : v'.trampPhys = v.trampPhys) : Sound v' R' ∧ ∀ f, slack v' R' f = slack v R f := by
  obtain ⟨hgt, -, hgtr⟩ := h.fresh a.lt a.free
  have hslack : ∀ f, slack v' R' f = slack v R f := by
    intro f
    unfold slack
    rw [hrefs, a.rc_eq]
    by_cases hf : f = g
    · subst hf
      rw [if_pos rfl, a.free, tabs_of_mem (htables ▸ .inl rfl), tabs_of_notMem hgt]
      ring
    · rw [if_neg hf, tabs_insert htables hf]
  refine ⟨⟨a.inv, hshape, ?_, fun f hf ht => ?_, fun ht => ?_, fun {r x} hr hp ht => ?_⟩, hslack⟩
  · rw [htables, a.max_eq]
    rintro f (rfl | hf)
    · exact ⟨a.lt, a.ne_zero⟩
    · exact h.table_lt f hf
  · rw [hslack f]
    exact h.counted f (a.max_eq ▸ hf) (mt (isTramp_congr htr f).mpr ht)
  · rw [htr] at ht ⊢
    obtain ⟨h1, h2, h3, h4⟩ := h.tramp ht
    refine ⟨h1, a.max_eq.symm ▸ h2, by rwa [a.keep h3], ?_⟩
    rw [htables]
    rintro (heq | hmem)
    · exact hgtr ⟨ht, heq.symm⟩
    · exact h4 hmem
  · obtain ⟨hr', hsame⟩ := hview r hr x hp
    rw [hsame] at hp ht
    exact h.tramp_slot hr' hp ((isTramp_congr htr _).mp ht)

/-! ## Growing the tables -/

/-- From `v` to `v'` the page tables of `R` may have grown; nothing else that anyone holds has
changed. -/
structure Grown (v v' : Vm) (R : Finset ℕ) : Prop where
  sound : Sound v' R
  view_eq : ∀ r ∈ R, ∀ x, view v'.mem r x = view v.mem r x
  walk_mono : ∀ r ∈ R, ∀ q ∈ userPaths, ∀ f, walk childTable v.mem r q = some f →
    walk childTable v'.mem r q = some f
  data_eq : ∀ f, f ∉ tables v'.mem R → v.held f → v'.mem f = v.mem f
  used : ∀ f, rc v.pmm f ≠ 0 → f ∉ tables v.mem R → f ∉ tables v'.mem R
  rc_eq : ∀ f, rc v.pmm f ≠ 0 → rc v'.pmm f = rc v.pmm f
  slack_eq : ∀ f ≠ 0, slack v' R f = slack v R f
  max_eq : v'.pmm.maxPhysPage = v.pmm.maxPhysPage
  tramp_eq : v'.trampPhys = v.trampPhys

namespace Grown

variable {v1 v2 : Vm}

lemma refl (h : Sound v R) : Grown v v R :=
  ⟨h, fun _ _ _ => rfl, fun _ _ _ _ _ hw => hw, fun _ _ _ => rfl, fun _ _ ht => ht, fun _ _ => rfl,
    fun _ _ => rfl, rfl, rfl⟩

variable {f : ℕ}

lemma held (g : Grown v v1 R) (h : v.held f) : v1.held f := by
  rcases h with h | h
  · exact .inl (by rwa [g.rc_eq f h])
  · exact .inr (g.max_eq.symm ▸ h)

lemma tables_mono (g : Grown v v1 R) (hf : f ∈ tables v.mem R) : f ∈ tables v1.mem R := by
  obtain ⟨r, hr, p, hp, hw⟩ := hf
  exact mem_nodes hr hp (g.walk_mono r hr p hp f hw)

lemma trans (g1 : Grown v v1 R) (g2 : Grown v1 v2 R) : Grown v v2 R where
  sound := g2.sound
  view_eq r hr x := (g2.view_eq r hr x).trans (g1.view_eq r hr x)
  walk_mono r hr q hq f hw := g2.walk_mono r hr q hq f (g1.walk_mono r hr q hq f hw)
  data_eq f hf hh := (g2.data_eq f hf (g1.held hh)).trans (g1.data_eq f (fun ht => hf (g2.tables_mono ht)) hh)
  used f hrc hf := g2.used f (by rwa [g1.rc_eq f hrc]) (g1.used f hrc hf)
  rc_eq f hrc := (g2.rc_eq f (by rwa [g1.rc_eq f hrc])).trans (g1.rc_eq f hrc)
  slack_eq f hf := (g2.slack_eq f hf).trans (g1.slack_eq f hf)
  max_eq := g2.max_eq.trans g1.max_eq
  tramp_eq := g2.tramp_eq.trans g1.tramp_eq

end Grown

/-- A failed allocation is harmless: at most page `0` gains a reference. -/
lemma grown_of_allocFailed (h : Sound v R) (l : LostPage v.pmm p) : Grown v { v with pmm := p } R := by
  have hle : ∀ f, rc v.pmm f ≤ rc p f := by
    intro f
    by_cases hf : rc v.pmm f = 0
    · omega
    · rw [l.keep f hf]
  refine ⟨⟨l.inv, h.shape, fun f hf => l.max_eq ▸ h.table_lt f hf, fun f hf ht => ?_, fun ht => ?_,
    fun hr hp ht => h.tramp_slot hr hp ht⟩, fun _ _ _ => rfl, fun _ _ _ _ _ hw => hw, fun _ _ _ => rfl,
    fun _ _ hn => hn, l.keep, fun f hf => ?_, l.max_eq, rfl⟩
  · have hs := h.counted f (l.max_eq ▸ hf) ht
    have hl := hle f
    unfold slack at hs ⊢
    dsimp only
    omega
  · obtain ⟨h1, h2, h3, h4⟩ := h.tramp ht
    exact ⟨h1, l.max_eq ▸ h2, by rwa [l.keep _ h3], h4⟩
  · unfold slack
    rw [l.rc_eq f hf]

/-- **One level of the mapping walk** only grows the tables, and leads to the next table. -/
theorem ensureTable_spec (h : Sound v R) (hr : r ∈ R) {p : List ℕ}
    {i f : ℕ} (hp : p ++ [i] ∈ userPaths) (hw : walk childTable v.mem r p = some f) (big : Bool) :
    Grown v (ensureTable v f i big).2 R ∧ ∀ g, (ensureTable v f i big).1 = some g →
      walk childTable (ensureTable v f i big).2.mem r (p ++ [i]) = some g := by
  unfold ensureTable
  by_cases hpres : present (v.mem f i) = true
  · -- the entry is there, for the user and for a table
    obtain ⟨huser, hlarge⟩ := h.shape.upper hr hp hw hpres
    have hskip : ¬ (¬ present (v.mem f i) = true ∨ (big = true ∧ large (v.mem f i) = true)) := by simp [hpres, hlarge]
    rw [if_neg hskip, if_neg (not_not.mpr huser)]
    refine ⟨Grown.refl h, fun g hg => ?_⟩
    cases hg
    rw [walk_concat, hw, Option.bind_some, childTable, if_pos ⟨hpres, hlarge⟩]
  · rw [if_pos (.inl hpres)]
    obtain ⟨hfail, l⟩ | ⟨g, hg, a⟩ := allocPage_cases h.inv
    · simp only [hfail, if_true]
      exact ⟨grown_of_allocFailed h l, fun g hg => by cases hg⟩
    · obtain ⟨hgt, hgm, -⟩ := h.fresh a.lt a.free
      simp only [hg, a.ok, a.frame, Bool.false_eq_true, if_false]
      set v1 : Vm := ({ v with pmm := (pmmAllocPage v.pmm).2 }.setFrame g fun _ => 0#64).setWord f i
        (tableEntry (g * pageSize)) with hv1
      obtain ⟨hshape, hwalk, htables, hview⟩ := h.shape.graft v1.mem hr hp hw hpres hgt a.frame hgm rfl
      have hfne : f ≠ g := fun hfg => hgt (hfg ▸ mem_nodes hr (userPaths_closed.init_mem hp) hw)
      obtain ⟨hsound, hslack⟩ := h.newTable (show NewPage v.pmm v1.pmm g from a) hshape htables
        (fun q => refs_congr fun r' hr' x => by rw [hview r' hr' x])
        (fun r' hr' x _ => ⟨hr', hview r' hr' x⟩) rfl
      refine ⟨⟨hsound, hview, ?_, fun q hq _ => ?_, fun q hq hqt => ?_, fun q hq => a.keep hq,
        fun q _ => hslack q, a.max_eq, rfl⟩, ?_⟩
      · -- a walk that existed does not use the new entry
        intro r' hr' q hq f' hwq
        have hnone : childTable (v.mem f i) = none := by simp [childTable, hpres]
        have hgraft : walk childTable v1.mem r' q = if r' = r ∧ q = p ++ [i] then some g else
            walk childTable v.mem r' q := h.shape.forest.walk_graft userPaths_closed hr hp hw hnone hgt
          (by simp [hv1, Vm.setWord, a.frame]) (by simp [hv1, Vm.setWord, Vm.setFrame, hfne.symm])
          (fun f'' j hne hfi => by
            simp only [hv1, Vm.setWord, Vm.setFrame]
            by_cases hf'' : f'' = f
            · subst hf''
              rw [Function.update_self, Function.update_of_ne fun hj => hfi ⟨rfl, hj⟩, Function.update_of_ne hne]
            · rw [Function.update_of_ne hf'', Function.update_of_ne hne]) hr' hq
        rw [hgraft, if_neg, hwq]
        rintro ⟨rfl, rfl⟩
        rw [walk_concat, hw, Option.bind_some, hnone] at hwq
        cases hwq
      · have hqg : q ≠ g := fun hqg => hq (htables ▸ .inl hqg)
        have hqf : q ≠ f := by
          rintro rfl
          exact hq (htables ▸ .inr (mem_nodes hr (userPaths_closed.init_mem hp) hw))
        simp [hv1, Vm.setWord, Vm.setFrame, hqf, hqg]
      · rw [htables]
        rintro (hqg | hmem)
        · exact a.ne hq hqg
        · exact hqt hmem
      · intro g' hg'
        have hword : v1.mem f i = tableEntry (g * pageSize) := by simp [hv1, Vm.setWord]
        rw [hword, pteFrame_tableEntry, a.frame] at hg'
        rw [← Option.some.inj hg']
        exact hwalk

/-- **The walk of `pmap_map_user_page`**: it is refused, with tables grown at most, or it reaches
the last table and writes the leaf there. -/
theorem mapUserPage_cases (h : Sound v R) (hr : r ∈ R) (va paddr : ℕ) (flags : BitVec 64) :
    (∃ v1, Grown v v1 R ∧ pmapMapUserPage v (r * pageSize) va paddr flags = (0, v1)) ∨
      ∃ v1 pt, Grown v v1 R ∧ va < userEnd ∧ tableOf v1.mem r (vaSlot va) = some pt ∧
        pmapMapUserPage v (r * pageSize) va paddr flags = (paddr, setLeaf v1 pt va paddr flags) := by
  unfold pmapMapUserPage
  by_cases hva : r * pageSize = 0 ∨ va < 0x1000 ∨ va ≥ userEnd
  · rw [if_pos hva]
    exact .inl ⟨v, Grown.refl h, rfl⟩
  rw [if_neg hva]
  have hlt : va < userEnd := by omega
  have h4 := vaIndex_four hlt
  have hidx : vaIndex 4 va < 256 := h4 ▸ (vaSlot va).1.isLt
  rw [if_neg (not_le.mpr hidx), h.frameOf_root hr]
  -- three levels, each from the table the one before led to
  obtain ⟨g1, hw1⟩ := ensureTable_spec h hr (vaPath_mem hlt ⟨_, rfl⟩) (walk_nil r) false
  rcases he : ensureTable v r (vaIndex 4 va) false with ⟨_ | pdpt, v1⟩ <;> rw [he] at g1 hw1
  · exact .inl ⟨v1, g1, rfl⟩
  obtain ⟨g2, hw2⟩ := ensureTable_spec g1.sound hr
    (vaPath_mem hlt ⟨_, rfl⟩) (hw1 pdpt rfl) false
  dsimp only
  rcases he : ensureTable v1 pdpt (vaIndex 3 va) false with ⟨_ | pd, v2⟩ <;> rw [he] at g2 hw2
  · exact .inl ⟨v2, g1.trans g2, rfl⟩
  obtain ⟨g3, hw3⟩ := ensureTable_spec g2.sound hr
    (vaPath_mem hlt ⟨_, rfl⟩) (hw2 pd rfl) true
  dsimp only
  rcases he : ensureTable v2 pd (vaIndex 2 va) true with ⟨_ | pt, v3⟩ <;> rw [he] at g3 hw3
  · exact .inl ⟨v3, (g1.trans g2).trans g3, rfl⟩
  refine .inr ⟨v3, pt, (g1.trans g2).trans g3, hlt, ?_, rfl⟩
  rw [tableOf, slotPath_vaSlot hlt]
  exact hw3 pt rfl

/-! ## Writing the leaf -/

/-- The references the code drops when an entry replaces `old`: none if the frame stays or the page
is the trampoline's. -/
def dropped (x : Slot) (old new : BitVec 64) (f : ℕ) : ℕ :=
  if pteFrame old = pteFrame new ∨ x = trampSlot then 0 else hit old f

/-- What `setLeaf` does to the memory and to the counts. -/
lemma setLeaf_facts (h : Sound v R)
    (hva : va < userEnd) (hpt : tableOf v.mem r (vaSlot va) = some pt) (paddr : ℕ)
    (hflags : flags &&& ptePhysMask = 0#64) :
    (setLeaf v pt va paddr flags).mem = Function.update v.mem pt (Function.update (v.mem pt) (slotLast (vaSlot va))
          (leafEntry paddr flags)) ∧
      (setLeaf v pt va paddr flags).pmm.Inv ∧
      (setLeaf v pt va paddr flags).pmm.maxPhysPage = v.pmm.maxPhysPage ∧
      (setLeaf v pt va paddr flags).trampPhys = v.trampPhys ∧
      ∀ f, rc (setLeaf v pt va paddr flags).pmm f =
        rc v.pmm f - dropped (vaSlot va) (view v.mem r (vaSlot va)) (leafEntry paddr flags) f := by
  have hold : v.mem pt (vaIndex 1 va) = view v.mem r (vaSlot va) := (view_of_table hpt).symm
  have hframe : pteFrame (leafEntry paddr flags) = frameOf paddr := pteFrame_leafEntry paddr hflags
  have hmask : (view v.mem r (vaSlot va) &&& ptePhysMask ≠ BitVec.ofNat 64 paddr &&& ptePhysMask) ↔
      pteFrame (view v.mem r (vaSlot va)) ≠ frameOf paddr := by
    refine not_congr ⟨pteFrame_congr, fun heq => BitVec.eq_of_toNat_eq ?_⟩
    have hl := ptePhys_eq (view v.mem r (vaSlot va))
    have hr' := ptePhys_eq (BitVec.ofNat 64 paddr)
    rw [heq] at hl
    exact hl.trans hr'.symm
  obtain ⟨L, hL⟩ := h.inv
  unfold setLeaf
  simp only [hold, hmask]
  split_ifs with hcond
  · refine ⟨rfl, hL.release _, pmmReleasePage_maxPhysPage _ _, rfl, fun f => ?_⟩
    have htr : vaSlot va ≠ trampSlot := fun heq => hcond.2.2 ((vaSlot_eq_trampSlot hva).mp heq)
    have hkept : ¬ (pteFrame (view v.mem r (vaSlot va)) = frameOf paddr ∨ vaSlot va = trampSlot) := by
      rintro (heq | heq)
      · exact hcond.2.1 heq
      · exact htr heq
    rw [dropped, hframe, if_neg hkept]
    exact rc_release_pte v.pmm hcond.1 f
  · refine ⟨rfl, ⟨L, hL⟩, rfl, rfl, fun f => ?_⟩
    have hzero : dropped (vaSlot va) (view v.mem r (vaSlot va)) (leafEntry paddr flags) f = 0 := by
      rw [dropped, hframe]
      split_ifs with hx
      · rfl
      · rw [hit, if_neg]
        rintro ⟨hp, -⟩
        refine hcond ⟨hp, fun heq => hx (.inl heq), fun heq => hx (.inr ?_)⟩
        exact (vaSlot_eq_trampSlot hva).mpr heq
    rw [hzero, Nat.sub_zero]
    rfl

/-- From `v` to `v'` slot `x` of address space `r` has become `w`, tables may have grown, and the
frames have gained the references `extra`. -/
structure Remap (v v' : Vm) (R : Finset ℕ) (r : ℕ) (x : Slot) (w : BitVec 64) (extra : ℕ → ℕ) :
    Prop where
  sound : Sound v' R
  view_eq : ∀ r' ∈ R, ∀ y, view v'.mem r' y = if r' = r ∧ y = x then w else view v.mem r' y
  walk_mono : ∀ r' ∈ R, ∀ q ∈ userPaths, ∀ f, walk childTable v.mem r' q = some f →
    walk childTable v'.mem r' q = some f
  data_eq : ∀ f, f ∉ tables v'.mem R → v.held f → v'.mem f = v.mem f
  used : ∀ f, rc v.pmm f ≠ 0 → f ∉ tables v.mem R → f ∉ tables v'.mem R
  rc_eq : ∀ f, rc v.pmm f ≠ 0 → rc v'.pmm f = rc v.pmm f - dropped x (view v.mem r x) w f + extra f
  slack_eq : ∀ f ≠ 0, f < v.pmm.maxPhysPage → ¬ v.isTramp f →
    slack v' R f = slack v R f - hit w f + hit (view v.mem r x) f -
      dropped x (view v.mem r x) w f + extra f
  max_eq : v'.pmm.maxPhysPage = v.pmm.maxPhysPage
  tramp_eq : v'.trampPhys = v.trampPhys

/-- Only an entry of a frame can drop a reference of it, and of the trampoline none is dropped. -/
lemma dropped_le (h : Sound v R) (hr : r ∈ R) (x : Slot) (w : BitVec 64) (f : ℕ) :
    dropped x (view v.mem r x) w f ≤ hit (view v.mem r x) f ∧ (v.isTramp f → dropped x (view v.mem r x) w f = 0) := by
  unfold dropped
  split_ifs with hx
  · exact ⟨Nat.zero_le _, fun _ => rfl⟩
  · refine ⟨le_rfl, fun ht => ?_⟩
    by_contra hne
    obtain ⟨hp, hf⟩ := hit_pos.mp (Nat.pos_of_ne_zero hne)
    exact hx (.inr (h.tramp_slot hr hp (hf ▸ ht)))

/-- **The last step of a mapping**, with whatever references its caller adds for the frame: the
frame needs a unit of slack or one of these. -/
lemma remap_of_setLeaf {v1 v2 : Vm} (g : Grown v v1 R) (hr : r ∈ R)
    {paddr : ℕ} (hva : va < userEnd) (hpt : tableOf v1.mem r (vaSlot va) = some pt)
    (hflags : flags &&& ptePhysMask = 0#64)
    (htab : frameOf paddr ∉ tables v1.mem R)
    (htr : v.isTramp (frameOf paddr) → vaSlot va = trampSlot) {extra : ℕ → ℕ}
    (hv2 : v2 = { setLeaf v1 pt va paddr flags with pmm := p }) (hinv : p.Inv)
    (hmax : p.maxPhysPage = v1.pmm.maxPhysPage)
    (hrc : ∀ f, rc p f = rc (setLeaf v1 pt va paddr flags).pmm f + extra f)
    (hslack : frameOf paddr < v.pmm.maxPhysPage → ¬ v.isTramp (frameOf paddr) →
      1 ≤ slack v1 R (frameOf paddr) + extra (frameOf paddr)) :
    Remap v v2 R r (vaSlot va) (leafEntry paddr flags) extra := by
  have h1 := g.sound
  set x := vaSlot va with hx
  set w := leafEntry paddr flags with hw
  have hframe : pteFrame w = frameOf paddr := pteFrame_leafEntry paddr hflags
  obtain ⟨hmem, -, -, htramp, hrcLeaf⟩ := setLeaf_facts h1 hva hpt paddr hflags
  obtain ⟨hshape, hwalks, hview⟩ := h1.shape.writeLeaf hr hpt v2.mem (w := w)
    (fun _ => ⟨by simp [hw], by rwa [hframe]⟩) (by rw [hv2]; exact hmem)
  have hpmm : v2.pmm = p := by rw [hv2]
  have hvtr : v2.trampPhys = v1.trampPhys := by rw [hv2]; exact htramp
  have hisTramp := isTramp_congr hvtr
  have hisTramp1 := isTramp_congr g.tramp_eq
  have hold : view v1.mem r x = view v.mem r x := g.view_eq r hr x
  have hdrop := fun f => dropped_le h1 hr x w f
  have hrc2 : ∀ f, rc v2.pmm f = rc v1.pmm f - dropped x (view v1.mem r x) w f + extra f := by
    intro f
    rw [hpmm, hrc, hrcLeaf]
  -- a drop of a managed frame finds a reference to drop
  have henough : ∀ f < v1.pmm.maxPhysPage, ¬ v1.isTramp f → dropped x (view v1.mem r x) w f ≤ rc v1.pmm f := by
    intro f hf ht
    have hc := h1.counted f hf ht
    have hle := (hdrop f).1.trans (hit_le_refs hr x f)
    unfold slack at hc
    omega
  have hslack2 : ∀ f < v1.pmm.maxPhysPage, ¬ v1.isTramp f →
      slack v2 R f = slack v1 R f - hit w f + hit (view v1.mem r x) f -
        dropped x (view v1.mem r x) w f + extra f := by
    intro f hf ht
    have hrefs := refs_write hr hview f
    have hle := henough f hf ht
    unfold slack
    rw [hrc2, tabs_congr hwalks.tables_eq]
    omega
  refine ⟨⟨hpmm ▸ hinv, hshape, ?_, ?_, ?_, ?_⟩, ?_, ?_, ?_, ?_, ?_, ?_, ?_, ?_⟩
  · rw [hwalks.tables_eq, hpmm, hmax]
    exact h1.table_lt
  · intro f hf ht
    rw [hpmm, hmax] at hf
    rw [hisTramp] at ht
    have hc := h1.counted f hf ht
    have hd := (hdrop f).1
    rw [hslack2 f hf ht]
    by_cases hhit : hit w f = 0
    · omega
    · obtain ⟨-, hwf⟩ := hit_pos.mp (Nat.pos_of_ne_zero hhit)
      have hone := hit_le_one w f
      rw [hframe] at hwf
      subst hwf
      have hs := hslack (g.max_eq ▸ hf) fun ht' => ht ((hisTramp1 _).mpr ht')
      omega
  · intro ht
    rw [hvtr] at ht ⊢
    obtain ⟨a1, a2, a3, a4⟩ := h1.tramp ht
    refine ⟨a1, by rw [hpmm, hmax]; exact a2, ?_, by rwa [hwalks.tables_eq]⟩
    rw [hrc2, (hdrop _).2 ⟨ht, rfl⟩]
    omega
  · intro r' y hr' hp ht
    rw [hview r' hr' y] at hp ht
    rw [hisTramp] at ht
    split_ifs at hp ht with hxy
    · rw [hxy.2]
      rw [hframe, hisTramp1] at ht
      exact htr ht
    · exact h1.tramp_slot hr' hp ht
  · intro r' hr' y
    rw [hview r' hr' y, g.view_eq r' hr' y]
  · intro r' hr' q hq f hwq
    rw [hwalks r' hr' q hq]
    exact g.walk_mono r' hr' q hq f hwq
  · intro f hf hh
    rw [hwalks.tables_eq] at hf
    have hne : f ≠ pt := fun hfp => hf (hfp ▸ tableOf_mem_tables hr hpt)
    have hsame : v2.mem f = v1.mem f := by
      rw [hv2]
      rw [hmem, Function.update_of_ne hne]
    rw [hsame]
    exact g.data_eq f hf hh
  · intro f hrcf hf
    rw [hwalks.tables_eq]
    exact g.used f hrcf hf
  · intro f hrcf
    rw [hrc2, g.rc_eq f hrcf, hold]
  · intro f hf0 hf ht
    rw [hslack2 f (g.max_eq.symm ▸ hf) fun ht' => ht ((hisTramp1 f).mp ht'), g.slack_eq f hf0, hold]
  · rw [hpmm, hmax, g.max_eq]
  · rw [hvtr, g.tramp_eq]

/-- **What `pmap_map_user_page` does** with a frame that has a reference to spare: it is refused
with tables grown at most, or one slot maps the frame now. -/
theorem mapUserPage_spec (h : Sound v R) (hr : r ∈ R) (va paddr : ℕ) (hflags : flags &&& ptePhysMask = 0#64)
    (htab : frameOf paddr ∉ tables v.mem R)
    (hlive : frameOf paddr < v.pmm.maxPhysPage → rc v.pmm (frameOf paddr) ≠ 0)
    (htr : v.isTramp (frameOf paddr) → vaSlot va = trampSlot)
    (hslack : frameOf paddr < v.pmm.maxPhysPage → ¬ v.isTramp (frameOf paddr) →
      frameOf paddr ≠ 0 ∧ 1 ≤ slack v R (frameOf paddr)) :
    ((pmapMapUserPage v (r * pageSize) va paddr flags).1 = 0 ∧
        Grown v (pmapMapUserPage v (r * pageSize) va paddr flags).2 R) ∨
      ((pmapMapUserPage v (r * pageSize) va paddr flags).1 = paddr ∧ va < userEnd ∧
        Remap v (pmapMapUserPage v (r * pageSize) va paddr flags).2 R r (vaSlot va)
          (leafEntry paddr flags) fun _ => 0) := by
  rcases mapUserPage_cases h hr va paddr flags with ⟨v1, g, heq⟩ | ⟨v1, pt, g, hva, hpt, heq⟩
  · rw [heq]
    exact .inl ⟨rfl, g⟩
  · rw [heq]
    refine .inr ⟨rfl, hva, ?_⟩
    obtain ⟨-, hinv, hmax, -⟩ := setLeaf_facts g.sound hva hpt paddr hflags
    have htab1 : frameOf paddr ∉ tables v1.mem R := by
      by_cases hlt : frameOf paddr < v.pmm.maxPhysPage
      · exact g.used _ (hlive hlt) htab
      · intro hmem
        exact hlt (g.max_eq ▸ (g.sound.table_lt _ hmem).1)
    refine remap_of_setLeaf g hr hva hpt hflags htab1 htr rfl hinv hmax (fun f => rfl) ?_
    intro hlt ht
    obtain ⟨h0, h1⟩ := hslack hlt ht
    rw [g.slack_eq _ h0]
    simpa using h1

end Chimera
