import Chimera.Exec.Stack

/-!
# When the loader finds enough memory

Whether the pages of an image can all be mapped is a question about the allocator and the page
tables alone, not about what is written to the pages. `mapsAll` asks it without an image: it maps
fresh pages at a list of addresses and says whether all of that went well. The loader gets its pages
exactly when `mapsAll` says so (`loadsTo_iff`), because two states with the same tables map alike
(`SameTables`). Four free pages for each page to map are always enough (`populateList_of_room`).
-/

namespace Chimera

open Lib

/-- Map a fresh page, `none` if there is no memory for it. -/
def mapFreshOk (pml4Phys vaddr : ℕ) (flags : BitVec 64) (v : Vm) : Option Vm :=
  let a := pmmAllocPage v.pmm
  if allocFailed a.1 then none
  else
    let m := pmapMapUserPage { v with pmm := a.2 } pml4Phys vaddr a.1 flags
    if m.1 = 0 then none else some m.2

/-- Can fresh pages be mapped at all these addresses, one after the other? -/
def mapsAll (pml4Phys : ℕ) : List (ℕ × BitVec 64) → Vm → Bool
  | [], _ => true
  | (va, fl) :: l, v =>
      match mapFreshOk pml4Phys va fl v with
      | none => false
      | some v' => mapsAll pml4Phys l v'

/-- The page loops of the loader as one, over pages with their flags and contents. -/
def populateList (pml4Phys : ℕ) : List (ℕ × BitVec 64 × (ℕ → BitVec 64)) → Vm → Except Vm Vm
  | [], v => .ok v
  | (va, fl, c) :: l, v =>
      match loaderPage pml4Phys va fl c v with
      | .error v' => .error v'
      | .ok v' => populateList pml4Phys l v'

/-- The pages of a segment, with their flags and contents. -/
def segmentList (img : Image) (seg : Segment) : List (ℕ × BitVec 64 × (ℕ → BitVec 64)) :=
  seg.pages.map fun va => (va, seg.pageFlags, segPage img seg va)

/-- The pages of the stack. -/
def stackList : List (ℕ × BitVec 64 × (ℕ → BitVec 64)) :=
  stackPages.map fun va => (va, loaderStackFlags, fun _ => 0#64)

/-- The pages that segments and the stack need. -/
def neededPages (segs : List Segment) : List (ℕ × BitVec 64) :=
  (segs.flatMap fun seg => seg.pages.map fun va => (va, seg.pageFlags)) ++
    stackPages.map fun va => (va, loaderStackFlags)

section lists

variable {pml4 : ℕ} {v v' : Vm}

lemma populateList_append {l l' : List (ℕ × BitVec 64 × (ℕ → BitVec 64))} : populateList pml4 (l ++ l') v = .ok v' ↔
      ∃ v1, populateList pml4 l v = .ok v1 ∧ populateList pml4 l' v1 = .ok v' := by
  induction l generalizing v with
  | nil => simp [populateList]
  | cons q l ih =>
    obtain ⟨va, fl, c⟩ := q
    rw [List.cons_append, populateList, populateList]
    cases loaderPage pml4 va fl c v with
    | error v1 => simp
    | ok v1 => exact ih

lemma populate_eq_list (fl : BitVec 64) (content : ℕ → ℕ → BitVec 64) (vas : List ℕ) :
    populate pml4 fl content vas v = populateList pml4 (vas.map fun va => (va, fl, content va)) v := by
  induction vas generalizing v with
  | nil => rfl
  | cons va vas ih =>
    rw [populate, List.map_cons, populateList]
    cases loaderPage pml4 va fl (content va) v with
    | error v1 => rfl
    | ok v1 => exact ih

lemma loadSegments_eq_list (img : Image) (segs : List Segment) : loadSegments img pml4 segs v = .ok v' ↔
      populateList pml4 (segs.flatMap (segmentList img)) v = .ok v' := by
  induction segs generalizing v with
  | nil => exact Iff.rfl
  | cons seg segs ih =>
    rw [List.flatMap_cons, populateList_append, loadSegments, loadSegment, populate_eq_list]
    have hseg : (seg.pages.map fun va => (va, seg.pageFlags, segPage img seg va)) = segmentList img seg := rfl
    rw [hseg]
    cases populateList pml4 (segmentList img seg) v with
    | error v1 => simp
    | ok v1 => simp [ih]

end lists

/-! ## Two states with the same tables -/

/-- The address spaces `R` have the same page tables in both states, and the allocators agree. -/
structure SameTables (v w : Vm) (R : Finset ℕ) : Prop where
  pmm_eq : w.pmm = v.pmm
  mem_eq : ∀ f ∈ tables v.mem R, w.mem f = v.mem f

variable {v w : Vm} {R : Finset ℕ} {r : ℕ}

lemma SameTables.setFrame (s : SameTables v w R) {g : ℕ} (c : ℕ → BitVec 64) (h : Sound v R)
    (hg : g ∉ tables v.mem R) : SameTables (v.setFrame g c) w R := by
  have t : Touched v (v.setFrame g c) R {g} := h.touch (by rintro f rfl; exact hg) _
    fun f hf => Function.update_of_ne hf _ _
  refine ⟨s.pmm_eq, fun f hf => ?_⟩
  rw [t.walks.tables_eq] at hf
  rw [s.mem_eq f hf]
  have hne : f ≠ g := fun heq => hg (heq ▸ hf)
  exact (Function.update_of_ne hne _ _).symm

variable {f i va k : ℕ} {p : List ℕ} {flags : BitVec 64} {l : List (ℕ × BitVec 64 × (ℕ → BitVec 64))}

section

variable (s : SameTables v w R) (h : Sound v R) (hr : r ∈ R)
include s h hr

/-- **One level of the mapping walk** goes the same way in both states. -/
lemma SameTables.ensure (hp : p ++ [i] ∈ userPaths) (hw : walk childTable v.mem r p = some f) (big : Bool) :
    (ensureTable w f i big).1 = (ensureTable v f i big).1 ∧
      SameTables (ensureTable v f i big).2 (ensureTable w f i big).2 R := by
  have hft : f ∈ tables v.mem R := mem_nodes hr (userPaths_closed.init_mem hp) hw
  obtain ⟨g, -⟩ := ensureTable_spec h hr hp hw big
  unfold ensureTable at g ⊢
  rw [s.mem_eq f hft, s.pmm_eq]
  by_cases habs : ¬ present (v.mem f i) = true ∨ (big = true ∧ large (v.mem f i) = true)
  swap
  · rw [if_neg habs, if_neg habs]
    split_ifs
    · exact ⟨rfl, s⟩
    · exact ⟨rfl, s⟩
  rw [if_pos habs] at g
  rw [if_pos habs, if_pos habs]
  by_cases hfail : allocFailed (pmmAllocPage v.pmm).1 = true
  · rw [if_pos hfail, if_pos hfail]
    exact ⟨rfl, rfl, s.mem_eq⟩
  rw [if_neg hfail] at g
  rw [if_neg hfail, if_neg hfail]
  dsimp only at g ⊢
  obtain ⟨hf, -⟩ | ⟨k, hk, a⟩ := allocPage_cases h.inv
  · exact absurd hf hfail
  rw [hk, a.frame] at g ⊢
  have hfne : f ≠ k := fun heq => (h.fresh a.lt a.free).1 (heq ▸ hft)
  have hword : ∀ u : Vm, ((({ u with pmm := (pmmAllocPage v.pmm).2 } : Vm).setFrame k fun _ => 0#64).setWord f i
      (tableEntry (k * pageSize))).mem f i = tableEntry (k * pageSize) := by
    intro u
    simp [Vm.setWord]
  refine ⟨by rw [hword, hword], rfl, fun q hq => ?_⟩
  by_cases hqf : q = f
  · subst hqf
    simp [Vm.setWord, Vm.setFrame, hfne, s.mem_eq q hft]
  by_cases hqk : q = k
  · subst hqk
    simp [Vm.setWord, Vm.setFrame, hfne.symm]
  -- a table that is not the new one was there before
  have hold : q ∈ tables v.mem R := by
    by_contra hnew
    have hrcq : rc v.pmm q = 0 := by
      by_contra hne
      exact g.used q hne hnew hq
    refine (g.sound.fresh (g.sound.table_lt q hq).1 ?_).1 hq
    exact (a.rc_eq q).trans ((if_neg hqk).trans hrcq)
  simp [Vm.setWord, Vm.setFrame, hqf, hqk, s.mem_eq q hold]

/-- **Writing a leaf** does the same in both states. -/
lemma SameTables.leaf {pt paddr : ℕ}
    (hva : va < userEnd) (hpt : tableOf v.mem r (vaSlot va) = some pt)
    (hflags : flags &&& ptePhysMask = 0#64) (htab : frameOf paddr ∉ tables v.mem R) :
    SameTables (setLeaf v pt va paddr flags) (setLeaf w pt va paddr flags) R := by
  have hptt := s.mem_eq pt (tableOf_mem_tables hr hpt)
  obtain ⟨hleaf, -⟩ := setLeaf_facts h hva hpt paddr hflags
  obtain ⟨-, hwalks, -⟩ := h.shape.writeLeaf hr hpt (setLeaf v pt va paddr flags).mem
    (fun _ => ⟨user_leafEntry _ _, by rwa [pteFrame_leafEntry paddr hflags]⟩) hleaf
  constructor
  · unfold setLeaf
    rw [hptt, s.pmm_eq]
    dsimp only
    split_ifs
    · rfl
    · exact s.pmm_eq
  · intro f hf
    rw [hwalks.tables_eq] at hf
    have hmemw : (setLeaf w pt va paddr flags).mem =
        Function.update w.mem pt (Function.update (w.mem pt) (vaIndex 1 va) (leafEntry paddr flags)) := by
      unfold setLeaf
      dsimp only
      split_ifs <;> rfl
    rw [hmemw, hleaf, hptt]
    by_cases hfp : f = pt
    · subst hfp
      rw [Function.update_self, Function.update_self]
      rfl
    · rw [Function.update_of_ne hfp, Function.update_of_ne hfp]
      exact s.mem_eq f hf

/-- **Mapping a page** goes the same way in both states. -/
lemma SameTables.map (va paddr : ℕ)
    (hflags : flags &&& ptePhysMask = 0#64) (htab : frameOf paddr ∉ tables v.mem R)
    (hlive : rc v.pmm (frameOf paddr) ≠ 0) :
    (pmapMapUserPage w (r * pageSize) va paddr flags).1 = (pmapMapUserPage v (r * pageSize) va paddr flags).1 ∧
      SameTables (pmapMapUserPage v (r * pageSize) va paddr flags).2
        (pmapMapUserPage w (r * pageSize) va paddr flags).2 R := by
  unfold pmapMapUserPage
  by_cases hva : r * pageSize = 0 ∨ va < 0x1000 ∨ va ≥ userEnd
  · rw [if_pos hva, if_pos hva]
    exact ⟨rfl, s⟩
  rw [if_neg hva, if_neg hva]
  have hlt : va < userEnd := by omega
  have hidx : vaIndex 4 va < 256 := vaIndex_four hlt ▸ (vaSlot va).1.isLt
  rw [if_neg (not_le.mpr hidx), if_neg (not_le.mpr hidx), h.frameOf_root hr]
  -- the three levels, as in the walk of one state
  obtain ⟨g1, hw1⟩ := ensureTable_spec h hr (vaPath_mem hlt ⟨_, rfl⟩) (walk_nil r) false
  obtain ⟨e1, s1⟩ := s.ensure h hr (vaPath_mem hlt ⟨_, rfl⟩) (walk_nil r) false
  rcases hv : ensureTable v r (vaIndex 4 va) false with ⟨o1, v1⟩
  rcases hw : ensureTable w r (vaIndex 4 va) false with ⟨o1', w1⟩
  rw [hv] at g1 hw1
  rw [hv, hw] at e1 s1
  obtain rfl := e1
  rcases o1' with _ | pdpt
  · exact ⟨rfl, s1⟩
  obtain ⟨g2, hw2⟩ := ensureTable_spec g1.sound hr
    (vaPath_mem hlt ⟨_, rfl⟩) (hw1 pdpt rfl) false
  obtain ⟨e2, s2⟩ := s1.ensure g1.sound hr
    (vaPath_mem hlt ⟨_, rfl⟩) (hw1 pdpt rfl) false
  dsimp only
  rcases hv : ensureTable v1 pdpt (vaIndex 3 va) false with ⟨o2, v2⟩
  rcases hw : ensureTable w1 pdpt (vaIndex 3 va) false with ⟨o2', w2⟩
  rw [hv] at g2 hw2
  rw [hv, hw] at e2 s2
  obtain rfl := e2
  rcases o2' with _ | pd
  · exact ⟨rfl, s2⟩
  obtain ⟨g3, hw3⟩ := ensureTable_spec g2.sound hr
    (vaPath_mem hlt ⟨_, rfl⟩) (hw2 pd rfl) true
  obtain ⟨e3, s3⟩ := s2.ensure g2.sound hr
    (vaPath_mem hlt ⟨_, rfl⟩) (hw2 pd rfl) true
  dsimp only
  rcases hv : ensureTable v2 pd (vaIndex 2 va) true with ⟨o3, v3⟩
  rcases hw : ensureTable w2 pd (vaIndex 2 va) true with ⟨o3', w3⟩
  rw [hv] at g3 hw3
  rw [hv, hw] at e3 s3
  obtain rfl := e3
  rcases o3' with _ | pt
  · exact ⟨rfl, s3⟩
  have hpt : tableOf v3.mem r (vaSlot va) = some pt := by
    rw [tableOf, slotPath_vaSlot hlt]
    exact hw3 pt rfl
  exact ⟨rfl, s3.leaf g3.sound hr hlt hpt hflags (((g1.trans g2).trans g3).used _ hlive htab)⟩

/-- **One page of the loader** is one fresh page mapped, in a state with the same tables. -/
lemma SameTables.page (va : ℕ) {fl : BitVec 64}
    (hfl : fl &&& ptePhysMask = 0#64) (c : ℕ → BitVec 64) :
    (∃ v', loaderPage (r * pageSize) va fl c v = .error v' ∧ mapFreshOk (r * pageSize) va fl w = none) ∨
      ∃ v' w', loaderPage (r * pageSize) va fl c v = .ok v' ∧ Sound v' R ∧
        mapFreshOk (r * pageSize) va fl w = some w' ∧ SameTables v' w' R := by
  have hspec := loaderPage_spec h hr va hfl c
  unfold loaderPage at hspec ⊢
  unfold mapFreshOk
  rw [s.pmm_eq]
  dsimp only at hspec ⊢
  by_cases hfail : allocFailed (pmmAllocPage v.pmm).1 = true
  · rw [if_pos hfail, if_pos hfail]
    exact .inl ⟨_, rfl, rfl⟩
  rw [if_neg hfail] at hspec
  rw [if_neg hfail, if_neg hfail]
  obtain ⟨hf, -⟩ | ⟨g, hg, a⟩ := allocPage_cases h.inv
  · exact absurd hf hfail
  obtain ⟨hgt, -, -⟩ := h.fresh a.lt a.free
  obtain ⟨ha, -⟩ := h.alloc a
  have s1 : SameTables { v with pmm := (pmmAllocPage v.pmm).2 } { w with pmm := (pmmAllocPage v.pmm).2 } R :=
    ⟨rfl, s.mem_eq⟩
  obtain ⟨he, s2⟩ := s1.map ha hr va (g * pageSize) hfl (by rw [a.frame]; exact hgt)
    (by rw [a.frame, a.self]; exact one_ne_zero)
  rw [hg] at hspec ⊢
  rw [he]
  rcases mapFresh_spec h { v with pmm := (pmmAllocPage v.pmm).2 } hr a rfl (fun _ _ => rfl) va hfl rfl with ⟨h0, -⟩ | ⟨h1, -, m⟩
  · rw [if_pos h0, if_pos h0]
    exact .inl ⟨_, rfl, rfl⟩
  · have hne : ¬ (pmapMapUserPage { v with pmm := (pmmAllocPage v.pmm).2 } (r * pageSize) va (g * pageSize)
        fl).1 = 0 := by
      rw [h1]
      exact Nat.mul_ne_zero a.ne_zero (by decide)
    rw [if_neg hne] at hspec
    rw [if_neg hne, if_neg hne]
    right
    rcases hspec with ⟨v', heq, -⟩ | ⟨v', heq, -, p⟩
    · cases heq
    refine ⟨v', _, heq, p.sound, rfl, ?_⟩
    cases heq
    rw [h1, Nat.mul_div_cancel g (by decide)]
    apply s2.setFrame c m.sound
    have hframe : pteFrame (leafEntry (g * pageSize) fl) = g := by rw [pteFrame_leafEntry _ hfl, a.frame]
    have hnot := m.notMem_tables hr (present_leafEntry _ _)
    rwa [hframe] at hnot

/-- **The page loops succeed exactly when `mapsAll` says so.** -/
lemma SameTables.populateList_iff (hl : ∀ q ∈ l, q.2.1 &&& ptePhysMask = 0#64) :
    (∃ v', populateList (r * pageSize) l v = .ok v') ↔
      mapsAll (r * pageSize) (l.map fun q => (q.1, q.2.1)) w = true := by
  induction l generalizing v w with
  | nil => simp [populateList, mapsAll]
  | cons q l ih =>
    obtain ⟨va, fl, c⟩ := q
    rw [List.map_cons, populateList, mapsAll]
    rcases s.page h hr va (hl _ List.mem_cons_self) c with ⟨v', hv, hw⟩ | ⟨v', w', hv, h', hw, s'⟩
    · rw [hv, hw]
      simp
    · rw [hv, hw]
      exact ih s' h' fun q hq => hl q (List.mem_cons_of_mem _ hq)

end

/-! ## The loader -/

/-- The image passes every test of the loader. -/
def Image.ok (img : Image) : Bool :=
  match img.parse with
  | none => false
  | some (p, _) => entryOk p.entry

lemma neededPages_eq (img : Image) (segs : List Segment) :
    ((segs.flatMap (segmentList img)) ++ stackList).map (fun q => (q.1, q.2.1)) = neededPages segs := by
  simp [neededPages, segmentList, stackList, List.map_flatMap, Function.comp_def]

/-- **When `mach_load_args` succeeds**: the image and the arguments pass the tests, and there is
memory for all pages. -/
theorem loadsTo_iff (h : Sound v R) (hr : r ∈ R) (img : Image) (arg0 : Option (List (BitVec 8)))
    (argv envp : List (List (BitVec 8))) :
    (∃ v', LoadsTo img arg0 argv envp (r * pageSize) v v') ↔ img.ok = true ∧ argsFit arg0 argv envp ∧
        mapsAll (r * pageSize) (neededPages img.segments) v = true := by
  have hpages : ∀ segs, (∃ v1 v', loadSegments img (r * pageSize) segs v = .ok v1 ∧
      mapStack (r * pageSize) v1 = .ok v') ↔ mapsAll (r * pageSize) (neededPages segs) v = true := by
    intro segs
    rw [← neededPages_eq img segs, ← SameTables.populateList_iff ⟨rfl, fun _ _ => rfl⟩ h hr]
    · have hstack : ∀ u, mapStack (r * pageSize) u = populateList (r * pageSize) stackList u := fun u =>
        populate_eq_list _ _ _
      simp only [populateList_append, loadSegments_eq_list, hstack]
      exact exists_comm
    · intro q hq
      rcases List.mem_append.mp hq with hq | hq
      · obtain ⟨seg, -, hq⟩ := List.mem_flatMap.mp hq
        obtain ⟨va, -, rfl⟩ := List.mem_map.mp hq
        exact seg.pageFlags_mask
      · obtain ⟨va, -, rfl⟩ := List.mem_map.mp hq
        exact (by decide : loaderStackFlags &&& ptePhysMask = 0#64)
  unfold LoadsTo Image.ok
  cases hparse : img.parse with
  | none => simp
  | some q =>
    obtain ⟨p, segs⟩ := q
    rw [Image.segments_of_parse hparse, ← hpages segs]
    constructor
    · rintro ⟨v', p', segs', v1, heq, hentry, hsize, hseg, hstack⟩
      cases heq
      exact ⟨hentry, hsize, v1, v', hseg, hstack⟩
    · rintro ⟨hentry, hsize, v1, v', hseg, hstack⟩
      exact ⟨v', p, segs, v1, rfl, hentry, hsize, hseg, hstack⟩

/-! ## Enough free pages -/

/-- At least `k` pages are free, and page `0` is not. -/
structure FreeRoom (s : Pmm) (k : ℕ) : Prop where
  zero : rc s 0 ≠ 0
  free : ∃ F : Finset ℕ, k ≤ F.card ∧ ∀ f ∈ F, f < s.maxPhysPage ∧ rc s f = 0

lemma FreeRoom.mono {s : Pmm} {j : ℕ} (room : FreeRoom s k) (h : j ≤ k) : FreeRoom s j := by
  obtain ⟨F, hF, hfree⟩ := room.free
  exact ⟨room.zero, F, h.trans hF, hfree⟩

/-- With room for it, a page is found. -/
lemma FreeRoom.alloc {s : Pmm} {k : ℕ} (room : FreeRoom s (k + 1)) (h : s.Inv) :
    allocFailed (pmmAllocPage s).1 = false ∧ FreeRoom (pmmAllocPage s).2 k := by
  obtain ⟨F, hF, hfree⟩ := room.free
  obtain ⟨f0, hf0⟩ : F.Nonempty := Finset.card_pos.mp (by omega)
  obtain ⟨hfail, -⟩ | ⟨g, hg, a⟩ := allocPage_cases h
  · -- neither is the allocator empty nor does it give out page `0`
    exfalso
    obtain ⟨-, ⟨-, hnone⟩ | ⟨p, hp, ht⟩⟩ := pmmAllocPage_spec h
    · exact hnone f0 (hfree f0 hf0).1 (hfree f0 hf0).2
    · have hpf := mem_freeSet.mp (ht.free (start_mem_blk p 0))
      have hne := mul_pageSize_ne_paddrFail p
      rw [hp, allocFailed, decide_eq_true_eq] at hfail
      have hp0 : p = 0 := by
        rcases hfail with h0 | h0
        · exact (Nat.mul_eq_zero.mp h0).resolve_right (by decide)
        · exact absurd h0 hne
      exact room.zero (hp0 ▸ hpf.2)
  · rw [hg]
    refine ⟨a.ok, ?_, F.erase g, ?_, fun f hf => ?_⟩
    · rw [a.keep room.zero]
      exact room.zero
    · have := Finset.pred_card_le_card_erase (s := F) (a := g)
      omega
    · obtain ⟨hne, hmem⟩ := Finset.mem_erase.mp hf
      rw [a.max_eq, a.rc_eq, if_neg hne]
      exact hfree f hmem

lemma ensureTable_room (h : Sound v R) (hr : r ∈ R)
    (hp : p ++ [i] ∈ userPaths) (hw : walk childTable v.mem r p = some f) (big : Bool)
    (room : FreeRoom v.pmm (k + 1)) :
    (∃ g, (ensureTable v f i big).1 = some g) ∧ FreeRoom (ensureTable v f i big).2.pmm k := by
  unfold ensureTable
  by_cases hpres : present (v.mem f i) = true
  · obtain ⟨huser, hlarge⟩ := h.shape.upper hr hp hw hpres
    have hskip : ¬ (¬ present (v.mem f i) = true ∨ (big = true ∧ large (v.mem f i) = true)) := by simp [hpres, hlarge]
    rw [if_neg hskip, if_neg (not_not.mpr huser)]
    exact ⟨⟨_, rfl⟩, room.mono (Nat.le_succ k)⟩
  · rw [if_pos (.inl hpres)]
    obtain ⟨hok, room'⟩ := room.alloc h.inv
    simp only [hok, Bool.false_eq_true, if_false]
    exact ⟨⟨_, rfl⟩, room'⟩

/-- With room for the tables, a page is mapped. -/
lemma mapUserPage_room (h : Sound v R) (hr : r ∈ R) (paddr : ℕ)
    (hflags : flags &&& ptePhysMask = 0#64) (hlo : 0x1000 ≤ va) (hhi : va < userEnd)
    (hzero : ∀ x, present (view v.mem r x) → pteFrame (view v.mem r x) ≠ 0) (room : FreeRoom v.pmm (k + 3)) :
    (pmapMapUserPage v (r * pageSize) va paddr flags).1 = paddr ∧
      FreeRoom (pmapMapUserPage v (r * pageSize) va paddr flags).2.pmm k := by
  have hroot := h.root_ne_zero hr
  have hva : ¬ (r * pageSize = 0 ∨ va < 0x1000 ∨ va ≥ userEnd) := by omega
  have hidx : vaIndex 4 va < 256 := vaIndex_four hhi ▸ (vaSlot va).1.isLt
  unfold pmapMapUserPage
  rw [if_neg hva, if_neg (not_le.mpr hidx), h.frameOf_root hr]
  obtain ⟨g1, hw1⟩ := ensureTable_spec h hr (vaPath_mem hhi ⟨_, rfl⟩) (walk_nil r) false
  obtain ⟨⟨pdpt, e1⟩, room1⟩ := ensureTable_room h hr (vaPath_mem hhi ⟨_, rfl⟩) (walk_nil r) false
    room
  rcases hv : ensureTable v r (vaIndex 4 va) false with ⟨o1, v1⟩
  rw [hv] at g1 hw1 e1 room1
  obtain rfl := e1
  obtain ⟨g2, hw2⟩ := ensureTable_spec g1.sound hr
    (vaPath_mem hhi ⟨_, rfl⟩) (hw1 pdpt rfl) false
  obtain ⟨⟨pd, e2⟩, room2⟩ := ensureTable_room g1.sound hr
    (vaPath_mem hhi ⟨_, rfl⟩) (hw1 pdpt rfl) false room1
  dsimp only
  rcases hv : ensureTable v1 pdpt (vaIndex 3 va) false with ⟨o2, v2⟩
  rw [hv] at g2 hw2 e2 room2
  obtain rfl := e2
  obtain ⟨g3, hw3⟩ := ensureTable_spec g2.sound hr
    (vaPath_mem hhi ⟨_, rfl⟩) (hw2 pd rfl) true
  obtain ⟨⟨pt, e3⟩, room3⟩ := ensureTable_room g2.sound hr
    (vaPath_mem hhi ⟨_, rfl⟩) (hw2 pd rfl) true room2
  dsimp only
  rcases hv : ensureTable v2 pd (vaIndex 2 va) true with ⟨o3, v3⟩
  rw [hv] at g3 hw3 e3 room3
  obtain rfl := e3
  have hpt : tableOf v3.mem r (vaSlot va) = some pt := by
    rw [tableOf, slotPath_vaSlot hhi]
    exact hw3 pt rfl
  have g := (g1.trans g2).trans g3
  obtain ⟨-, -, hmax, -, hrc⟩ := setLeaf_facts g3.sound hhi hpt paddr hflags
  refine ⟨rfl, ?_, ?_⟩
  · have hdrop : dropped (vaSlot va) (view v3.mem r (vaSlot va)) (leafEntry paddr flags) 0 = 0 := by
      have hle := (dropped_le g3.sound hr (vaSlot va) (leafEntry paddr flags) 0).1
      rw [g.view_eq r hr] at hle ⊢
      rw [hit, if_neg fun hx => hzero _ hx.1 hx.2] at hle
      omega
    rw [hrc, hdrop]
    exact room3.zero
  · obtain ⟨F, hF, hfree⟩ := room3.free
    refine ⟨F, hF, fun f hf => ?_⟩
    rw [hmax, hrc, (hfree f hf).2, Nat.zero_sub]
    exact ⟨(hfree f hf).1, rfl⟩

/-- **Four free pages for each page to map are enough.** -/
lemma populateList_of_room (hr : r ∈ R)
    (hl : ∀ q ∈ l, q.2.1 &&& ptePhysMask = 0#64 ∧ 0x1000 ≤ q.1 ∧ q.1 < userEnd) (h : Sound v R)
    (hzero : ∀ x, present (view v.mem r x) → pteFrame (view v.mem r x) ≠ 0)
    (room : FreeRoom v.pmm (4 * l.length)) : ∃ v', populateList (r * pageSize) l v = .ok v' := by
  induction l generalizing v with
  | nil => exact ⟨v, rfl⟩
  | cons q l ih =>
    obtain ⟨va, fl, c⟩ := q
    obtain ⟨hfl, hlo, hhi⟩ := hl _ List.mem_cons_self
    rw [List.length_cons] at room
    -- the page itself, then its tables
    obtain ⟨hok, room1⟩ := FreeRoom.alloc (k := 4 * l.length + 3) (room.mono (by omega)) h.inv
    obtain ⟨hfail, -⟩ | ⟨g, hg, a⟩ := allocPage_cases h.inv
    · rw [hok] at hfail
      cases hfail
    obtain ⟨ha, -⟩ := h.alloc a
    obtain ⟨hres, room2⟩ := mapUserPage_room ha hr (pmmAllocPage v.pmm).1 hfl hlo hhi hzero room1
    have hne : ¬ (pmapMapUserPage { v with pmm := (pmmAllocPage v.pmm).2 } (r * pageSize) va
        (pmmAllocPage v.pmm).1 fl).1 = 0 := by
      rw [hres, hg]
      exact Nat.mul_ne_zero a.ne_zero (by decide)
    have hpage : loaderPage (r * pageSize) va fl c v = .ok ((pmapMapUserPage
        { v with pmm := (pmmAllocPage v.pmm).2 } (r * pageSize) va (pmmAllocPage v.pmm).1 fl).2.setFrame
        ((pmapMapUserPage { v with pmm := (pmmAllocPage v.pmm).2 } (r * pageSize) va
          (pmmAllocPage v.pmm).1 fl).1 / pageSize) c) := by
      unfold loaderPage
      dsimp only
      rw [hok, if_neg Bool.false_ne_true, if_neg hne]
    rw [populateList, hpage]
    rcases loaderPage_spec h hr va hfl c with ⟨v', heq, -⟩ | ⟨v', heq, -, p⟩
    · rw [hpage] at heq
      cases heq
    rw [hpage] at heq
    cases heq
    refine ih (fun q hq => hl q (List.mem_cons_of_mem _ hq)) p.sound (fun x hp => ?_) room2
    by_cases hx : x = vaSlot va
    · exact (p.loaded x fl c (if_pos hx)).ne_zero
    · have hout : ¬ (r = r ∧ (onePage (vaSlot va) fl c x).isSome) := fun hin => hx (isSome_onePage.mp hin.2)
      rw [p.view_eq r hr x hout] at hp ⊢
      exact hzero x hp

lemma mapsAll_of_room (hr : r ∈ R) {l : List (ℕ × BitVec 64)}
    (hl : ∀ q ∈ l, q.2 &&& ptePhysMask = 0#64 ∧ 0x1000 ≤ q.1 ∧ q.1 < userEnd) (h : Sound v R)
    (hzero : ∀ x, present (view v.mem r x) → pteFrame (view v.mem r x) ≠ 0)
    (room : FreeRoom v.pmm (4 * l.length)) : mapsAll (r * pageSize) l v = true := by
  have hmap : (l.map fun q => (q.1, q.2, fun _ : ℕ => 0#64)).map (fun q => (q.1, q.2.1)) = l := by
    simp [Function.comp_def]
  rw [← hmap, ← SameTables.populateList_iff ⟨rfl, fun _ _ => rfl⟩ h hr]
  · refine populateList_of_room hr (fun q hq => ?_) h hzero (by rwa [List.length_map])
    obtain ⟨q', hq', rfl⟩ := List.mem_map.mp hq
    exact hl q' hq'
  · intro q hq
    obtain ⟨q', hq', rfl⟩ := List.mem_map.mp hq
    exact (hl q' hq').1

/-! ## A machine with room -/

/-- One usable entry of 16384 pages, the first 130 of which hold the descriptors. -/
def roomyMap : List MemmapEntry := [⟨0x100000, 0x4000000, .usable, megabyte_lt, by decide⟩]

lemma roomyMap_init : (pmmInit roomyMap).isSome := by
  unfold pmmInit
  rw [if_neg (by simp [roomyMap]), if_neg (by decide : ¬ arrayPaddr roomyMap = 0)]
  rfl

/-- Its allocator. -/
def roomyPmm : Pmm := (pmmInit roomyMap).get roomyMap_init

lemma roomyPmm_inv : roomyPmm.Inv := by
  have hgood : GoodMap roomyMap := by
    refine ⟨?_, List.pairwise_singleton _ _⟩
    simp only [roomyMap, List.mem_singleton, forall_eq]
    exact ⟨⟨0x100, rfl⟩, ⟨16384, rfl⟩⟩
  have hinit : pmmInit roomyMap = some roomyPmm := by rw [roomyPmm, Option.some_get]
  exact pmmInit_inv hgood (by decide) hinit

/-- Its one entry freed. -/
lemma roomyMap_freed : ∃ s, s.maxPhysPage = 16640 ∧ (∀ q < 16640, rc s q = if 386 ≤ q then 0 else 1) ∧
    roomyMap.foldl (pmmFreeEntry 256 386) (pmmWired roomyMap) = s := by
  have hmax : (pmmWired roomyMap).maxPhysPage = 16640 := by decide
  have hwired : ∀ q < 16640, rc (pmmWired roomyMap) q = 1 := fun q hq => by
    rw [rc, if_pos (hmax ▸ hq), pmmWired_page roomyMap (hmax ▸ hq)]
    rfl
  set e : MemmapEntry := ⟨0x100000, 0x4000000, .usable, by decide, by decide⟩ with he
  have hrange : usablePages (pmmWired roomyMap).maxPhysPage e = (256, 16640) := by
    rw [hmax]
    decide
  refine ⟨pmmFreeEntry 256 386 (pmmWired roomyMap) e, ?_, fun q hq => ?_, rfl⟩
  · obtain ⟨-, hmax', -⟩ := pmmFreeEntry_spec (pmmWired_inv (by decide : maxPhysAddr roomyMap ≤ 2 ^ 44))
      ⟨⟨0x100, rfl⟩, ⟨16384, rfl⟩⟩ (fun q _ hhi => hwired q (by rwa [hrange] at hhi)) 256 386
    exact hmax'.trans hmax
  · rw [pmmFreeEntry_rc (pmmWired roomyMap) rfl, hrange, hwired q hq]
    exact if_congr (by omega) rfl rfl

/-- All pages but those of the descriptors are free. -/
lemma roomyPmm_counts : roomyPmm.maxPhysPage = 16640 ∧ ∀ q < 16640, rc roomyPmm q = if 386 ≤ q then 0 else 1 := by
  obtain ⟨s, hmax, hrc, hfold⟩ := roomyMap_freed
  have hinit : pmmInit roomyMap = some roomyPmm := by rw [roomyPmm, Option.some_get]
  have h256 : arrayPaddr roomyMap / pageSize = 256 := by decide
  have h386 : 256 + pageArrayPages roomyMap = 386 := by decide
  unfold pmmInit at hinit
  rw [if_neg (by simp [roomyMap]), if_neg (by decide : ¬ arrayPaddr roomyMap = 0)] at hinit
  dsimp only at hinit
  rw [h256, h386, hfold] at hinit
  rw [← Option.some.inj hinit]
  split_ifs
  · exact ⟨hmax, hrc⟩
  · exact ⟨hmax, hrc⟩

lemma roomyPmm_room : FreeRoom roomyPmm 16254 := by
  obtain ⟨hmax, hrc⟩ := roomyPmm_counts
  refine ⟨by rw [hrc 0 (by decide)]; decide, Finset.Ico 386 16640, ?_, fun f hf => ?_⟩
  · rw [Nat.card_Ico]
  · obtain ⟨hlo, hhi⟩ := Finset.mem_Ico.mp hf
    rw [hrc f hhi, if_pos hlo, hmax]
    exact ⟨hhi, rfl⟩

/-- An address space without pages, the first of a machine. -/
def firstSpace (p : Pmm) : Vm :=
  newPml4 { pmm := (pmmAllocPage p).2, mem := fun _ _ => 0#64, kernelPml4 := 0, trampPhys := 0 }
    (frameOf (pmmAllocPage p).1 * pageSize) 0

/-- It is sound and takes one page. -/
lemma firstSpace_sound {p : Pmm} (hp : p.Inv) (room : FreeRoom p (k + 1)) :
    Sound (firstSpace p) {frameOf (pmmAllocPage p).1} ∧
      (∀ x, view (firstSpace p).mem (frameOf (pmmAllocPage p).1) x = 0#64) ∧ FreeRoom (firstSpace p).pmm k := by
  have h0 : Sound ⟨p, fun _ _ => 0#64, 0, 0⟩ ∅ := sound_empty hp rfl
  obtain ⟨hok, room'⟩ := room.alloc hp
  obtain ⟨hfail, -⟩ | ⟨g, hg, a⟩ := allocPage_cases hp
  · rw [hok] at hfail
    cases hfail
  have planted := planted_newPml4 h0 a 0
  unfold firstSpace
  rw [hg, a.frame]
  exact ⟨planted.sound, planted.view_new, room'⟩

end Chimera
