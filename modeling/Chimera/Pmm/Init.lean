import Chimera.Pmm.Entry

/-!
# Initialisation establishes the invariant

`pmm_init` wires every descriptor and then frees the usable pages one by one. The loop invariant
is `Pmm.Inv` together with "every page still to be visited has its one reference", which is where
the entries of the memory map have to be disjoint: a page visited twice would be listed twice.

`pmmInit_inv` needs the page numbers to fit a `ppnum_t`. `buddy_free_block` takes the page number
as one, so a map above `2 ^ 44` bytes lists the wrong pages; `wideMap` is such a map.
-/

namespace Chimera

open Lib

/-- Base and length are multiples of the page size. -/
def MemmapEntry.PageAligned (e : MemmapEntry) : Prop := pageSize ∣ e.base ∧ pageSize ∣ e.length

/-- The byte ranges of two entries do not meet. -/
def MemmapEntry.Apart (e e' : MemmapEntry) : Prop :=
  e.base + e.length ≤ e'.base ∨ e'.base + e'.length ≤ e.base

/-- A memory map of page-aligned, pairwise disjoint entries. -/
structure GoodMap (entries : List MemmapEntry) : Prop where
  aligned : ∀ e ∈ entries, e.PageAligned
  apart : entries.Pairwise MemmapEntry.Apart

variable {s : Pmm} {entries : List MemmapEntry} {e : MemmapEntry}

/-- A state with empty lists satisfies the invariant when every page has a reference. -/
lemma inv_of_empty (hhead : ∀ k, s.freelist k = none) (hfree : s.freePages = 0) (hmax : s.maxPhysPage ≤ 2 ^ 32)
    (hpages : ∀ q < s.maxPhysPage, (s.pages q).physPage = q ∧ ¬ (s.pages q).isFree ∧ (s.pages q).refCount ≠ 0)
    : s.Inv := by
  refine ⟨fun _ => [], ⟨fun k _ => hhead k, fun _ _ => rfl, fun _ => List.nodup_nil, ?_, ?_, ?_⟩,
    ?_, ?_, hmax, fun q hq => (hpages q hq).1⟩
  · simp
  · simp
  · intro p hp
    simp [(hpages p hp).2.1]
  · have hset : s.freeSet = ∅ := by
      ext q
      simp only [Pmm.freeSet, Set.mem_ofPred_eq, Set.mem_empty_iff_false, iff_false, not_and]
      exact fun hq => (hpages q hq).2.2
    have hblocks : blocks (fun _ => []) = ∅ := by
      ext ⟨p, k⟩
      simp
    rw [hset, hblocks]
    exact BuddyTiling.empty buddyMaxOrder
  · simp [weight, hfree]

lemma pmmWired_page (entries : List MemmapEntry) {q : ℕ}
    (hq : q < (pmmWired entries).maxPhysPage) : (pmmWired entries).pages q = wiredPage q :=
  if_pos hq

/-- The state with every descriptor wired satisfies the invariant: nothing is free. -/
lemma pmmWired_inv (hmax : maxPhysAddr entries ≤ 2 ^ 44) : (pmmWired entries).Inv := by
  have hle : maxPhysAddr entries / pageSize ≤ 2 ^ 32 := by
    unfold pageSize
    omega
  refine inv_of_empty (fun _ => rfl) rfl hle fun q hq => ?_
  rw [pmmWired_page entries hq]
  refine ⟨Nat.mod_eq_of_lt (lt_of_lt_of_le hq hle), ?_, ?_⟩
  · simp [VmPage.isFree, wiredPage, vmPageWired, vmPageFree]
  · simp [wiredPage]

/-- Freeing a wired page during initialisation. -/
lemma pmmFreeInitPage_spec (h : s.Inv) {p : ℕ} (hlt : p < s.maxPhysPage) (hp : rc s p = 1)
    (arrayFirst arrayLast : ℕ) :
    (pmmFreeInitPage arrayFirst arrayLast p s).Inv ∧
      (pmmFreeInitPage arrayFirst arrayLast p s).maxPhysPage = s.maxPhysPage ∧
      ∀ q, q ≠ p → rc (pmmFreeInitPage arrayFirst arrayLast p s) q = rc s q := by
  obtain ⟨L, hL⟩ := h
  have href : (s.pages p).refCount = 1 := by rwa [rc, if_pos hlt] at hp
  unfold pmmFreeInitPage
  split_ifs with harr
  · exact ⟨⟨L, hL⟩, rfl, fun _ _ => rfl⟩
  · set v : VmPage := { s.pages p with refCount := 0, wireCount := 0 }
    have hlisted : ∀ k, p ∉ L k := hL.not_listed (by omega)
    have hc := sameCounts_freeLoop (buddyMaxOrder - 0) (s.setPage p v) (u32 p) 0
    refine ⟨?_, hc.max_eq, fun q hq => ?_⟩
    · refine PmmInv.freePage
        (hL.lists.setPage (fun _ => Iff.rfl) fun k hk => absurd hk (hlisted k)) hL.tiling
        hL.weight_eq hL.max_le ?_ ?_ ?_
      · intro q hq
        have hold := hL.phys_eq q hq
        by_cases hqp : q = p
        · subst hqp
          simpa [v] using hold
        · simpa [hqp] using hold
      · intro hmem
        have := hmem.2
        omega
      · ext q
        by_cases hqp : q = p
        · subst hqp
          simp [Pmm.freeSet, hlt, v]
        · simp [Pmm.freeSet, hqp]
    · refine (hc.rc_eq q).trans ?_
      simp [rc_setPage, hq]

lemma pmmFreeInitPage_rc (s : Pmm) (arrayFirst arrayLast p q : ℕ) : rc (pmmFreeInitPage arrayFirst arrayLast p s) q =
      if q = p ∧ ¬ (arrayFirst ≤ p ∧ p < arrayLast) then 0 else rc s q := by
  unfold pmmFreeInitPage
  by_cases harr : arrayFirst ≤ p ∧ p < arrayLast
  · rw [if_pos harr, if_neg fun h => h.2 harr]
  · rw [if_neg harr]
    have hc := sameCounts_freeLoop (buddyMaxOrder - 0)
      (s.setPage p { s.pages p with refCount := 0, wireCount := 0 }) (u32 p) 0
    refine (hc.rc_eq q).trans ?_
    by_cases hq : q = p
    · subst hq
      refine Eq.trans ?_ (if_pos ⟨rfl, harr⟩).symm
      rw [rc_setPage]
      by_cases hlt : q < s.maxPhysPage
      · rw [if_pos ⟨rfl, hlt⟩]
      · rw [if_neg fun h => hlt h.2, rc, if_neg hlt]
    · simp [rc_setPage, hq]

/-- The pages freed for an entry lie in its byte range, so disjoint entries share none. A range
that wraps around the address space yields no page. -/
lemma usablePages_bounds {m : ℕ} (he : e.PageAligned) {q : ℕ} (hlo : (usablePages m e).1 ≤ q)
    (hhi : q < (usablePages m e).2) :
    q < m ∧ e.base ≤ q * pageSize ∧ (q + 1) * pageSize ≤ e.base + e.length := by
  obtain ⟨⟨b, hb⟩, ⟨c, hc⟩⟩ := he
  have hbase := e.base_lt
  have hlen := e.length_lt
  unfold usablePages u64 at hlo hhi
  unfold pageSize at *
  dsimp only at hlo hhi
  split_ifs at hlo hhi <;> dsimp only at hlo hhi <;> omega

/-- One entry: its pages, all still wired, are freed; every other page keeps its count. -/
lemma pmmFreeEntry_spec (h : s.Inv) (he : e.PageAligned)
    (hwired : ∀ q, (usablePages s.maxPhysPage e).1 ≤ q → q < (usablePages s.maxPhysPage e).2 → rc s q = 1)
    (arrayFirst arrayLast : ℕ) :
    (pmmFreeEntry arrayFirst arrayLast s e).Inv ∧
      (pmmFreeEntry arrayFirst arrayLast s e).maxPhysPage = s.maxPhysPage ∧
      ∀ q, ¬ ((usablePages s.maxPhysPage e).1 ≤ q ∧ q < (usablePages s.maxPhysPage e).2) →
        rc (pmmFreeEntry arrayFirst arrayLast s e) q = rc s q := by
  unfold pmmFreeEntry
  split_ifs with htype
  · exact ⟨h, rfl, fun _ _ => rfl⟩
  · set first := (usablePages s.maxPhysPage e).1
    set last := (usablePages s.maxPhysPage e).2
    -- after `i` rounds only the pages `[first, first + i)` have changed
    have hloop := forUpTo_invariant
      (f := fun i t => pmmFreeInitPage arrayFirst arrayLast (first + i) t) (n := last - first)
      (fun i t => t.Inv ∧ t.maxPhysPage = s.maxPhysPage ∧ ∀ q, ¬ (first ≤ q ∧ q < first + i) → rc t q = rc s q)
      ⟨h, rfl, fun _ _ => rfl⟩ ?_
    · obtain ⟨hinv, hmax, hrc⟩ := hloop
      refine ⟨hinv, hmax, fun q hq => hrc q ?_⟩
      omega
    · rintro i hi t ⟨hinv, hmax, hrc⟩
      have hwt : rc t (first + i) = 1 := by
        rw [hrc _ (by omega)]
        exact hwired _ (by omega) (by omega)
      have hlt : first + i < t.maxPhysPage := by
        rw [hmax]
        exact (usablePages_bounds he (Nat.le_add_right _ _) (by omega)).1
      obtain ⟨hinv', hmax', hrc'⟩ := pmmFreeInitPage_spec hinv hlt hwt arrayFirst arrayLast
      refine ⟨hinv', hmax'.trans hmax, fun q hq => ?_⟩
      rw [hrc' q (by omega)]
      exact hrc q (by omega)

/-- The counts after a usable entry: its pages are free, but for the descriptor array. -/
lemma pmmFreeEntry_rc (s : Pmm) (he : e.type = .usable) (arrayFirst arrayLast q : ℕ) :
    rc (pmmFreeEntry arrayFirst arrayLast s e) q =
      if (usablePages s.maxPhysPage e).1 ≤ q ∧ q < (usablePages s.maxPhysPage e).2 ∧
        ¬ (arrayFirst ≤ q ∧ q < arrayLast) then 0 else rc s q := by
  unfold pmmFreeEntry
  rw [if_neg (not_not.mpr he)]
  set first := (usablePages s.maxPhysPage e).1
  set last := (usablePages s.maxPhysPage e).2
  have hloop := forUpTo_invariant
    (f := fun i t => pmmFreeInitPage arrayFirst arrayLast (first + i) t) (n := last - first)
    (s := s) (fun i t => rc t q =
      if first ≤ q ∧ q < first + i ∧ ¬ (arrayFirst ≤ q ∧ q < arrayLast) then 0 else rc s q) ?_ ?_
  · rw [hloop]
    exact if_congr (by omega) rfl rfl
  · rw [if_neg (by omega)]
  · intro i _ t ht
    rw [pmmFreeInitPage_rc, ht]
    by_cases hq : q = first + i
    · subst hq
      by_cases harr : arrayFirst ≤ first + i ∧ first + i < arrayLast
      · rw [if_neg fun h => h.2 harr, if_neg (by omega), if_neg (by omega)]
      · rw [if_pos ⟨rfl, harr⟩, if_pos (by omega)]
    · rw [if_neg fun h => hq h.1]
      exact if_congr (by omega) rfl rfl

/-- All entries: the loop over the map keeps the invariant. -/
lemma pmmFreeEntries_inv (hgood : GoodMap entries) (h : s.Inv)
    (hwired : ∀ e ∈ entries, ∀ q, (usablePages s.maxPhysPage e).1 ≤ q → q < (usablePages s.maxPhysPage e).2 → rc s q = 1)
    (arrayFirst arrayLast : ℕ) :
    (entries.foldl (pmmFreeEntry arrayFirst arrayLast) s).Inv := by
  induction entries generalizing s with
  | nil => exact h
  | cons e es ih =>
    obtain ⟨hal, hapart⟩ := hgood
    obtain ⟨hhead, htail⟩ := List.pairwise_cons.mp hapart
    obtain ⟨hinv, hmax, hrc⟩ := pmmFreeEntry_spec h (hal e (by simp)) (hwired e (by simp))
      arrayFirst arrayLast
    refine ih ⟨fun e' he' => hal e' (by simp [he']), htail⟩ hinv fun e' he' q hlo hhi => ?_
    rw [hmax] at hlo hhi
    rw [hrc q ?_]
    · exact hwired e' (by simp [he']) q hlo hhi
    · rintro ⟨hlo', hhi'⟩
      obtain ⟨-, h1, h2⟩ := usablePages_bounds (hal e (by simp)) hlo' hhi'
      obtain ⟨-, h3, h4⟩ := usablePages_bounds (hal e' (by simp [he'])) hlo hhi
      unfold pageSize at h1 h2 h3 h4
      rcases hhead e' he' with hd | hd <;> omega

/-- **`pmm_init` establishes the invariant** on every map of page-aligned, disjoint entries whose
page numbers fit a `ppnum_t`. -/
theorem pmmInit_inv (hgood : GoodMap entries) (hmax : maxPhysAddr entries ≤ 2 ^ 44)
    (hs : pmmInit entries = some s) : s.Inv := by
  unfold pmmInit at hs
  split_ifs at hs with hnil harr
  · cases hs
    exact inv_of_empty (fun _ => rfl) rfl (Nat.zero_le _) fun q hq => absurd hq (Nat.not_lt_zero q)
  · have hfold := pmmFreeEntries_inv hgood (pmmWired_inv hmax) (fun e he q hlo hhi => by
      obtain ⟨hlt, -⟩ := usablePages_bounds (hgood.aligned e he) hlo hhi
      rw [rc, if_pos hlt, pmmWired_page entries hlt]
      rfl) (arrayPaddr entries / pageSize) (arrayPaddr entries / pageSize + pageArrayPages entries)
    obtain ⟨L, hL⟩ := hfold
    cases hs
    split_ifs
    · exact ⟨L, hL.lists.congr rfl rfl rfl, hL.tiling, hL.weight_eq, hL.max_le, hL.phys_eq⟩
    · exact ⟨L, hL⟩

/-! ## Two memory maps -/

lemma megabyte_lt : 0x100000 < 2 ^ 64 := by decide

/-- Four usable pages above the first megabyte; the descriptors take three of them. -/
def smallMap : List MemmapEntry := [⟨0x100000, 0x4000, .usable, megabyte_lt, by decide⟩]

lemma smallMap_good : GoodMap smallMap := by
  refine ⟨?_, List.pairwise_singleton _ _⟩
  simp only [smallMap, List.mem_singleton, forall_eq]
  exact ⟨⟨0x100, rfl⟩, ⟨4, rfl⟩⟩

lemma smallMap_max : maxPhysAddr smallMap ≤ 2 ^ 44 := by decide

lemma smallMap_init : ∃ s, pmmInit smallMap = some s := Option.isSome_iff_exists.mp rfl

/-- A usable entry that just holds the descriptors, and two usable pages with the numbers
`2 ^ 32` and `2 ^ 32 + 1`. -/
def wideMap : List MemmapEntry :=
  [⟨2 ^ 20, (2 ^ 25 + 1) * 4096, .usable, by decide, by decide⟩,
   ⟨2 ^ 44, 2 * 4096, .usable, by decide, by decide⟩]

lemma wideMap_good : GoodMap wideMap := by
  refine ⟨?_, ?_⟩
  · simp only [wideMap, List.mem_cons, List.not_mem_nil, or_false, forall_eq_or_imp, forall_eq]
    exact ⟨⟨⟨256, rfl⟩, ⟨2 ^ 25 + 1, rfl⟩⟩, ⟨⟨2 ^ 32, rfl⟩, ⟨2, rfl⟩⟩⟩
  · simp [wideMap, MemmapEntry.Apart]

lemma wideMap_maxPhysAddr : maxPhysAddr wideMap = 2 ^ 44 + 8192 := by decide

lemma wideMap_arrayPaddr : arrayPaddr wideMap = 2 ^ 20 := by decide

lemma wideMap_pageArrayPages : pageArrayPages wideMap = 2 ^ 25 + 1 := by decide

/-- What freeing page `p` during initialisation does when the buddy of `p`, taken as a `ppnum_t`,
has a reference: `p` loses its reference, and the page the `ppnum_t` names is listed. -/
lemma pmmFreeInitPage_of_buddy {t : Pmm} {arrayFirst arrayLast p b : ℕ}
    (ht : t = pmmFreeInitPage arrayFirst arrayLast p s) (harr : arrayLast ≤ p) (hu : u32 p = b)
    (hb : (s.pages (buddy b 0)).refCount ≠ 0) (hne : buddy b 0 ≠ p) :
    t.maxPhysPage = s.maxPhysPage ∧ (∀ k, t.freelist k = if k = 0 then some b else s.freelist k) ∧
      ∀ q, (t.pages q).refCount = if q = p then 0 else (s.pages q).refCount := by
  subst ht
  unfold pmmFreeInitPage
  rw [if_neg (by omega), hu]
  set v : VmPage := { s.pages p with refCount := 0, wireCount := 0 }
  have hadd : buddyFreeBlock (s.setPage p v) b 0 = buddyListAdd (s.setPage p v) 0 b := by
    show buddyFreeLoop (13 + 1) (s.setPage p v) b 0 = _
    rw [buddyFreeLoop_succ, if_neg]
    rintro ⟨-, -, -, hzero⟩
    rw [setPage_pages, if_neg hne] at hzero
    exact hb hzero
  dsimp only
  rw [hadd]
  refine ⟨by simp, by simp, fun q => ?_⟩
  by_cases hq : q = p <;> simp [hq, v]

/-- **What `pmm_init` makes of the wide map**: the pages `0` and `1` are listed although they are
wired, and the two free pages are on no list. -/
lemma wideMap_init : ∃ s, pmmInit wideMap = some s ∧ s.maxPhysPage = 2 ^ 32 + 2 ∧
    s.freelist 0 = some 1 ∧ (∀ k, k ≠ 0 → s.freelist k = none) ∧ (s.pages 1).refCount = 1 ∧
    (s.pages (2 ^ 32)).refCount = 0 ∧ (s.pages (2 ^ 32 + 1)).refCount = 0 := by
  have hmax : (pmmWired wideMap).maxPhysPage = 2 ^ 32 + 2 := by
    show maxPhysAddr wideMap / pageSize = _
    rw [wideMap_maxPhysAddr]
    rfl
  have hpage : ∀ q < 2 ^ 32 + 2, (pmmWired wideMap).pages q = wiredPage q :=
    fun q hq => pmmWired_page wideMap (hmax ▸ hq)
  -- the pages of the first entry hold the descriptors
  have hfirst : pmmFreeEntry 256 (256 + (2 ^ 25 + 1)) (pmmWired wideMap)
      ⟨2 ^ 20, (2 ^ 25 + 1) * 4096, .usable, by decide, by decide⟩ = pmmWired wideMap := by
    have hpages : usablePages (2 ^ 32 + 2)
        ⟨2 ^ 20, (2 ^ 25 + 1) * 4096, .usable, by decide, by decide⟩ = (256, 256 + (2 ^ 25 + 1)) := by
      decide
    unfold pmmFreeEntry
    rw [if_neg (by simp), hmax, hpages]
    refine forUpTo_eq_self fun i hi => ?_
    unfold pmmFreeInitPage
    exact if_pos ⟨by omega, by omega⟩
  set w := pmmWired wideMap
  set s1 := pmmFreeInitPage 256 (256 + (2 ^ 25 + 1)) (2 ^ 32) w with hs1
  set s2 := pmmFreeInitPage 256 (256 + (2 ^ 25 + 1)) (2 ^ 32 + 1) s1 with hs2
  have hsecond : pmmFreeEntry 256 (256 + (2 ^ 25 + 1)) w
      ⟨2 ^ 44, 2 * 4096, .usable, by decide, by decide⟩ = s2 := by
    have hpages : usablePages (2 ^ 32 + 2) ⟨2 ^ 44, 2 * 4096, .usable, by decide, by decide⟩ =
        (2 ^ 32, 2 ^ 32 + 2) := by
      decide
    unfold pmmFreeEntry
    rw [if_neg (by simp), hmax, hpages]
    rfl
  have hinit : pmmInit wideMap =
      some (if s2.totalRamPages = 0 then { s2 with totalRamPages := s2.freePages } else s2) := by
    unfold pmmInit
    rw [if_neg (by simp [wideMap]), wideMap_arrayPaddr, wideMap_pageArrayPages, if_neg (by decide)]
    have hfold : wideMap.foldl (pmmFreeEntry 256 (256 + (2 ^ 25 + 1))) w = s2 := by
      simp only [wideMap, List.foldl_cons, List.foldl_nil, hfirst, hsecond]
    dsimp only
    rw [show 2 ^ 20 / pageSize = 256 from rfl, hfold]
  -- page `2 ^ 32` is listed as page `0`, page `2 ^ 32 + 1` as page `1`
  have hz : u32 (2 ^ 32) = 0 := by decide
  have ho : u32 (2 ^ 32 + 1) = 1 := by decide
  have hb0 : buddy 0 0 = 1 := by decide
  have hb1 : buddy 1 0 = 0 := by decide
  have hwired : ∀ q < 2 ^ 32 + 2, (w.pages q).refCount = 1 := fun q hq => by
    rw [hpage q hq]
    rfl
  obtain ⟨hm1, hf1, hp1⟩ := pmmFreeInitPage_of_buddy hs1 (by decide) hz
    (by rw [hb0, hwired 1 (by decide)]; decide) (by rw [hb0]; decide)
  have hzero : (s1.pages 0).refCount = 1 := by rw [hp1, if_neg (by decide), hwired 0 (by decide)]
  obtain ⟨hm2, hf2, hp2⟩ := pmmFreeInitPage_of_buddy hs2 (by decide) ho
    (by rw [hb1, hzero]; decide) (by rw [hb1]; decide)
  have hmax2 : s2.maxPhysPage = 2 ^ 32 + 2 := by rw [hm2, hm1, hmax]
  have hone : (s2.pages 1).refCount = 1 := by
    rw [hp2, if_neg (by decide), hp1, if_neg (by decide), hwired 1 (by decide)]
  have hlow : (s2.pages (2 ^ 32)).refCount = 0 := by rw [hp2, if_neg (by decide), hp1, if_pos rfl]
  have hhigh : (s2.pages (2 ^ 32 + 1)).refCount = 0 := by rw [hp2, if_pos rfl]
  have hhead : s2.freelist 0 = some 1 := by rw [hf2, if_pos rfl]
  have hrest : ∀ k, k ≠ 0 → s2.freelist k = none := by
    intro k hk
    rw [hf2, if_neg hk, hf1, if_neg hk]
    rfl
  refine ⟨_, hinit, ?_⟩
  split_ifs <;> exact ⟨hmax2, hhead, hrest, hone, hlow, hhigh⟩

end Chimera
