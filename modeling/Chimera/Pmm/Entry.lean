import Chimera.Pmm.Buddy

/-!
# The entry points of the physical memory manager

Each entry point keeps the invariant `PmmInv` and has one exact effect on the reference counts
`rc`. Callers of the allocator use these lemmas and none of the list machinery below them:

* `pmmRetainPage_rc`, `pmmReleasePage_rc`: one reference more or less;
* `pmmAllocOrder_spec`: an aligned block of pages without a reference, or the proof that no list
  from the wanted order on has a block;
* `pmmAllocOrder_eq_fail_iff`: **allocation fails exactly when there is no free aligned run**.
-/

namespace Chimera

open Lib

/-- The allocator's invariant, for some reading of its lists. -/
def Pmm.Inv (s : Pmm) : Prop := ∃ L, PmmInv s L

/-! ## Retain and release -/

@[simp] lemma pmmRetainPage_maxPhysPage (s : Pmm) (addr : ℕ) :
    (pmmRetainPage s addr).maxPhysPage = s.maxPhysPage := by
  unfold pmmRetainPage
  dsimp only
  split_ifs <;> rfl

lemma pmmRetainPage_rc (s : Pmm) (addr q : ℕ) : rc (pmmRetainPage s addr) q =
      if q = addr / pageSize ∧ q < s.maxPhysPage ∧ rc s q < 65535 then rc s q + 1 else rc s q := by
  unfold pmmRetainPage
  dsimp only
  split_ifs with hmax href hq hq hq
  · omega
  · rfl
  · rw [rc_setPage, if_pos ⟨hq.1, hq.2.1⟩, hq.1, rc, if_pos (hq.1 ▸ hq.2.1)]
  · rw [rc_setPage, if_neg]
    rintro ⟨rfl, hlt⟩
    exact hq ⟨rfl, hlt, by rwa [rc, if_pos hlt]⟩
  · obtain ⟨rfl, hlt, hrc⟩ := hq
    rw [rc, if_pos hlt] at hrc
    omega
  · rfl

variable {s : Pmm} {L : ℕ → List ℕ} {n order : ℕ}

/-- Retaining a page that has a reference, or is not managed, moves no list. -/
lemma PmmInv.retain (h : PmmInv s L) {addr : ℕ}
    (hlive : addr / pageSize < s.maxPhysPage → rc s (addr / pageSize) ≠ 0) :
    PmmInv (pmmRetainPage s addr) L := by
  unfold pmmRetainPage
  dsimp only
  split_ifs with hmax href
  · exact h
  · have hlt : addr / pageSize < s.maxPhysPage := by omega
    have hne := hlive hlt
    rw [rc, if_pos hlt] at hne
    exact h.setPage hne (by simp) rfl rfl
  · exact h

@[simp] lemma pmmReleasePage_maxPhysPage (s : Pmm) (addr : ℕ) :
    (pmmReleasePage s addr).maxPhysPage = s.maxPhysPage := by
  unfold pmmReleasePage
  dsimp only
  split_ifs
  · rfl
  · exact (sameCounts_freeLoop _ _ _ _).max_eq
  · rfl
  · rfl

lemma pmmReleasePage_rc (s : Pmm) (addr q : ℕ) :
    rc (pmmReleasePage s addr) q = if q = addr / pageSize then rc s q - 1 else rc s q := by
  unfold pmmReleasePage
  dsimp only
  by_cases hmax : addr / pageSize < s.maxPhysPage
  · rw [if_neg (not_le.mpr hmax)]
    have hrc : rc s (addr / pageSize) = (s.pages (addr / pageSize)).refCount := by rw [rc, if_pos hmax]
    by_cases hq : q = addr / pageSize
    · subst hq
      rw [if_pos rfl, hrc]
      split_ifs with hpos hzero
      · refine ((sameCounts_freeLoop _ _ _ _).rc_eq _).trans ?_
        simp [rc_setPage, hmax]
      · simp [rc_setPage, hmax]
      · omega
    · rw [if_neg hq]
      split_ifs
      · refine ((sameCounts_freeLoop _ _ _ _).rc_eq _).trans ?_
        simp [rc_setPage, hq]
      · simp [rc_setPage, hq]
      · rfl
  · rw [if_pos (not_lt.mp hmax)]
    split_ifs with hq
    · rw [hq, rc, if_neg hmax]
    · rfl

/-- Releasing any page keeps the invariant; the last reference lists the page. -/
lemma PmmInv.release (h : PmmInv s L) (addr : ℕ) : (pmmReleasePage s addr).Inv := by
  unfold pmmReleasePage
  dsimp only
  split_ifs with hmax hpos hzero
  · exact ⟨L, h⟩
  · set p := addr / pageSize
    set v : VmPage := { s.pages p with refCount := (s.pages p).refCount - 1 }
    set w : VmPage := { (s.setPage p v).pages p with wireCount := 0, flags := 0 }
    have hlisted : ∀ k, p ∉ L k := h.not_listed (by omega)
    have hlt : p < s.maxPhysPage := by omega
    have hw : ∀ q, ((s.setPage p v).setPage p w).pages q = if q = p then w else s.pages q := by
      intro q
      by_cases hq : q = p <;> simp [hq]
    have hwref : w.refCount = 0 := hzero
    have hwphys : w.physPage = (s.pages p).physPage := by simp [w, v]
    refine PmmInv.freePage ?_ h.tiling h.weight_eq h.max_le ?_ ?_ ?_
    · have hnot : ¬ (s.pages p).isFree := by
        rw [h.lists.free_iff hlt]
        rintro ⟨k, hk⟩
        exact hlisted k hk
      have hL1 : Lists (s.setPage p v) L := h.lists.setPage (fun _ => Iff.rfl) fun k hk => absurd hk (hlisted k)
      refine hL1.setPage (fun _ => ?_) fun k hk => absurd hk (hlisted k)
      have hv : ((s.setPage p v).pages p).isFree ↔ (s.pages p).isFree := by simp [v, VmPage.isFree]
      rw [hv]
      exact iff_of_false (by simp [VmPage.isFree, w]) hnot
    · intro q hq
      rw [hw q]
      split_ifs with hqp
      · rw [hwphys, h.phys_eq p hlt, hqp]
      · rw [h.phys_eq q hq]
    · intro hp
      have := hp.2
      omega
    · ext q
      simp only [Pmm.freeSet, hw, Pmm.setPage_maxPhysPage, Set.mem_ofPred_eq, Set.mem_union, Set.mem_singleton_iff]
      by_cases hqp : q = p
      · simp [hqp, hwref, hlt]
      · simp [hqp]
  · have hold : (s.pages (addr / pageSize)).refCount ≠ 0 := by omega
    exact ⟨L, h.setPage hold (by simpa using hzero) rfl rfl⟩
  · exact ⟨L, h⟩

/-! ## Allocation -/

/-- `s'` is `s` with the aligned block of order `order` at page `p` taken: its pages had no
reference and have one each now. -/
structure Taken (s : Pmm) (p order : ℕ) (s' : Pmm) : Prop where
  aligned : 2 ^ order ∣ p
  free : blk p order ⊆ s.freeSet
  max_eq : s'.maxPhysPage = s.maxPhysPage
  rc_eq : ∀ q, rc s' q = if q ∈ blk p order then 1 else rc s q

lemma Lists.mem_of_head (h : Lists s L) {k p : ℕ} (hk : k ≤ buddyMaxOrder) (hp : s.freelist k = some p)
    : p ∈ L k := by
  have hl := h.linked k hk
  rw [hp] at hl
  exact hl.head_mem

/-- The scan stops at the first order that has a block. -/
lemma buddyFindOrder_cases (h : Lists s L) (order : ℕ) : (buddyFindOrder s order = none ∧ ∀ k, order ≤ k → L k = []) ∨
      ∃ k p, buddyFindOrder s order = some k ∧ order ≤ k ∧ k ≤ buddyMaxOrder ∧ s.freelist k = some p ∧ p ∈ L k := by
  unfold buddyFindOrder
  cases hfind : (List.range' order (buddyMaxOrder + 1 - order)).find?
      fun k => (s.freelist k).isSome with
  | none =>
    refine .inl ⟨rfl, fun k hk => ?_⟩
    rw [List.find?_eq_none] at hfind
    by_cases hkm : k ≤ buddyMaxOrder
    · have hnone := hfind k (List.mem_range'_1.mpr ⟨hk, by omega⟩)
      rw [Bool.not_eq_true, Option.isSome_eq_false_iff, Option.isNone_iff_eq_none] at hnone
      exact (h.linked k hkm).head_eq_none.mp hnone
    · exact h.above k (by omega)
  | some k =>
    have hsome := List.find?_some hfind
    have hmem := List.mem_range'_1.mp (List.mem_of_find?_eq_some hfind)
    obtain ⟨p, hp⟩ := Option.isSome_iff_exists.mp hsome
    have hkm : k ≤ buddyMaxOrder := by omega
    exact .inr ⟨k, p, rfl, hmem.1, hkm, hp, h.mem_of_head hkm hp⟩

/-- **What `pmm_alloc_order_unlocked` does**: it fails and changes nothing when no list from the
wanted order on has a block; otherwise it takes a block. -/
theorem pmmAllocOrder_spec (h : PmmInv s L) (ho : order ≤ buddyMaxOrder) :
    (pmmAllocOrderUnlocked s order = (paddrFail, s) ∧ ∀ k, order ≤ k → L k = []) ∨
      ∃ p, (pmmAllocOrderUnlocked s order).1 = p * pageSize ∧ Taken s p order (pmmAllocOrderUnlocked s order).2 ∧
        (pmmAllocOrderUnlocked s order).2.Inv := by
  unfold pmmAllocOrderUnlocked
  rw [if_neg (not_lt.mpr ho)]
  rcases buddyFindOrder_cases h.lists order with ⟨hnone, hempty⟩ | ⟨k, p, hk, hok, hkm, hhd, hp⟩
  · left
    rw [hnone]
    exact ⟨rfl, hempty⟩
  · right
    simp only [hk, hhd]
    -- the block leaves its list
    have hsub := h.tiling.sub (mem_blocks.mpr hp)
    have hal : 2 ^ k ∣ p := h.tiling.aligned (mem_blocks.mpr hp)
    have hplt : p < s.maxPhysPage := h.lists.lt_max hp
    have hT1 := h.tiling.erase (mem_blocks.mpr hp)
    rw [← blocks_erase (h.lists.nodup k)] at hT1
    have hc1 := sameCounts_remove s k p
    have hL1 := h.lists.remove hp
    have hw1 := weight_erase L hkm hp
    generalize buddyListRemove s k p = s1 at hL1 hc1 ⊢
    -- what it has too much goes back
    obtain ⟨n, rfl⟩ := Nat.exists_eq_add_of_le hok
    obtain ⟨L2, hL2, hT2, hw2⟩ := buddySplit_spec n hL1 hT1 hkm hal (fun x hx hxF => hxF.2 hx)
      (fun x hx => hc1.max_eq ▸ (hsub hx).1) (hc1.max_eq ▸ h.max_le)
      ((hc1.phys_eq p).trans (h.phys_eq p hplt))
    have hc2 := hc1.trans (sameCounts_split n s1 p order)
    rw [Nat.add_sub_cancel_left]
    generalize buddySplit n s1 p order = s2 at hL2 hc2 ⊢
    -- and its pages get their reference
    have hle : 2 ^ order ≤ 2 ^ (order + n) := Nat.pow_le_pow_right (by omega) (by omega)
    have hblk : blk p order ⊆ blk p (order + n) := fun x hx => ⟨hx.1, by
      have := hx.2
      omega⟩
    obtain ⟨hL3, hm3, hf3, hp3⟩ := buddyClaim_spec order hL2
      (fun x hx j hj => by
        rcases hT2.sub (mem_blocks.mpr hj) (start_mem_blk x j) with hF | hF
        · exact hF.2 (hblk hx)
        · exact hF.2 hx)
      ((hc2.phys_eq p).trans (h.phys_eq p hplt))
    generalize forUpTo (buddyClaimPage order p) (2 ^ order) s2 = s3 at hL3 hm3 hf3 hp3 ⊢
    have hmax : s3.maxPhysPage = s.maxPhysPage := hm3.trans hc2.max_eq
    have href : ∀ q, (s3.pages q).refCount =
        if q ∈ blk p order then 1 else (s.pages q).refCount := by
      intro q
      rw [(hp3 q).2, hc2.ref_eq]
      exact if_congr Iff.rfl rfl rfl
    refine ⟨p, ?_, ⟨(pow_dvd_pow 2 hok).trans hal, hblk.trans hsub, hmax, fun q => ?_⟩, L2,
      hL3.congr rfl rfl rfl, ?_, ?_, ?_, ?_⟩
    · rw [(hp3 p).1, hc2.phys_eq, h.phys_eq p hplt]
    · by_cases hq : q ∈ blk p order
      · have hlt : q < s.maxPhysPage := (hsub (hblk hq)).1
        simp only [rc, hmax, href, hq, hlt, if_true]
      · simp only [rc, hmax, href, hq, if_false]
    · have hset : ({ s3 with freePages := s3.freePages - 2 ^ order } : Pmm).freeSet =
          s.freeSet \ blk p (order + n) ∪ (blk p (order + n) \ blk p order) := by
        ext q
        have hqs : q ∈ blk p (order + n) → q ∈ s.freeSet := fun hq => hsub hq
        by_cases hq : q ∈ blk p order
        · have hq' := hblk hq
          simp [Pmm.freeSet, href, hq, hq', -mem_blk]
        · by_cases hq' : q ∈ blk p (order + n)
          · have hfree := hqs hq'
            simp only [Pmm.freeSet, Set.mem_ofPred_eq] at hfree
            simp [Pmm.freeSet, href, hmax, hq, hq', hfree, -mem_blk]
          · simp [Pmm.freeSet, href, hmax, hq, hq', -mem_blk]
      rw [hset]
      exact hT2
    · show weight L2 = s3.freePages - 2 ^ order
      rw [hf3, hc2.free_eq, ← h.weight_eq]
      omega
    · show s3.maxPhysPage ≤ 2 ^ 32
      rw [hmax]
      exact h.max_le
    · intro q hq
      rw [(hp3 q).1, hc2.phys_eq]
      exact h.phys_eq q (hmax ▸ hq)

/-- The failure value is no page address. -/
lemma mul_pageSize_ne_paddrFail (p : ℕ) : p * pageSize ≠ paddrFail := by
  unfold pageSize paddrFail
  omega

/-- **Completeness.** An allocation fails exactly when no aligned run of managed pages of the
wanted size is free: were there one, it would lie in one listed block. -/
theorem pmmAllocOrder_eq_fail_iff (h : s.Inv) (ho : order ≤ buddyMaxOrder) :
    (pmmAllocOrderUnlocked s order).1 = paddrFail ↔ ¬ ∃ p, 2 ^ order ∣ p ∧ blk p order ⊆ s.freeSet := by
  obtain ⟨L, hL⟩ := h
  rcases pmmAllocOrder_spec hL ho with ⟨hfail, hempty⟩ | ⟨p, hp, htaken, -⟩
  · refine iff_of_true (by rw [hfail]) ?_
    rintro ⟨p, hal, hsub⟩
    obtain ⟨q, k, hqk, hok, -⟩ := hL.tiling.complete ho hal hsub
    rw [mem_blocks, hempty k hok] at hqk
    exact List.not_mem_nil hqk
  · rw [hp]
    exact iff_of_false (mul_pageSize_ne_paddrFail p)
      (not_not.mpr ⟨p, htaken.aligned, htaken.free⟩)

/-- What one allocated page does to the counts; `0` is the failure value, and also the address of
page `0`. -/
theorem pmmAllocPage_spec (h : s.Inv) : (pmmAllocPage s).2.Inv ∧
      ((pmmAllocPage s = (0, s) ∧ ∀ q < s.maxPhysPage, rc s q ≠ 0) ∨
        ∃ p, (pmmAllocPage s).1 = p * pageSize ∧ Taken s p 0 (pmmAllocPage s).2) := by
  obtain ⟨L, hL⟩ := h
  unfold pmmAllocPage
  dsimp only
  rcases pmmAllocOrder_spec hL (Nat.zero_le buddyMaxOrder) with ⟨hfail, hempty⟩ | ⟨p, hp, htaken, hinv⟩
  · rw [hfail]
    refine ⟨⟨L, hL⟩, .inl ⟨by simp, fun q hq hzero => ?_⟩⟩
    obtain ⟨b, k, hbk, -⟩ := hL.tiling.cover (mem_freeSet.mpr ⟨hq, hzero⟩)
    rw [mem_blocks, hempty k (Nat.zero_le k)] at hbk
    exact List.not_mem_nil hbk
  · rw [hp, if_neg (mul_pageSize_ne_paddrFail p)]
    exact ⟨hinv, .inr ⟨p, rfl, htaken⟩⟩

/-- The loop of `pmm_alloc_pages` finds the binary logarithm, rounded up. -/
lemma pmmOrderFor_eq {count : ℕ} (hlo : ∀ k < order, 2 ^ k < count) (hhi : count ≤ 2 ^ (order + n)) :
    pmmOrderFor count n order = some (Nat.clog 2 count) := by
  have hclog : ∀ k, 2 ^ k < count ↔ k < Nat.clog 2 count := fun k => (Nat.lt_clog_iff_pow_lt Nat.one_lt_two).symm
  induction n generalizing order with
  | zero =>
    have hle : ¬ 2 ^ order < count := not_lt.mpr hhi
    rw [pmmOrderFor, if_neg hle, Option.some_inj]
    rw [hclog, not_lt] at hle
    refine le_antisymm ?_ hle
    by_contra hlt
    have := (hclog _).mp (hlo (Nat.clog 2 count) (by omega))
    omega
  | succ n ih =>
    rw [pmmOrderFor]
    split_ifs with hlt
    · refine ih (fun k hk => ?_) (by rwa [add_right_comm])
      rcases Nat.lt_succ_iff_lt_or_eq.mp hk with hk | rfl
      · exact hlo k hk
      · exact hlt
    · rw [Option.some_inj]
      rw [hclog, not_lt] at hlt
      refine le_antisymm ?_ hlt
      by_contra hgt
      have := (hclog _).mp (hlo (Nat.clog 2 count) (by omega))
      omega

lemma pmmOrderFor_eq_none {count : ℕ} (hhi : 2 ^ (order + n) < count) : pmmOrderFor count n order = none := by
  induction n generalizing order with
  | zero => exact if_pos hhi
  | succ n ih =>
    have hlt : 2 ^ order < count := lt_of_le_of_lt (Nat.pow_le_pow_right (by omega) (by omega)) hhi
    rw [pmmOrderFor, if_pos hlt]
    exact ih (by rwa [add_right_comm])

/-- A request for more than one page, up to the largest block, is one for the next power of
two. -/
lemma pmmAllocPages_eq (s : Pmm) (h2 : 2 ≤ n) (hn : n ≤ 2 ^ buddyMaxOrder) :
    pmmAllocPages s n = pmmAllocOrderUnlocked s (Nat.clog 2 n) := by
  unfold pmmAllocPages
  rw [if_neg (by omega), if_neg (by omega),
    pmmOrderFor_eq (fun k hk => absurd hk (Nat.not_lt_zero k)) (by rwa [Nat.zero_add])]

end Chimera
