import Chimera.Pmm.Runs

/-!
# Matched pairs of `pmm_alloc_pages` and `pmm_free_contiguous`

The kernel heap, kernel messages and out-of-line buffers take runs of pages with
`pmm_alloc_pages(n)` and give them back with `pmm_free_contiguous(addr, n)`. The allocator rounds
`n` up to a power of two and gives every page of the block a reference; the release drops the
references of `n` pages. What lies between is lost.

`s_free_pages` is the number of pages without a reference (`PmmInv.freePages_eq`), so both calls are
counted on sets: an allocation takes `2 ^ ⌈log2 n⌉` pages away (`Taken.freePages`), the release
brings `n` back (`freeContiguous_freePages`). The two agree exactly for powers of two
(`contiguous_conservation`), and `threePages_lost` is the smallest loss.
-/

namespace Chimera

open Lib

/-! ## Counting free pages -/

/-- The listed blocks as a finite set. -/
def blockFinset (L : ℕ → List ℕ) : Finset (ℕ × ℕ) :=
  (Finset.range (buddyMaxOrder + 1)).biUnion fun k => (L k).toFinset.image fun p => (p, k)

variable {L : ℕ → List ℕ} {p order n : ℕ} {s s' : Pmm}

lemma mem_blockFinset {k : ℕ} : (p, k) ∈ blockFinset L ↔ k ≤ buddyMaxOrder ∧ p ∈ L k := by
  simp only [blockFinset, Finset.mem_biUnion, Finset.mem_range, Finset.mem_image, List.mem_toFinset, Prod.mk.injEq]
  constructor
  · rintro ⟨j, hj, q, hq, rfl, rfl⟩
    exact ⟨by omega, hq⟩
  · rintro ⟨hk, hp⟩
    exact ⟨k, by omega, p, hp, rfl, rfl⟩

lemma sum_blockFinset (hnd : ∀ k, (L k).Nodup) : ∑ b ∈ blockFinset L, 2 ^ b.2 = weight L := by
  unfold blockFinset weight
  rw [Finset.sum_biUnion]
  · refine Finset.sum_congr rfl fun k _ => ?_
    rw [Finset.sum_image fun p _ q _ h => congrArg Prod.fst h]
    simp only [Finset.sum_const, smul_eq_mul]
    rw [List.toFinset_card_of_nodup (hnd k)]
  · intro j _ k _ hjk
    rw [Function.onFun, Finset.disjoint_left]
    intro b hb hb'
    obtain ⟨p, -, rfl⟩ := Finset.mem_image.mp hb
    obtain ⟨q, -, heq⟩ := Finset.mem_image.mp hb'
    exact hjk (congrArg Prod.snd heq).symm

/-- **`s_free_pages` counts the pages without a reference.** -/
theorem PmmInv.freePages_eq (h : PmmInv s L) : s.freePages = s.freeSet.ncard := by
  rw [← h.weight_eq, ← sum_blockFinset h.lists.nodup]
  symm
  apply h.tiling.ncard_eq
  rintro ⟨p, k⟩
  rw [mem_blockFinset, mem_blocks]
  exact ⟨fun hb => hb.2, fun hb => ⟨h.tiling.order_le (mem_blocks.mpr hb), hb⟩⟩

lemma Pmm.freeSet_finite (s : Pmm) : s.freeSet.Finite := (Set.finite_lt_nat s.maxPhysPage).subset fun _ hq => hq.1

lemma ncard_blk (p k : ℕ) : (blk p k).ncard = 2 ^ k := by
  rw [blk, ← Finset.coe_Ico, Set.ncard_coe_finset, Nat.card_Ico, Nat.add_sub_cancel_left]

/-- The free pages after an allocation. -/
lemma Taken.freeSet_eq (t : Taken s p order s') : s'.freeSet = s.freeSet \ blk p order := by
  ext q
  rw [Set.mem_sdiff, mem_freeSet, mem_freeSet, t.max_eq, t.rc_eq]
  by_cases hq : q ∈ blk p order <;> simp [hq]

/-- **An allocation** takes the whole block. -/
lemma Taken.freePages (t : Taken s p order s') (h : s.Inv) (h' : s'.Inv) :
    s'.freePages + 2 ^ order = s.freePages := by
  obtain ⟨L, hL⟩ := h
  obtain ⟨L', hL'⟩ := h'
  rw [hL.freePages_eq, hL'.freePages_eq, t.freeSet_eq, ← ncard_blk p order]
  exact Set.ncard_sdiff_add_ncard_of_subset t.free s.freeSet_finite

/-- The pages `pmm_alloc_pages` takes. -/
lemma pmmAllocPages_taken (h : s.Inv) (h1 : 1 ≤ n) (hn : n ≤ 2 ^ buddyMaxOrder) : (pmmAllocPages s n).2.Inv ∧
      (((pmmAllocPages s n).2 = s ∧ ((pmmAllocPages s n).1 = 0 ∨ (pmmAllocPages s n).1 = paddrFail)) ∨
        ∃ p, (pmmAllocPages s n).1 = p * pageSize ∧ Taken s p (Nat.clog 2 n) (pmmAllocPages s n).2) := by
  by_cases hone : n = 1
  · subst hone
    obtain ⟨hinv, ⟨hfail, -⟩ | ⟨p, hp, ht⟩⟩ := pmmAllocPage_spec h
    · have heq : pmmAllocPages s 1 = (0, s) := hfail
      rw [heq]
      exact ⟨h, .inl ⟨rfl, .inl rfl⟩⟩
    · refine ⟨hinv, .inr ⟨p, hp, ?_⟩⟩
      rw [Nat.clog_one_right]
      exact ht
  · rw [pmmAllocPages_eq s (by omega) hn]
    obtain ⟨L, hL⟩ := h
    rcases pmmAllocOrder_spec hL (Nat.clog_le_of_le_pow hn) with ⟨hfail, -⟩ | ⟨p, hp, ht, hinv⟩
    · rw [hfail]
      exact ⟨⟨L, hL⟩, .inl ⟨rfl, .inr rfl⟩⟩
    · exact ⟨hinv, .inr ⟨p, hp, ht⟩⟩

/-- The counts after `pmm_free_contiguous` of pages whose addresses do not wrap. -/
lemma pmmFreeContiguous_rc (hp : p ≠ 0) (hend : p + n ≤ 2 ^ 32) (q : ℕ) :
    rc (pmmFreeContiguous s (p * pageSize) n) q =
      if p ≤ q ∧ q < p + n then rc s q - 1 else rc s q := by
  unfold pmmFreeContiguous
  by_cases hn : n = 0
  · rw [if_pos (.inr (.inr hn)), if_neg (by omega)]
  rw [if_neg (by
    rintro (hx | hx | hx)
    · exact mul_pageSize_ne_paddrFail p hx
    · unfold pageSize at hx
      omega
    · exact hn hx)]
  refine forUpTo_invariant (fun i t => rc t q = if p ≤ q ∧ q < p + i then rc s q - 1 else rc s q)
    ?_ ?_
  · rw [if_neg (by omega)]
  · intro i hi t ht
    have hpage : u64 (p * pageSize + i * pageSize) / pageSize = p + i := by
      unfold u64 pageSize
      omega
    rw [pmmReleasePage_rc, hpage, ht]
    by_cases hq : q = p + i
    · rw [if_pos hq, if_neg (by omega), if_pos (by omega)]
    · rw [if_neg hq]
      by_cases hin : p ≤ q ∧ q < p + i
      · rw [if_pos hin, if_pos (by omega)]
      · rw [if_neg hin, if_neg (by omega)]

lemma pmmFreeContiguous_max (s : Pmm) (addr n : ℕ) : (pmmFreeContiguous s addr n).maxPhysPage = s.maxPhysPage := by
  unfold pmmFreeContiguous
  split_ifs
  · rfl
  · refine forUpTo_invariant (fun _ (t : Pmm) => t.maxPhysPage = s.maxPhysPage) rfl fun i _ t ht => ?_
    rw [pmmReleasePage_maxPhysPage, ht]

/-- The free pages after the release of pages that have one reference each. -/
lemma freeContiguous_freeSet (hp : p ≠ 0) (hend : p + n ≤ 2 ^ 32)
    (hone : ∀ q, p ≤ q → q < p + n → q < s.maxPhysPage ∧ rc s q = 1) :
    (pmmFreeContiguous s (p * pageSize) n).freeSet = s.freeSet ∪ Set.Ico p (p + n) := by
  ext q
  rw [Set.mem_union, mem_freeSet, mem_freeSet, pmmFreeContiguous_max, pmmFreeContiguous_rc hp hend, Set.mem_Ico]
  by_cases hq : p ≤ q ∧ q < p + n
  · obtain ⟨hlt, hrc⟩ := hone q hq.1 hq.2
    simp [hq, hlt, hrc]
  · rw [if_neg hq]
    exact (or_iff_left hq).symm

/-- **The release** of pages that have one reference each brings back as many as it names. -/
lemma freeContiguous_freePages (h : s.Inv) (hp : p ≠ 0)
    (hone : ∀ q, p ≤ q → q < p + n → q < s.maxPhysPage ∧ rc s q = 1) :
    (pmmFreeContiguous s (p * pageSize) n).freePages = s.freePages + n := by
  obtain ⟨⟨L', hL'⟩, -⟩ := pmmFreeContiguous_spec h (p * pageSize) n
  obtain ⟨L, hL⟩ := h
  by_cases hn : n = 0
  · subst hn
    rw [pmmFreeContiguous, if_pos (.inr (.inr rfl)), Nat.add_zero]
  have hend : p + n ≤ 2 ^ 32 := by
    have := (hone (p + n - 1) (by omega) (by omega)).1
    have := hL.max_le
    omega
  have hdisj : Disjoint s.freeSet (Set.Ico p (p + n)) := by
    rw [Set.disjoint_left]
    intro q hq hq'
    have hzero := (mem_freeSet.mp hq).2
    rw [(hone q hq'.1 hq'.2).2] at hzero
    exact one_ne_zero hzero
  have hcard : (Set.Ico p (p + n)).ncard = n := by
    rw [← Finset.coe_Ico, Set.ncard_coe_finset, Nat.card_Ico]
    omega
  rw [hL'.freePages_eq, hL.freePages_eq, freeContiguous_freeSet hp hend hone,
    Set.ncard_union_eq hdisj s.freeSet_finite (Set.finite_Ico p (p + n)), hcard]

/-! ## Runs of matched pairs -/

/-- `pmm_alloc_pages` failed: its callers take `0` and `(chimera_paddr_t)-1` for failures. -/
def allocPagesFailed (addr : ℕ) : Prop := addr = 0 ∨ addr = paddrFail

/-- Runs of matched pairs from `s₀` whose requests satisfy `P`, in any order and overlap, with the
allocations that are still live. -/
inductive PairRun (P : ℕ → Prop) (s₀ : Pmm) : Pmm → List (ℕ × ℕ) → Prop
  | start : PairRun P s₀ s₀ []
  | fail {s live} (n : ℕ) (hrun : PairRun P s₀ s live) (h1 : 1 ≤ n) (hn : n ≤ 2 ^ buddyMaxOrder)
      (hP : P n) (hfail : allocPagesFailed (pmmAllocPages s n).1) :
      PairRun P s₀ (pmmAllocPages s n).2 live
  | alloc {s live} (n : ℕ) (hrun : PairRun P s₀ s live) (h1 : 1 ≤ n) (hn : n ≤ 2 ^ buddyMaxOrder)
      (hP : P n) (hok : ¬ allocPagesFailed (pmmAllocPages s n).1) :
      PairRun P s₀ (pmmAllocPages s n).2 (((pmmAllocPages s n).1, n) :: live)
  | free {s live} (b : ℕ × ℕ) (hrun : PairRun P s₀ s live) (hb : b ∈ live) :
      PairRun P s₀ (pmmFreeContiguous s b.1 b.2) (live.erase b)

/-- The pages of a live allocation. -/
def livePages (b : ℕ × ℕ) : Set ℕ := blk (b.1 / pageSize) (Nat.clog 2 b.2)

/-- What holds of the live allocations: their blocks are apart and every page has one reference. -/
structure LiveBlocks (s : Pmm) (live : List (ℕ × ℕ)) : Prop where
  addr : ∀ b ∈ live, ∃ p ≠ 0, b.1 = p * pageSize
  one : ∀ b ∈ live, ∀ q ∈ livePages b, q < s.maxPhysPage ∧ rc s q = 1
  apart : live.Pairwise fun b c => Disjoint (livePages b) (livePages c)

section pairs

variable {live : List (ℕ × ℕ)}

lemma LiveBlocks.alloc (h : LiveBlocks s live) {p n : ℕ} (hp : p ≠ 0)
    (t : Taken s p (Nat.clog 2 n) s') : LiveBlocks s' ((p * pageSize, n) :: live) := by
  have hpages : livePages (p * pageSize, n) = blk p (Nat.clog 2 n) := by
    rw [livePages, Nat.mul_div_cancel p (by decide)]
  have hnot : ∀ b ∈ live, ∀ q ∈ livePages b, q ∉ blk p (Nat.clog 2 n) := by
    intro b hb q hq hqp
    have hzero := (mem_freeSet.mp (t.free hqp)).2
    rw [(h.one b hb q hq).2] at hzero
    exact one_ne_zero hzero
  refine ⟨fun b hb => ?_, fun b hb q hq => ?_, List.pairwise_cons.mpr ⟨fun b hb => ?_, h.apart⟩⟩
  · rcases List.mem_cons.mp hb with rfl | hb
    · exact ⟨p, hp, rfl⟩
    · exact h.addr b hb
  · rw [t.max_eq, t.rc_eq]
    rcases List.mem_cons.mp hb with rfl | hb
    · rw [hpages] at hq
      rw [if_pos hq]
      exact ⟨(mem_freeSet.mp (t.free hq)).1, rfl⟩
    · rw [if_neg (hnot b hb q hq)]
      exact h.one b hb q hq
  · rw [hpages, Set.disjoint_left]
    exact fun q hqp hq => hnot b hb q hq hqp

lemma LiveBlocks.free (h : LiveBlocks s live) (hinv : s.Inv) {b : ℕ × ℕ} (hb : b ∈ live) (hpos : 1 ≤ b.2) :
    (pmmFreeContiguous s b.1 b.2).Inv ∧ LiveBlocks (pmmFreeContiguous s b.1 b.2) (live.erase b) ∧
      (0 ∉ s.freeSet → 0 ∉ (pmmFreeContiguous s b.1 b.2).freeSet) ∧
      (pmmFreeContiguous s b.1 b.2).freePages = s.freePages + b.2 := by
  obtain ⟨p, hp, haddr⟩ := h.addr b hb
  have hpages : livePages b = blk p (Nat.clog 2 b.2) := by rw [livePages, haddr, Nat.mul_div_cancel p (by decide)]
  have hle : b.2 ≤ 2 ^ Nat.clog 2 b.2 := Nat.le_pow_clog Nat.one_lt_two b.2
  have hin : ∀ q, p ≤ q → q < p + b.2 → q ∈ livePages b := by
    intro q hlo hhi
    rw [hpages]
    exact ⟨hlo, by omega⟩
  have hone : ∀ q, p ≤ q → q < p + b.2 → q < s.maxPhysPage ∧ rc s q = 1 :=
    fun q hlo hhi => h.one b hb q (hin q hlo hhi)
  have hend : p + b.2 ≤ 2 ^ 32 := by
    have hlt := (hone (p + b.2 - 1) (by omega) (by omega)).1
    obtain ⟨L, hL⟩ := hinv
    have := hL.max_le
    omega
  -- the pages of the other live blocks are not named
  have hperm := List.perm_cons_erase hb
  have hapart := (hperm.pairwise_iff fun hxy => hxy.symm).mp h.apart
  rw [List.pairwise_cons] at hapart
  rw [haddr]
  refine ⟨(pmmFreeContiguous_spec hinv _ _).1,
    ⟨fun c hc => h.addr c (List.mem_of_mem_erase hc), fun c hc q hq => ?_, hapart.2⟩, fun h0 => ?_,
    freeContiguous_freePages hinv hp hone⟩
  · rw [pmmFreeContiguous_max, pmmFreeContiguous_rc hp hend, if_neg]
    · exact h.one c (List.mem_of_mem_erase hc) q hq
    · rintro ⟨hlo, hhi⟩
      exact Set.disjoint_left.mp (hapart.1 c hc) (hin q hlo hhi) hq
  · rw [freeContiguous_freeSet hp hend hone]
    rintro (hx | hx)
    · exact h0 hx
    · exact hp (Nat.le_zero.mp hx.1)

/-- Page `0` is never what an allocation takes while it has a reference. -/
lemma Taken.ne_zero {p order : ℕ} (t : Taken s p order s') (h0 : 0 ∉ s.freeSet) : p ≠ 0 := by
  rintro rfl
  exact h0 (t.free (start_mem_blk 0 order))

/-- **The books of a run**: what is free and what the live blocks hold add up, if no request is
rounded. -/
theorem PairRun.balance {P : ℕ → Prop} (hP : ∀ n, P n → 2 ^ Nat.clog 2 n = n) {s0 : Pmm}
    (h₀ : s0.Inv) (hzero : 0 ∉ s0.freeSet) (hrun : PairRun P s0 s live) :
    s.Inv ∧ 0 ∉ s.freeSet ∧ LiveBlocks s live ∧ (∀ b ∈ live, 1 ≤ b.2) ∧
      s.freePages + (live.map Prod.snd).sum = s0.freePages := by
  induction hrun with
  | start => exact ⟨h₀, hzero, ⟨by simp, by simp, .nil⟩, by simp, by simp⟩
  | fail n _ h1 hn _ hfail ih =>
    obtain ⟨hinv, h0, hlive, hpos, hsum⟩ := ih
    obtain ⟨-, ⟨hsame, -⟩ | ⟨p, hp, ht⟩⟩ := pmmAllocPages_taken hinv h1 hn
    · rw [hsame]
      exact ⟨hinv, h0, hlive, hpos, hsum⟩
    · rw [hp] at hfail
      rcases hfail with hx | hx
      · exact absurd (Nat.mul_eq_zero.mp hx) (by simp [ht.ne_zero h0, pageSize])
      · exact absurd hx (mul_pageSize_ne_paddrFail p)
  | alloc n _ h1 hn hPn hok ih =>
    obtain ⟨hinv, h0, hlive, hpos, hsum⟩ := ih
    obtain ⟨hinv', ⟨-, hfail⟩ | ⟨p, hp, ht⟩⟩ := pmmAllocPages_taken hinv h1 hn
    · exact absurd hfail hok
    · have hfree := ht.freePages hinv hinv'
      rw [hP n hPn] at hfree
      refine ⟨hinv', ?_, ?_, List.forall_mem_cons.mpr ⟨h1, hpos⟩, ?_⟩
      · rw [ht.freeSet_eq]
        exact fun hx => h0 hx.1
      · rw [hp]
        exact hlive.alloc (ht.ne_zero h0) ht
      · rw [List.map_cons, List.sum_cons]
        omega
  | free b _ hb ih =>
    obtain ⟨hinv, h0, hlive, hpos, hsum⟩ := ih
    obtain ⟨hinv', hlive', h0', hfree⟩ := hlive.free hinv hb (hpos b hb)
    refine ⟨hinv', h0' h0, hlive', fun c hc => hpos c (List.mem_of_mem_erase hc), ?_⟩
    have hperm := ((List.perm_cons_erase hb).map Prod.snd).sum_eq
    rw [List.map_cons, List.sum_cons] at hperm
    omega

/-- One pair loses what the allocator rounded up. -/
lemma pair_freePages (h : s.Inv) {n : ℕ} (h1 : 1 ≤ n) (hn : n ≤ 2 ^ buddyMaxOrder)
    (hok : ¬ allocPagesFailed (pmmAllocPages s n).1) :
    (pmmFreeContiguous (pmmAllocPages s n).2 (pmmAllocPages s n).1 n).freePages + 2 ^ Nat.clog 2 n =
      s.freePages + n := by
  obtain ⟨hinv', ⟨-, hfail⟩ | ⟨p, hp, ht⟩⟩ := pmmAllocPages_taken h h1 hn
  · exact absurd hfail hok
  have hp0 : p ≠ 0 := by
    rintro rfl
    exact hok (.inl (by rw [hp, Nat.zero_mul]))
  have hlive : LiveBlocks (pmmAllocPages s n).2 [(p * pageSize, n)] := by
    apply LiveBlocks.alloc _ hp0 ht
    exact ⟨by simp, by simp, .nil⟩
  have hfree := (hlive.free hinv' (List.mem_singleton_self _) h1).2.2.2
  have htake := ht.freePages h hinv'
  rw [hp, hfree]
  omega

end pairs

lemma two_pow_clog_eq_iff (n : ℕ) : 2 ^ Nat.clog 2 n = n ↔ ∃ k, n = 2 ^ k := by
  constructor
  · exact fun h => ⟨_, h.symm⟩
  · rintro ⟨k, rfl⟩
    rw [Nat.clog_pow 2 k Nat.one_lt_two]

/-- Sixteen usable pages, the first three of which hold the descriptors. -/
def sixteenMap : List MemmapEntry := [⟨0x100000, 0x10000, .usable, megabyte_lt, by decide⟩]

/-- Its allocator. -/
def sixteenPmm : Pmm := (pmmInit sixteenMap).get (by decide +kernel)

lemma sixteenMap_good : GoodMap sixteenMap := by
  refine ⟨?_, List.pairwise_singleton _ _⟩
  simp only [sixteenMap, List.mem_singleton, forall_eq]
  exact ⟨⟨0x100, rfl⟩, ⟨16, rfl⟩⟩

lemma sixteenPmm_run : PmmRun sixteenMap sixteenPmm ∅ := by
  apply PmmRun.init
  rw [sixteenPmm, Option.some_get]

/-- **Conservation of contiguous pages.** In every state of every run, allocating `n` pages and
releasing them leaves `s_free_pages` as it was exactly if `n` is a power of two; and in every run of
matched pairs of such requests, in whatever order, nothing is lost. -/
theorem contiguous_conservation {entries : List MemmapEntry} (hgood : GoodMap entries)
    (hmax : maxPhysAddr entries ≤ 2 ^ 44) {s₀ : Pmm} {out : Set ℕ} (h : PmmRun entries s₀ out)
    (hzero : 0 ∉ s₀.freeSet) :
    (∀ n, 1 ≤ n → n ≤ 2 ^ buddyMaxOrder → ¬ allocPagesFailed (pmmAllocPages s₀ n).1 →
      ((pmmFreeContiguous (pmmAllocPages s₀ n).2 (pmmAllocPages s₀ n).1 n).freePages = s₀.freePages ↔
        ∃ k, n = 2 ^ k)) ∧
    ∀ s live, PairRun (fun n => ∃ k, n = 2 ^ k) s₀ s live → s.freePages + (live.map Prod.snd).sum = s₀.freePages := by
  have hinv := (h.inv hgood hmax).1
  constructor
  · intro n h1 hn hok
    have hpair := pair_freePages hinv h1 hn hok
    rw [← two_pow_clog_eq_iff]
    omega
  · intro s live hrun
    exact (hrun.balance (fun n hn => (two_pow_clog_eq_iff n).mpr hn) hinv hzero).2.2.2.2

/-- Four pages come back whole. -/
theorem contiguous_conservation_four :
    (pmmFreeContiguous (pmmAllocPages sixteenPmm 4).2 (pmmAllocPages sixteenPmm 4).1 4).freePages =
      sixteenPmm.freePages := by
  have hzero : 0 ∉ sixteenPmm.freeSet := by
    rw [mem_freeSet]
    exact fun hx => absurd hx.2 (by decide +kernel)
  have hcons := (contiguous_conservation sixteenMap_good (by decide) sixteenPmm_run hzero).1 4
    (by decide) (by decide) (by unfold allocPagesFailed; decide +kernel)
  exact hcons.mpr ⟨2, rfl⟩

/-- **Of three pages one is lost**: four are taken, three come back. -/
theorem threePages_lost : ¬ allocPagesFailed (pmmAllocPages sixteenPmm 3).1 ∧
      (pmmFreeContiguous (pmmAllocPages sixteenPmm 3).2 (pmmAllocPages sixteenPmm 3).1 3).freePages + 1 =
        sixteenPmm.freePages := by
  have hok : ¬ allocPagesFailed (pmmAllocPages sixteenPmm 3).1 := by
    unfold allocPagesFailed
    decide +kernel
  have hinv := (sixteenPmm_run.inv sixteenMap_good (by decide)).1
  have hpair := pair_freePages hinv (by decide) (by decide) hok
  have hclog : Nat.clog 2 3 = 2 := by decide
  rw [hclog] at hpair
  exact ⟨hok, by omega⟩

end Chimera
