import Chimera.Pmm.Init

/-!
# Runs of the physical memory manager

A run starts with `pmm_init` on a memory map and then makes any calls of the entry points.
Alongside the state it keeps the set `out` of the pages that allocations have returned and that no
release has taken down to zero references since.

Two results hold in every state of every run, for maps whose page numbers fit a `ppnum_t`:

* `buddy_allocator_invariant`: the free lists are well-formed, aligned, disjoint and without
  references, their sizes add up to `s_free_pages`, and what an allocation returns meets neither
  a listed block nor a page still out;
* `buddy_allocator_complete`: `pmm_alloc_pages` fails only for want of a free aligned run.

Both need the bound on the map: `wideMap_init` shows what `pmm_init` makes of a map with a page
above number `2 ^ 32`.
-/

namespace Chimera

open Lib

/-! ## Calls and runs -/

/-- The calls a run is made of. -/
inductive PmmOp
  | allocPage
  | allocPages (count : ℕ)
  | retain (addr : ℕ)
  | release (addr : ℕ)
  | freeContiguous (addr count : ℕ)

namespace PmmOp

/-- The state after a call. -/
def run (s : Pmm) : PmmOp → Pmm
  | allocPage => (pmmAllocPage s).2
  | allocPages count => (pmmAllocPages s count).2
  | retain addr => pmmRetainPage s addr
  | release addr => pmmReleasePage s addr
  | freeContiguous addr count => pmmFreeContiguous s addr count

/-- The one condition on callers: a page is retained only while it has a reference. Releasing a
page without one does nothing, so it is not excluded. -/
def Legal (s : Pmm) : PmmOp → Prop
  | retain addr => rc s (addr / pageSize) ≠ 0
  | _ => True

/-- The pages of the block an allocation returns; `0` and `(chimera_paddr_t)-1` return none. -/
def returned (s : Pmm) : PmmOp → Set ℕ
  | allocPage => {q | (pmmAllocPage s).1 ≠ 0 ∧ q = (pmmAllocPage s).1 / pageSize}
  | allocPages count =>
      {q | (pmmAllocPages s count).1 ≠ 0 ∧ (pmmAllocPages s count).1 ≠ paddrFail ∧
        q ∈ blk ((pmmAllocPages s count).1 / pageSize) (Nat.clog 2 count)}
  | _ => ∅

/-- The pages a release names. -/
def named : PmmOp → Set ℕ
  | release addr => {addr / pageSize}
  | freeContiguous addr count => {q | ∃ i < count, q = u64 (addr + i * pageSize) / pageSize}
  | _ => ∅

/-- The pages whose last reference a release drops. -/
def released (s : Pmm) (op : PmmOp) : Set ℕ := {q | q ∈ op.named ∧ rc (op.run s) q = 0}

end PmmOp

/-- The states of the runs on a memory map, with the pages returned and not yet released. -/
inductive PmmRun (entries : List MemmapEntry) : Pmm → Set ℕ → Prop
  | init {s : Pmm} : pmmInit entries = some s → PmmRun entries s ∅
  | step {s : Pmm} {out : Set ℕ} (op : PmmOp) : PmmRun entries s out → op.Legal s →
      PmmRun entries (op.run s) ((out ∪ op.returned s) \ op.released s)

/-! ## What one call does -/

lemma pmmFreeContiguous_spec {s : Pmm} (h : s.Inv) (addr count : ℕ) : (pmmFreeContiguous s addr count).Inv ∧
      ∀ q, (∀ i < count, q ≠ u64 (addr + i * pageSize) / pageSize) →
        rc (pmmFreeContiguous s addr count) q = rc s q := by
  unfold pmmFreeContiguous
  split_ifs
  · exact ⟨h, fun _ _ => rfl⟩
  · refine forUpTo_invariant (fun i t => t.Inv ∧
      ∀ q, (∀ j < i, q ≠ u64 (addr + j * pageSize) / pageSize) → rc t q = rc s q)
      ⟨h, fun _ _ => rfl⟩ ?_
    rintro i - t ⟨⟨L, hL⟩, hrc⟩
    refine ⟨hL.release _, fun q hq => ?_⟩
    rw [pmmReleasePage_rc, if_neg (hq i (Nat.lt_succ_self i))]
    exact hrc q fun j hj => hq j (by omega)

/-- An allocation of any number of pages keeps the invariant; it returns pages without a
reference, gives them one, and leaves all others alone. -/
lemma pmmAllocPages_spec {s : Pmm} (h : s.Inv) (count : ℕ) :
    (pmmAllocPages s count).2.Inv ∧ (∀ q, rc s q ≠ 0 → rc (pmmAllocPages s count).2 q = rc s q) ∧
      ∀ q ∈ (PmmOp.allocPages count).returned s, rc s q = 0 ∧ rc (pmmAllocPages s count).2 q = 1 := by
  have hkeep : ∀ {p order : ℕ} {s' : Pmm}, Taken s p order s' → ∀ q, rc s q ≠ 0 → rc s' q = rc s q := by
    intro p order s' ht q hq
    rw [ht.rc_eq, if_neg fun hmem => hq (mem_freeSet.mp (ht.free hmem)).2]
  have hgot : ∀ {p order : ℕ} {s' : Pmm}, Taken s p order s' → ∀ q ∈ blk p order, rc s q = 0 ∧ rc s' q = 1 := by
    intro p order s' ht q hq
    exact ⟨(mem_freeSet.mp (ht.free hq)).2, by rw [ht.rc_eq, if_pos hq]⟩
  have hpos : 0 < pageSize := by decide
  by_cases h0 : count = 0
  · subst h0
    exact ⟨h, fun _ _ => rfl, fun q hq => absurd rfl hq.2.1⟩
  by_cases h1 : count = 1
  · subst h1
    obtain ⟨hinv, ⟨hfail, -⟩ | ⟨p, hp, ht⟩⟩ := pmmAllocPage_spec h
    · have heq : pmmAllocPages s 1 = (0, s) := hfail
      refine ⟨heq ▸ h, fun q _ => by rw [heq], fun q hq => absurd ?_ hq.1⟩
      rw [heq]
    · refine ⟨hinv, hkeep ht, fun q hq => ?_⟩
      have hmem : q ∈ blk ((pmmAllocPage s).1 / pageSize) (Nat.clog 2 1) := hq.2.2
      rw [hp, Nat.mul_div_cancel p hpos, Nat.clog_one_right] at hmem
      exact hgot ht q hmem
  by_cases hbig : count ≤ 2 ^ buddyMaxOrder
  · have heq := pmmAllocPages_eq s (by omega) hbig
    have ho : Nat.clog 2 count ≤ buddyMaxOrder := Nat.clog_le_of_le_pow hbig
    obtain ⟨L, hL⟩ := h
    rcases pmmAllocOrder_spec hL ho with ⟨hfail, -⟩ | ⟨p, hp, ht, hinv⟩
    · rw [hfail] at heq
      refine ⟨heq ▸ ⟨L, hL⟩, fun q _ => by rw [heq], fun q hq => absurd ?_ hq.2.1⟩
      rw [heq]
    · rw [heq]
      refine ⟨hinv, hkeep ht, fun q hq => ?_⟩
      have hmem := hq.2.2
      rw [heq, hp, Nat.mul_div_cancel p hpos] at hmem
      exact hgot ht q hmem
  · have heq : pmmAllocPages s count = (paddrFail, s) := by
      unfold pmmAllocPages
      rw [if_neg h0, if_neg h1, pmmOrderFor_eq_none (by rw [Nat.zero_add]; omega)]
    refine ⟨heq ▸ h, fun q _ => by rw [heq], fun q hq => absurd ?_ hq.2.1⟩
    rw [heq]

/-- **One call** keeps the invariant, returns only pages without a reference, leaves the returned
pages with one, and takes no reference from a page that it does not name. -/
theorem PmmOp.step_spec {s : Pmm} (h : s.Inv) {op : PmmOp} (hlegal : op.Legal s) : (op.run s).Inv ∧
      (∀ q ∈ op.returned s, rc s q = 0 ∧ rc (op.run s) q ≠ 0) ∧
      ∀ q, rc s q ≠ 0 → q ∉ op.named → rc (op.run s) q ≠ 0 := by
  cases op with
  | allocPage =>
    obtain ⟨hinv, hkeep, hgot⟩ := pmmAllocPages_spec h 1
    refine ⟨hinv, fun q hq => ?_, fun q hq _ => ?_⟩
    · have hfail : (pmmAllocPage s).1 ≠ paddrFail := by
        obtain ⟨-, ⟨hz, -⟩ | ⟨p, hp, -⟩⟩ := pmmAllocPage_spec h
        · exact absurd (by rw [hz]) hq.1
        · rw [hp]
          exact mul_pageSize_ne_paddrFail p
      have hmem : q ∈ (PmmOp.allocPages 1).returned s := by
        refine ⟨hq.1, hfail, ?_⟩
        rw [Nat.clog_one_right, blk_zero]
        exact hq.2
      obtain ⟨h0, h1⟩ := hgot q hmem
      have h1' : rc (pmmAllocPage s).2 q = 1 := h1
      exact ⟨h0, by rw [PmmOp.run, h1']; omega⟩
    · have hk : rc (pmmAllocPage s).2 q = rc s q := hkeep q hq
      rwa [PmmOp.run, hk]
  | allocPages count =>
    obtain ⟨hinv, hkeep, hgot⟩ := pmmAllocPages_spec h count
    refine ⟨hinv, fun q hq => ?_, fun q hq _ => ?_⟩
    · obtain ⟨h0, h1⟩ := hgot q hq
      exact ⟨h0, by rw [PmmOp.run, h1]; omega⟩
    · rwa [PmmOp.run, hkeep q hq]
  | retain addr =>
    obtain ⟨L, hL⟩ := h
    refine ⟨⟨L, hL.retain fun _ => hlegal⟩, fun q hq => hq.elim, fun q hq _ => ?_⟩
    rw [PmmOp.run, pmmRetainPage_rc]
    split_ifs <;> omega
  | release addr =>
    obtain ⟨L, hL⟩ := h
    refine ⟨hL.release addr, fun q hq => hq.elim, fun q hq hnamed => ?_⟩
    have hne : q ≠ addr / pageSize := hnamed
    rwa [PmmOp.run, pmmReleasePage_rc, if_neg hne]
  | freeContiguous addr count =>
    obtain ⟨hinv, hrc⟩ := pmmFreeContiguous_spec h addr count
    refine ⟨hinv, fun q hq => hq.elim, fun q hq hnamed => ?_⟩
    rw [PmmOp.run, hrc q fun i hi heq => hnamed ⟨i, hi, heq⟩]
    exact hq

/-- **Every run** keeps the invariant, and a page that is still out has a reference. -/
theorem PmmRun.inv {entries : List MemmapEntry} (hgood : GoodMap entries)
    (hmax : maxPhysAddr entries ≤ 2 ^ 44) {s : Pmm} {out : Set ℕ} (h : PmmRun entries s out) :
    s.Inv ∧ ∀ q ∈ out, rc s q ≠ 0 := by
  induction h with
  | init hs => exact ⟨pmmInit_inv hgood hmax hs, fun q hq => hq.elim⟩
  | step op _ hlegal ih =>
    obtain ⟨hinv, hret, hkeep⟩ := PmmOp.step_spec ih.1 hlegal
    refine ⟨hinv, ?_⟩
    rintro q ⟨hq | hq, hnot⟩
    · by_cases hnamed : q ∈ op.named
      · exact fun hzero => hnot ⟨hnamed, hzero⟩
      · exact hkeep q (ih.2 q hq) hnamed
    · exact (hret q hq).2

/-! ## The invariant and completeness, along runs -/

/-- The free lists of `s` read off as `L`, and everything they have to satisfy. -/
structure FreeListsOk (s : Pmm) (L : ℕ → List ℕ) : Prop where
  linked : ∀ k ≤ buddyMaxOrder, (L k).Nodup ∧
    IsDList (fun q => (s.pages q).next) (fun q => (s.pages q).prev) (s.freelist k) (L k)
  placed : ∀ k, ∀ p ∈ L k, 2 ^ k ∣ p ∧ p + 2 ^ k ≤ s.maxPhysPage
  apart : ∀ k, ∀ p ∈ L k, ∀ j, ∀ q ∈ L j, (p, k) ≠ (q, j) → Disjoint (blk p k) (blk q j)
  zero : ∀ k, ∀ p ∈ L k, ∀ x ∈ blk p k, (s.pages x).refCount = 0
  total : ∑ k ∈ Finset.range (buddyMaxOrder + 1), (L k).length * 2 ^ k = s.freePages

lemma PmmInv.freeListsOk {s : Pmm} {L : ℕ → List ℕ} (h : PmmInv s L) : FreeListsOk s L where
  linked k hk := ⟨h.lists.nodup k, h.lists.linked k hk⟩
  placed := by
    intro k p hp
    have hpos : 0 < 2 ^ k := Nat.two_pow_pos k
    have hlast : p + 2 ^ k - 1 ∈ blk p k := ⟨by omega, by omega⟩
    have hlt := (h.tiling.sub (mem_blocks.mpr hp) hlast).1
    exact ⟨h.tiling.aligned (mem_blocks.mpr hp), by omega⟩
  apart := by
    intro k p hp j q hq hne
    rw [Set.disjoint_left]
    intro x hx hx'
    obtain ⟨rfl, rfl⟩ := h.tiling.apart (mem_blocks.mpr hp) (mem_blocks.mpr hq) hx hx'
    exact hne rfl
  zero k p hp x hx := (h.tiling.sub (mem_blocks.mpr hp) hx).2
  total := h.weight_eq

/-- **The buddy allocator's invariant.** In every state of every run the free lists are in order,
and every next call leaves them in order and returns a block that meets no listed block and no
page that was returned before and is not released. -/
theorem buddy_allocator_invariant {entries : List MemmapEntry} (hgood : GoodMap entries)
    (hmax : maxPhysAddr entries ≤ 2 ^ 44) {s : Pmm} {out : Set ℕ} (h : PmmRun entries s out) :
    (∃ L, FreeListsOk s L) ∧ ∀ op : PmmOp, op.Legal s → ∃ L', FreeListsOk (op.run s) L' ∧
        (∀ k, ∀ p ∈ L' k, Disjoint (op.returned s) (blk p k)) ∧ Disjoint (op.returned s) out := by
  obtain ⟨⟨L, hL⟩, hout⟩ := h.inv hgood hmax
  refine ⟨⟨L, hL.freeListsOk⟩, fun op hlegal => ?_⟩
  obtain ⟨⟨L', hL'⟩, hret, -⟩ := PmmOp.step_spec ⟨L, hL⟩ hlegal
  refine ⟨L', hL'.freeListsOk, fun k p hp => ?_, ?_⟩
  · rw [Set.disjoint_left]
    intro q hq hqb
    exact (hret q hq).2 (mem_freeSet.mp (hL'.tiling.sub (mem_blocks.mpr hp) hqb)).2
  · rw [Set.disjoint_left]
    intro q hq hqo
    exact hout q hqo (hret q hq).1

theorem buddy_allocator_invariant_smallMap :
    ∃ s, pmmInit smallMap = some s ∧ ∃ L, FreeListsOk (PmmOp.allocPage.run s) L := by
  obtain ⟨s, hs⟩ := smallMap_init
  have hrun := PmmRun.step .allocPage (PmmRun.init hs) trivial
  exact ⟨s, hs, (buddy_allocator_invariant smallMap_good smallMap_max hrun).1⟩

/-- Without the bound on the map, `pmm_init` lists a page that has a reference. -/
theorem wideMap_not_freeListsOk : GoodMap wideMap ∧ ∃ s, PmmRun wideMap s ∅ ∧ ¬ ∃ L, FreeListsOk s L := by
  obtain ⟨s, hs, -, hhead, -, hone, -⟩ := wideMap_init
  refine ⟨wideMap_good, s, .init hs, ?_⟩
  rintro ⟨L, hL⟩
  have hl := (hL.linked 0 (Nat.zero_le _)).2
  rw [hhead] at hl
  have hzero := hL.zero 0 1 hl.head_mem 1 (start_mem_blk 1 0)
  omega

/-- **The buddy allocator is complete.** In every state of every run a request for `n` pages fails
exactly when no aligned run of that size, rounded up to a power of two, is free; so once every
page that was free after `pmm_init` is free again, whatever could be allocated then can be
allocated again. -/
theorem buddy_allocator_complete {entries : List MemmapEntry} (hgood : GoodMap entries)
    (hmax : maxPhysAddr entries ≤ 2 ^ 44) {s : Pmm} {out : Set ℕ} (h : PmmRun entries s out)
    {n : ℕ} (h2 : 2 ≤ n) (hn : n ≤ 2 ^ buddyMaxOrder) :
    ((pmmAllocPages s n).1 = paddrFail ↔ ¬ ∃ p, 2 ^ Nat.clog 2 n ∣ p ∧
        ∀ q ∈ blk p (Nat.clog 2 n), q < s.maxPhysPage ∧ (s.pages q).refCount = 0) ∧
    ∀ s₀, pmmInit entries = some s₀ → s₀.freeSet ⊆ s.freeSet →
      (pmmAllocPages s₀ n).1 ≠ paddrFail → (pmmAllocPages s n).1 ≠ paddrFail := by
  have ho : Nat.clog 2 n ≤ buddyMaxOrder := Nat.clog_le_of_le_pow hn
  have hiff : ∀ t : Pmm, t.Inv → ((pmmAllocPages t n).1 = paddrFail ↔
      ¬ ∃ p, 2 ^ Nat.clog 2 n ∣ p ∧ blk p (Nat.clog 2 n) ⊆ t.freeSet) := by
    intro t ht
    rw [pmmAllocPages_eq t h2 hn]
    exact pmmAllocOrder_eq_fail_iff ht ho
  refine ⟨hiff s (h.inv hgood hmax).1, fun s₀ hs0 hsub hok => ?_⟩
  rw [Ne, hiff s₀ (pmmInit_inv hgood hmax hs0), not_not] at hok
  rw [Ne, hiff s (h.inv hgood hmax).1, not_not]
  obtain ⟨p, hp, hfree⟩ := hok
  exact ⟨p, hp, hfree.trans hsub⟩

theorem buddy_allocator_complete_smallMap : ∃ s, pmmInit smallMap = some s ∧
      ((pmmAllocPages s 2).1 = paddrFail ↔ ¬ ∃ p, 2 ^ Nat.clog 2 2 ∣ p ∧
        ∀ q ∈ blk p (Nat.clog 2 2), q < s.maxPhysPage ∧ (s.pages q).refCount = 0) := by
  obtain ⟨s, hs⟩ := smallMap_init
  exact ⟨s, hs, (buddy_allocator_complete smallMap_good smallMap_max (.init hs) le_rfl
    (by decide)).1⟩

/-- Without the bound on the map, a request fails although a run of free pages is there. -/
theorem wideMap_not_complete : GoodMap wideMap ∧ ∃ s, PmmRun wideMap s ∅ ∧ (pmmAllocPages s 2).1 = paddrFail ∧
      ∃ p, 2 ^ Nat.clog 2 2 ∣ p ∧ ∀ q ∈ blk p (Nat.clog 2 2), q < s.maxPhysPage ∧ (s.pages q).refCount = 0 := by
  obtain ⟨s, hs, hmax, -, hrest, -, hlow, hhigh⟩ := wideMap_init
  have hclog : Nat.clog 2 2 = 1 := by decide
  refine ⟨wideMap_good, s, .init hs, ?_, 2 ^ 32, ?_, ?_⟩
  · have hnone : buddyFindOrder s 1 = none := by
      unfold buddyFindOrder
      rw [List.find?_eq_none]
      intro k hk
      rw [hrest k (by have := (List.mem_range'_1.mp hk).1; omega)]
      simp
    rw [pmmAllocPages_eq s le_rfl (by decide), hclog, pmmAllocOrderUnlocked, if_neg (by decide), hnone]
  · rw [hclog]
    exact ⟨2 ^ 31, by decide⟩
  · intro q hq
    rw [hclog] at hq
    obtain ⟨hlo, hhi⟩ := hq
    have hcases : q = 2 ^ 32 ∨ q = 2 ^ 32 + 1 := by omega
    rcases hcases with rfl | rfl
    · exact ⟨by omega, hlow⟩
    · exact ⟨by omega, hhigh⟩

end Chimera
