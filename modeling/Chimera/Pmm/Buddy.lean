import Chimera.Lib.Dyadic
import Chimera.Pmm.Lists

/-!
# The buddy invariant

`PmmInv s L` is the invariant of the allocator: the free lists `L` are well formed (`Lists`), the
listed blocks tile the pages with reference count `0` and hold no pair of buddies
(`BuddyTiling`), their sizes add up to `s_free_pages`, and descriptor `q` describes page `q`.
The last clause needs page numbers to fit a `ppnum_t`, which is why `s_max_phys_page ≤ 2 ^ 32` is
part of the invariant.

The loops come first, each with the one lemma the entry points use: merging
(`buddyFreeLoop_spec`), splitting (`buddySplit_spec`), marking (`buddyClaim_spec`).
-/

namespace Chimera

open Lib

/-! ## Blocks and their total size -/

/-- The blocks on the lists `L`, as pairs of a start page and an order. -/
def blocks (L : ℕ → List ℕ) : Set (ℕ × ℕ) := {b | b.1 ∈ L b.2}

variable {L : ℕ → List ℕ} {k p : ℕ} {s : Pmm} {F : Set ℕ}

@[simp] lemma mem_blocks : (p, k) ∈ blocks L ↔ p ∈ L k := Iff.rfl

/-- The number of pages in the blocks on the lists `L`. -/
def weight (L : ℕ → List ℕ) : ℕ := ∑ k ∈ Finset.range (buddyMaxOrder + 1), (L k).length * 2 ^ k

lemma blocks_cons (L : ℕ → List ℕ) (k p : ℕ) :
    blocks (Function.update L k (p :: L k)) = insert (p, k) (blocks L) := by
  ext ⟨q, j⟩
  by_cases hjk : j = k
  · subst hjk
    simp
  · simp [hjk]

lemma blocks_erase (hnd : (L k).Nodup) (p : ℕ) :
    blocks (Function.update L k ((L k).erase p)) = blocks L \ {(p, k)} := by
  ext ⟨q, j⟩
  by_cases hjk : j = k
  · subst hjk
    simp [hnd.mem_erase_iff, and_comm]
  · simp [hjk]

lemma weight_update (L : ℕ → List ℕ) (hk : k ≤ buddyMaxOrder) (l : List ℕ) :
    weight (Function.update L k l) + (L k).length * 2 ^ k = weight L + l.length * 2 ^ k := by
  have hmem : k ∈ Finset.range (buddyMaxOrder + 1) := Finset.mem_range.mpr (by omega)
  have hrest : ∀ j ∈ (Finset.range (buddyMaxOrder + 1)).erase k,
      (Function.update L k l j).length * 2 ^ j = (L j).length * 2 ^ j := by
    intro j hj
    rw [Function.update_of_ne (Finset.ne_of_mem_erase hj)]
  unfold weight
  rw [← Finset.add_sum_erase _ _ hmem, ← Finset.add_sum_erase _ _ hmem,
    Finset.sum_congr rfl hrest, Function.update_self]
  omega

lemma weight_cons (L : ℕ → List ℕ) (hk : k ≤ buddyMaxOrder) (p : ℕ) :
    weight (Function.update L k (p :: L k)) = weight L + 2 ^ k := by
  have h := weight_update L hk (p :: L k)
  rw [List.length_cons, Nat.add_mul, one_mul] at h
  omega

lemma weight_erase (L : ℕ → List ℕ) (hk : k ≤ buddyMaxOrder) (hp : p ∈ L k) :
    weight (Function.update L k ((L k).erase p)) + 2 ^ k = weight L := by
  have h := weight_update L hk ((L k).erase p)
  have hlen := List.length_erase_add_one hp
  rw [← hlen, Nat.add_mul, one_mul] at h
  omega

/-! ## Steps that only move links -/

/-- `s'` differs from `s` in links, flags, orders and list heads only. -/
structure SameCounts (s s' : Pmm) : Prop where
  max_eq : s'.maxPhysPage = s.maxPhysPage
  free_eq : s'.freePages = s.freePages
  ref_eq : ∀ q, (s'.pages q).refCount = (s.pages q).refCount
  phys_eq : ∀ q, (s'.pages q).physPage = (s.pages q).physPage

lemma SameCounts.refl (s : Pmm) : SameCounts s s := ⟨rfl, rfl, fun _ => rfl, fun _ => rfl⟩

lemma SameCounts.trans {t u : Pmm} (h1 : SameCounts s t) (h2 : SameCounts t u) : SameCounts s u :=
  ⟨h2.max_eq.trans h1.max_eq, h2.free_eq.trans h1.free_eq,
    fun q => (h2.ref_eq q).trans (h1.ref_eq q), fun q => (h2.phys_eq q).trans (h1.phys_eq q)⟩

lemma sameCounts_add (s : Pmm) (k p : ℕ) : SameCounts s (buddyListAdd s k p) := ⟨by simp, by simp, by simp, by simp⟩

lemma sameCounts_remove (s : Pmm) (k p : ℕ) : SameCounts s (buddyListRemove s k p) :=
  ⟨by simp, by simp, by simp, by simp⟩

lemma sameCounts_freeLoop (n : ℕ) (s : Pmm) (p k : ℕ) : SameCounts s (buddyFreeLoop n s p k) := by
  induction n generalizing s p k with
  | zero => exact sameCounts_add s k p
  | succ n ih =>
    simp only [buddyFreeLoop]
    split_ifs
    · exact sameCounts_add s k p
    · exact sameCounts_add s k p
    · exact (sameCounts_remove s k _).trans (ih _ _ _)
    · exact (sameCounts_remove s k _).trans (ih _ _ _)

lemma sameCounts_split (n : ℕ) (s : Pmm) (p k : ℕ) : SameCounts s (buddySplit n s p k) := by
  induction n generalizing s with
  | zero => exact SameCounts.refl s
  | succ n ih => exact (sameCounts_add s _ _).trans (ih _)

/-! ## Merging -/

/-- Listing a block whose buddy is not listed at its order. -/
lemma buddyListAdd_spec (hL : Lists s L)
    (hT : BuddyTiling buddyMaxOrder F (blocks L)) (hk : k ≤ buddyMaxOrder) (hp : 2 ^ k ∣ p)
    (hfresh : ∀ x ∈ blk p k, x ∉ F) (hlt : p < s.maxPhysPage)
    (hbuddy : k < buddyMaxOrder → buddy p k ∉ L k) :
    ∃ L', Lists (buddyListAdd s k p) L' ∧
      BuddyTiling buddyMaxOrder (F ∪ blk p k) (blocks L') ∧ weight L' = weight L + 2 ^ k := by
  refine ⟨Function.update L k (p :: L k), hL.add hk hlt fun j hj => ?_, ?_, weight_cons L hk p⟩
  · exact hfresh p (start_mem_blk p k) (hT.sub (mem_blocks.mpr hj) (start_mem_blk p j))
  · rw [blocks_cons]
    exact hT.insert hk hp hfresh hbuddy

/-- One round of the merging loop, with its tests turned into the condition for going on. -/
lemma buddyFreeLoop_succ (n : ℕ) (s : Pmm) (p k : ℕ) : buddyFreeLoop (n + 1) s p k =
      if buddy p k < s.maxPhysPage ∧ (s.pages (buddy p k)).isFree ∧
          (s.pages (buddy p k)).order = k ∧ (s.pages (buddy p k)).refCount = 0 then
        buddyFreeLoop n (buddyListRemove s k (buddy p k)) (min p (buddy p k)) (k + 1)
      else buddyListAdd s k p := by
  have hmin : (if buddy p k < p then buddy p k else p) = min p (buddy p k) := by
    rw [min_def]
    split_ifs <;> omega
  have hxor : p ^^^ 2 ^ k = buddy p k := rfl
  simp only [buddyFreeLoop, hxor, hmin, ge_iff_le, ← not_lt, ← not_and_or, ite_not]
  split_ifs <;> tauto

/-- **The merging loop.** A block of pages outside the tiled set `F` is added to it, merged with
every free buddy on the way up. -/
theorem buddyFreeLoop_spec (n : ℕ) (hL : Lists s L) (hT : BuddyTiling buddyMaxOrder F (blocks L))
    (hF : ∀ q ∈ F, q < s.maxPhysPage ∧ (s.pages q).refCount = 0) (hkn : k + n = buddyMaxOrder)
    (hp : 2 ^ k ∣ p) (hfresh : ∀ x ∈ blk p k, x ∉ F) (hlt : ∀ x ∈ blk p k, x < s.maxPhysPage) :
    ∃ L', Lists (buddyFreeLoop n s p k) L' ∧
      BuddyTiling buddyMaxOrder (F ∪ blk p k) (blocks L') ∧ weight L' = weight L + 2 ^ k := by
  induction n generalizing s L F p k with
  | zero => exact buddyListAdd_spec hL hT (by omega) hp hfresh (hlt p (start_mem_blk p k)) (by omega)
  | succ n ih =>
    rw [buddyFreeLoop_succ]
    by_cases hb : buddy p k ∈ L k
    · have hbF := hT.sub (mem_blocks.mpr hb)
      rw [if_pos ⟨hL.lt_max hb, (hL.free_iff (hL.lt_max hb)).mpr ⟨k, hb⟩, hL.order_eq hb,
        (hF _ (hbF (start_mem_blk _ k))).2⟩]
      have hT1 := hT.erase (mem_blocks.mpr hb)
      rw [← blocks_erase (hL.nodup k)] at hT1
      have hmerge := fun x => mem_blk_merge (x := x) hp
      obtain ⟨L', h1, h2, h3⟩ := ih (hL.remove hb) hT1
        (fun q hq => by simpa using hF q hq.1) (by omega) (dvd_min_buddy hp)
        (fun x hx hxF => by
          rcases (hmerge x).mp hx with h | h
          · exact hfresh x h hxF.1
          · exact hxF.2 h)
        (fun x hx => by
          rw [buddyListRemove_maxPhysPage]
          rcases (hmerge x).mp hx with h | h
          · exact hlt x h
          · exact (hF x (hbF h)).1)
      refine ⟨L', h1, ?_, ?_⟩
      · rwa [diff_union_blk_merge hp hbF] at h2
      · have hw := weight_erase L (hL.order_le hb) hb
        rw [h3, pow_succ]
        omega
    · rw [if_neg ?_]
      · exact buddyListAdd_spec hL hT (by omega) hp hfresh (hlt p (start_mem_blk p k)) fun _ => hb
      · rintro ⟨hmax, hfree, hord, -⟩
        obtain ⟨j, hj⟩ := (hL.free_iff hmax).mp hfree
        have hjk : j = k := (hL.order_eq hj).symm.trans hord
        exact hb (hjk ▸ hj)

/-! ## Splitting -/

/-- **The splitting loop.** Of a block of order `order + n` outside the tiled set, all but its
first `2 ^ order` pages go back to the lists. -/
theorem buddySplit_spec (n : ℕ) {order : ℕ} (hL : Lists s L) (hT : BuddyTiling buddyMaxOrder F (blocks L))
    (hn : order + n ≤ buddyMaxOrder) (hp : 2 ^ (order + n) ∣ p)
    (hfresh : ∀ x ∈ blk p (order + n), x ∉ F)
    (hlt : ∀ x ∈ blk p (order + n), x < s.maxPhysPage) (hmax : s.maxPhysPage ≤ 2 ^ 32)
    (hphys : (s.pages p).physPage = p) :
    ∃ L', Lists (buddySplit n s p order) L' ∧
      BuddyTiling buddyMaxOrder (F ∪ (blk p (order + n) \ blk p order)) (blocks L') ∧
      weight L' + 2 ^ order = weight L + 2 ^ (order + n) := by
  induction n generalizing s L F with
  | zero => exact ⟨L, hL, by simpa using hT, rfl⟩
  | succ n ih =>
    have hb : buddy p (order + n) = p + 2 ^ (order + n) := buddy_of_dvd hp
    have hpn : 2 ^ (order + n) ∣ p := (pow_dvd_pow 2 (Nat.le_succ _)).trans hp
    have hlow : blk p (order + n) ⊆ blk p (order + (n + 1)) := blk_succ p (order + n) ▸ Set.subset_union_left
    have hhigh : blk (p + 2 ^ (order + n)) (order + n) ⊆ blk p (order + (n + 1)) :=
      blk_succ p (order + n) ▸ Set.subset_union_right
    have hup : p + 2 ^ (order + n) < s.maxPhysPage := hlt _ (hhigh (start_mem_blk _ _))
    have hu32 : u32 ((s.pages p).physPage + 2 ^ (order + n)) = p + 2 ^ (order + n) := by
      rw [hphys]
      exact Nat.mod_eq_of_lt (by omega)
    -- the buddy of the upper half is the block kept, which is not listed
    obtain ⟨L1, hL1, hT1, hw1⟩ := buddyListAdd_spec
      hL hT (by omega) (hb ▸ dvd_buddy hpn) (fun x hx => hfresh x (hhigh hx)) hup
      fun _ hmem => by
        rw [← hb, buddy_buddy] at hmem
        exact hfresh p (start_mem_blk p _) (hT.sub (mem_blocks.mpr hmem) (start_mem_blk p _))
    obtain ⟨L', h1, h2, h3⟩ := ih hL1 hT1 (by omega) hpn
      (fun x hx hxF => by
        rcases hxF with hxF | hxF
        · exact hfresh x (hlow hx) hxF
        · exact Set.disjoint_left.mp (blk_disjoint le_rfl) hx hxF)
      (fun x hx => by simpa using hlt x (hlow hx)) (by simpa using hmax)
      (by simpa using hphys)
    simp only [buddySplit, hu32]
    refine ⟨L', h1, ?_, ?_⟩
    · have hle : 2 ^ order ≤ 2 ^ (order + n) := Nat.pow_le_pow_right (by omega) (by omega)
      have hdisj : Disjoint (blk p order) (blk (p + 2 ^ (order + n)) (order + n)) := blk_disjoint (by omega)
      rwa [← add_assoc order n 1, blk_succ, Set.union_sdiff_distrib, hdisj.symm.sdiff_eq_left,
        Set.union_comm (_ \ _), ← Set.union_assoc]
    · rw [h3, hw1, ← add_assoc order n 1, pow_succ]
      omega

/-! ## Marking -/

/-- **The marking loop.** The pages of an unlisted block get one reference each and leave the
free flag behind; the lists stay. -/
theorem buddyClaim_spec (order : ℕ) (hL : Lists s L)
    (hfresh : ∀ x ∈ blk p order, ∀ k, x ∉ L k) (hphys : (s.pages p).physPage = p) :
    let s' := forUpTo (buddyClaimPage order p) (2 ^ order) s
    Lists s' L ∧ s'.maxPhysPage = s.maxPhysPage ∧ s'.freePages = s.freePages ∧
      ∀ q, (s'.pages q).physPage = (s.pages q).physPage ∧ (s'.pages q).refCount =
          if p ≤ q ∧ q < p + 2 ^ order then 1 else (s.pages q).refCount := by
  refine forUpTo_invariant (fun i t => Lists t L ∧ t.maxPhysPage = s.maxPhysPage ∧
    t.freePages = s.freePages ∧ ∀ q, (t.pages q).physPage = (s.pages q).physPage ∧
      (t.pages q).refCount = if p ≤ q ∧ q < p + i then 1 else (s.pages q).refCount) ?_ ?_
  · refine ⟨hL, rfl, rfl, fun q => ⟨rfl, ?_⟩⟩
    rw [if_neg (by omega)]
  · rintro i hi t ⟨htL, hmax, hfree, hpages⟩
    have hnot : ∀ k, p + i ∉ L k := hfresh _ ⟨by omega, by omega⟩
    simp only [buddyClaimPage, (hpages p).1, hphys]
    refine ⟨htL.setPage (fun hlt => ?_) fun k hk => absurd hk (hnot k), hmax, hfree, fun q => ?_⟩
    · rw [htL.free_iff hlt]
      simp [VmPage.isFree, vmPageActive, vmPageFree, hnot]
    · by_cases hq : q = p + i
      · subst hq
        simp [(hpages (p + i)).1]
      · rw [setPage_pages, if_neg hq, (hpages q).1, (hpages q).2]
        refine ⟨rfl, if_congr ?_ rfl rfl⟩
        omega

/-! ## The invariant -/

/-- The reference count of page `q`; a page outside the managed range has none. -/
def rc (s : Pmm) (q : ℕ) : ℕ := if q < s.maxPhysPage then (s.pages q).refCount else 0

lemma pmmGetRefcount_eq (s : Pmm) (addr : ℕ) : pmmGetRefcount s addr = rc s (addr / pageSize) := by
  simp only [pmmGetRefcount, rc, ge_iff_le, ← not_lt, ite_not]

lemma rc_setPage (s : Pmm) (p : ℕ) (v : VmPage) (q : ℕ) :
    rc (s.setPage p v) q = if q = p ∧ q < s.maxPhysPage then v.refCount else rc s q := by
  unfold rc
  by_cases hq : q = p <;> by_cases hlt : q < s.maxPhysPage <;> simp_all

lemma SameCounts.rc_eq {s' : Pmm} (h : SameCounts s s') (q : ℕ) : rc s' q = rc s q := by
  unfold rc
  rw [h.max_eq, h.ref_eq]

/-- The managed pages without a reference. -/
def Pmm.freeSet (s : Pmm) : Set ℕ := {q | q < s.maxPhysPage ∧ (s.pages q).refCount = 0}

lemma mem_freeSet {q : ℕ} : q ∈ s.freeSet ↔ q < s.maxPhysPage ∧ rc s q = 0 := by
  unfold Pmm.freeSet rc
  by_cases hq : q < s.maxPhysPage <;> simp [hq]

/-- **The allocator's invariant**, for the free lists read off as `L`. -/
structure PmmInv (s : Pmm) (L : ℕ → List ℕ) : Prop where
  lists : Lists s L
  /-- The listed blocks tile the pages without a reference, and no two are buddies. -/
  tiling : BuddyTiling buddyMaxOrder s.freeSet (blocks L)
  weight_eq : weight L = s.freePages
  /-- Page numbers fit a `ppnum_t`. -/
  max_le : s.maxPhysPage ≤ 2 ^ 32
  phys_eq : ∀ q < s.maxPhysPage, (s.pages q).physPage = q

namespace PmmInv

/-- A page with a reference is on no list. -/
lemma not_listed (h : PmmInv s L) (hp : (s.pages p).refCount ≠ 0) (k : ℕ) : p ∉ L k :=
  fun hk => hp (h.tiling.sub (mem_blocks.mpr hk) (start_mem_blk p k)).2

/-- Writing a descriptor of a referenced page with a new count that is not `0`. -/
lemma setPage (h : PmmInv s L) {v : VmPage} (hp : (s.pages p).refCount ≠ 0)
    (hv : v.refCount ≠ 0) (hflag : v.flags = (s.pages p).flags)
    (hphys : v.physPage = (s.pages p).physPage) : PmmInv (s.setPage p v) L where
  lists := by
    refine h.lists.setPage (fun _ => ?_) fun k hk => absurd hk (h.not_listed hp k)
    rw [VmPage.isFree, VmPage.isFree, hflag]
  tiling := by
    have hset : (s.setPage p v).freeSet = s.freeSet := by
      ext q
      by_cases hq : q = p
      · subst hq
        simp [Pmm.freeSet, hv, hp]
      · simp [Pmm.freeSet, hq]
    exact hset ▸ h.tiling
  weight_eq := h.weight_eq
  max_le := h.max_le
  phys_eq := by
    intro q hq
    have hold := h.phys_eq q hq
    by_cases hqp : q = p
    · subst hqp
      simp [hphys, hold]
    · simp [hqp, hold]

/-- **Freeing one page**: a state whose one unlisted page without a reference is `p` gets the
invariant back when `p` goes to the free lists. -/
lemma freePage {F : Set ℕ} (hL : Lists s L) (hT : BuddyTiling buddyMaxOrder F (blocks L))
    (hw : weight L = s.freePages) (hmax : s.maxPhysPage ≤ 2 ^ 32)
    (hphys : ∀ q < s.maxPhysPage, (s.pages q).physPage = q) (hp : p ∉ F)
    (hset : s.freeSet = F ∪ {p}) :
    let s1 := buddyFreeBlock s (u32 p) 0
    ∃ L', PmmInv { s1 with freePages := s1.freePages + 1 } L' := by
  have hlt : p < s.maxPhysPage := (hset ▸ Set.mem_union_right F rfl : p ∈ s.freeSet).1
  have hu32 : u32 p = p := Nat.mod_eq_of_lt (by omega)
  obtain ⟨L', h1, h2, h3⟩ := buddyFreeLoop_spec buddyMaxOrder hL hT
    (fun q hq => (hset ▸ Set.mem_union_left {p} hq : q ∈ s.freeSet)) (Nat.zero_add _)
    (Nat.one_dvd p) (fun x hx => by rw [blk_zero] at hx; exact hx ▸ hp)
    (fun x hx => by rw [blk_zero] at hx; exact hx ▸ hlt)
  have hc := sameCounts_freeLoop buddyMaxOrder s p 0
  simp only [buddyFreeBlock, hu32, Nat.sub_zero]
  generalize buddyFreeLoop buddyMaxOrder s p 0 = s1 at h1 hc
  have hfree : s1.freeSet = s.freeSet := by
    ext q
    simp [Pmm.freeSet, hc.max_eq, hc.ref_eq]
  refine ⟨L', h1.congr rfl rfl rfl, ?_, ?_, ?_, ?_⟩
  · show BuddyTiling buddyMaxOrder s1.freeSet (blocks L')
    rw [hfree, hset, ← blk_zero]
    exact h2
  · show weight L' = s1.freePages + 1
    rw [h3, hc.free_eq, hw, pow_zero]
  · show s1.maxPhysPage ≤ 2 ^ 32
    rw [hc.max_eq]
    exact hmax
  · intro q hq
    rw [hc.phys_eq]
    exact hphys q (hc.max_eq ▸ hq)

end PmmInv

end Chimera
