import Chimera.Pmm.Contiguous
import Chimera.Zone.Heap

/-!
# Soundness of the kernel heap

Runs of `kalloc` and `kfree` from boot, in which owners write to their blocks as they like. In every
state of every run the live blocks with their headers do not overlap, no element on a free list
overlaps one of them, every free list ends, and a new block is aligned and filled with zeros
(`heap_sound`).

`z_free_count` is 32 bits wide, so it is the length of its free list modulo `2 ^ 32`: a heap that has
had `2 ^ 32` elements of one zone and has them all back counts none (`freeCount_wraps`).

`pmm.c` is a supply of frames as the heap needs it (`pmmSupply`).
-/

namespace Chimera

open Lib

/-! ## Runs -/

/-- The state at boot: the statics of `zone.c` are zero. -/
def bootHeap {σ : Type} (m : Bytes) (t : σ) : Heap σ where
  mem := m
  zones := fun _ => ⟨0, 0, 0, 0, 0⟩
  zoneCount := 0
  initialized := false
  pmm := t

/-- A block: where it is and how many bytes were asked for. -/
structure Block where
  addr : ℕ
  size : ℕ
  deriving DecidableEq, Repr

/-- Runs of the heap, with the blocks that are live. -/
inductive HeapRun {σ : Type} (P : FrameSupply σ) (m : Bytes) (t : σ) : Heap σ → List Block → Prop
  | boot : HeapRun P m t (bootHeap m t) []
  | alloc {h : Heap σ} {live : List Block} (size : ℕ) (hrun : HeapRun P m t h live)
      (hsize : size < 2 ^ 63) :
      HeapRun P m t (kalloc P h size).2
        (if (kalloc P h size).1 = 0 then live else ⟨(kalloc P h size).1, size⟩ :: live)
  | free {h : Heap σ} {live : List Block} (b : Block) (hrun : HeapRun P m t h live) (hb : b ∈ live) :
      HeapRun P m t (kfree P h b.addr) (live.erase b)
  | write {h : Heap σ} {live : List Block} (b : Block) (i : ℕ) (c : BitVec 8)
      (hrun : HeapRun P m t h live) (hb : b ∈ live) (hi : i < b.size) :
      HeapRun P m t { h with mem := Function.update h.mem (b.addr + i) c } live

/-- **What the heap promises** of a state with the live blocks given. -/
structure HeapSound {σ : Type} (P : FrameSupply σ) (h : Heap σ) (live : List Block) : Prop where
  aligned : ∀ b ∈ live, 64 ∣ b.addr
  /-- Blocks do not overlap each other or each other's headers. -/
  disjoint : live.Pairwise fun b c => apart (b.addr - 64) (64 + b.size) (c.addr - 64) (64 + c.size)
  /-- The free list of each zone ends, is counted, and overlaps no block and no header. -/
  lists : ∀ z < kallocZoneCount, ∃ L, Chain (nextOf h.mem) (ptr (h.zones z).freeList) L ∧ L.Nodup ∧
    (h.zones z).freeCount = L.length % 2 ^ 32 ∧
    ∀ e ∈ L, ∀ b ∈ live, apart e (h.zones z).elemSize (b.addr - 64) (64 + b.size)
  /-- A new block is filled with zeros. -/
  zeroed : ∀ size < 2 ^ 63, (kalloc P h size).1 ≠ 0 →
    ∀ i < size, (kalloc P h size).2.mem ((kalloc P h size).1 + i) = 0

section runs

variable {σ : Type} {P : FrameSupply σ} {m : Bytes} {t : σ} {h : Heap σ} {H : Layout} {live : List Block}

/-- The part of the heap that holds a block. -/
def Holds (H : Layout) (b : Block) : Prop :=
  64 ≤ b.addr ∧ ∃ q, H (b.addr - 64) = some q ∧ IsBlock b.size q

/-- The live blocks have parts of their own. -/
structure Placed (H : Layout) (live : List Block) : Prop where
  nodup : (live.map Block.addr).Nodup
  holds : ∀ b ∈ live, Holds H b

/-- The invariant of a run: nothing has happened yet, or there is a layout for the live blocks. -/
def Tracked (P : FrameSupply σ) (h : Heap σ) (live : List Block) : Prop :=
  (h.initialized = false ∧ (∀ z, h.zones z = ⟨0, 0, 0, 0, 0⟩) ∧ live = []) ∨
    ∃ H, HeapInv P h H ∧ Placed H live

variable {H' : Layout} {b : Block} {q : Role} {size : ℕ}

lemma Holds.keep (hb : Holds H b) (hk : KeepsBlocks H H') : Holds H' b := by
  obtain ⟨hlo, q, hq, hblock⟩ := hb
  exact ⟨hlo, q, hk _ q hq hblock.ne_free, hblock⟩

/-- The bytes of a block are in its part, after the header. -/
lemma HeapInv.size_le (i : HeapInv P h H) {a : ℕ} (hq : H a = some q)
    (hblock : IsBlock size q) : 64 + size ≤ q.len := by
  have hok := i.cells.ok hq
  rcases hblock with ⟨z, rfl⟩ | ⟨n, rfl⟩
  · rw [Nat.add_comm]
    exact hok.2.1
  · rw [Nat.add_comm]
    exact hok.1

/-- A part that was not in use gets a block. -/
lemma Placed.cons {H' : Layout} (p : Placed H live) (hkeep : KeepsBlocks H H') {a size : ℕ} {q : Role}
    (hnew : ∀ p, H a = some p → ∃ z, p = .free z) (hq : H' a = some q) (hblock : IsBlock size q) :
    Placed H' (⟨a + 64, size⟩ :: live) := by
  constructor
  · rw [List.map_cons, List.nodup_cons]
    refine ⟨fun hmem => ?_, p.nodup⟩
    -- a live block at this address would have been in use before
    obtain ⟨b, hb, heq⟩ := List.mem_map.mp hmem
    obtain ⟨-, q', hq', hblock'⟩ := p.holds b hb
    rw [heq, Nat.add_sub_cancel] at hq'
    obtain ⟨z, rfl⟩ := hnew q' hq'
    exact hblock'.ne_free z rfl
  · intro b hb
    rcases List.mem_cons.mp hb with rfl | hb
    · refine ⟨by dsimp only; omega, q, ?_, hblock⟩
      rwa [Nat.add_sub_cancel]
    · exact (p.holds b hb).keep hkeep

/-- The other live blocks are elsewhere. -/
lemma Placed.ne_of_mem_erase (p : Placed H live) {c : Block} (hb : b ∈ live) (hc : c ∈ live.erase b) :
    c.addr - 64 ≠ b.addr - 64 := by
  intro heq
  have hc' : c ∈ live := List.mem_of_mem_erase hc
  have hlo := (p.holds b hb).1
  have hlo' := (p.holds c hc').1
  have hcb : c = b := List.inj_on_of_nodup_map p.nodup hc' hb (by omega)
  rw [hcb] at hc
  exact (List.Nodup.of_map _ p.nodup).not_mem_erase hc

/-- A block goes, and everything else stays. -/
lemma Placed.erase (p : Placed H live) (hb : b ∈ live)
    (hsame : ∀ x ≠ b.addr - 64, H' x = H x) : Placed H' (live.erase b) := by
  refine ⟨p.nodup.sublist ((List.erase_sublist).map _), fun c hc => ?_⟩
  obtain ⟨hlo, q, hq, hblock⟩ := p.holds c (List.mem_of_mem_erase hc)
  refine ⟨hlo, q, ?_, hblock⟩
  rw [hsame _ (p.ne_of_mem_erase hb hc), hq]

lemma HeapInv.tracked_alloc (i : HeapInv P h H) (p : Placed H live) (hsize : size < 2 ^ 63) :
    ∃ H', HeapInv P (kalloc P h size).2 H' ∧
      Placed H' (if (kalloc P h size).1 = 0 then live else ⟨(kalloc P h size).1, size⟩ :: live) := by
  cases i.kalloc_spec hsize with
  | @failed H' hr i' hkeep =>
    rw [if_pos hr]
    exact ⟨H', i', p.nodup, fun b hb => (p.holds b hb).keep hkeep⟩
  | @done H' a q hr i' hkeep hnew hq hblock hzero =>
    rw [hr, if_neg (by omega)]
    exact ⟨H', i', p.cons hkeep hnew hq hblock⟩

lemma HeapInv.tracked_free (i : HeapInv P h H) (p : Placed H live) (hb : b ∈ live) :
    ∃ H', HeapInv P (kfree P h b.addr) H' ∧ Placed H' (live.erase b) := by
  obtain ⟨hlo, q, hq, hblock⟩ := p.holds b hb
  obtain ⟨H', i', hsame⟩ := i.kfree_spec hq hblock.ne_free
  rw [Nat.sub_add_cancel hlo] at i'
  exact ⟨H', i', p.erase hb hsame⟩

/-- The first call sets up the zones. -/
lemma kalloc_first (h0 : h.initialized = false) (hs : size ≠ 0) : kalloc P h size = kalloc P (zoneInit h) size := by
  unfold kalloc
  rw [(zoneInit_inv (P := P) h0).ready, h0, if_neg hs, if_neg hs]
  rfl

lemma placed_nil : Placed H [] := ⟨List.nodup_nil, by simp⟩

/-- **Every state of a run is tracked.** -/
theorem HeapRun.tracked (hrun : HeapRun P m t h live) : Tracked P h live := by
  induction hrun with
  | boot => exact .inl ⟨rfl, fun _ => rfl, rfl⟩
  | @alloc h live size _ hsize ih =>
    rcases ih with ⟨h0, hz, rfl⟩ | ⟨H, i, p⟩
    · by_cases hs : size = 0
      · left
        rw [kalloc, if_pos hs]
        exact ⟨h0, hz, rfl⟩
      · right
        rw [kalloc_first h0 hs]
        exact (zoneInit_inv h0).tracked_alloc placed_nil hsize
    · exact .inr (i.tracked_alloc p hsize)
  | free b _ hb ih =>
    rcases ih with ⟨-, -, rfl⟩ | ⟨H, i, p⟩
    · cases hb
    · exact .inr (i.tracked_free p hb)
  | @write h live b k c _ hb hk ih =>
    rcases ih with ⟨-, -, rfl⟩ | ⟨H, i, p⟩
    · cases hb
    · obtain ⟨hlo, q, hq, hblock⟩ := p.holds b hb
      have hlen := i.size_le hq hblock
      exact .inr ⟨H, i.write hq (by omega) (by omega) c, p⟩

/-- A new block is filled with zeros. -/
lemma HeapInv.zeroed (i : HeapInv P h H) (hsize : size < 2 ^ 63) (hne : (kalloc P h size).1 ≠ 0) :
    ∀ j < size, (kalloc P h size).2.mem ((kalloc P h size).1 + j) = 0 := by
  cases i.kalloc_spec hsize with
  | failed hr _ _ => exact absurd hr hne
  | done hr _ _ _ _ _ hzero => exact hzero

/-- A block with its header is in its part, so other parts do not overlap it. -/
lemma HeapInv.apart_block (i : HeapInv P h H) (hb : Holds H b) {e : ℕ}
    (he : H e = some q) (hne : e ≠ b.addr - 64) : apart e q.len (b.addr - 64) (64 + b.size) := by
  obtain ⟨-, q', hq', hblock⟩ := hb
  have hlen := i.size_le hq' hblock
  rcases i.cells.disj he hq' hne with h | h
  · exact .inl h
  · right
    omega

/-- **Soundness of the kernel heap.** -/
theorem heap_sound (hrun : HeapRun P m t h live) : HeapSound P h live := by
  rcases hrun.tracked with ⟨h0, hz, rfl⟩ | ⟨H, i, p⟩
  · refine ⟨by simp, List.Pairwise.nil, fun z _ => ⟨[], ?_, List.nodup_nil, ?_, by simp⟩, ?_⟩
    · rw [hz]
      rfl
    · rw [hz]
      rfl
    · intro size hsize hne
      by_cases hs : size = 0
      · intro j hj
        omega
      · rw [kalloc_first h0 hs] at hne ⊢
        exact (zoneInit_inv h0).zeroed hsize hne
  · refine ⟨fun b hb => ?_, ?_, fun z hz => ?_, fun size hsize hne => i.zeroed hsize hne⟩
    · obtain ⟨hlo, q, hq, -⟩ := p.holds b hb
      have hdvd := (i.cells.base hq).2.1
      omega
    · refine (List.pairwise_map.mp p.nodup).imp_of_mem fun {b c} hb hc hbc => ?_
      obtain ⟨hlo, q, hq, hblock⟩ := p.holds b hb
      have hlen := i.size_le hq hblock
      have hlo' := (p.holds c hc).1
      rcases i.apart_block (p.holds c hc) hq (by omega) with h | h
      · left
        omega
      · exact .inr h
    · obtain ⟨L, f⟩ := i.lists z hz
      refine ⟨L, f.chain, f.chain.nodup, f.count, fun e he b hb => ?_⟩
      have hfree := (f.mem_iff e).mp he
      have hne : e ≠ b.addr - 64 := by
        rintro rfl
        obtain ⟨-, q, hq, hblock⟩ := p.holds b hb
        rw [hfree] at hq
        exact hblock.ne_free z (Option.some.inj hq).symm
      rw [i.sizes z hz]
      exact i.apart_block (p.holds b hb) hfree hne

end runs

/-! ## The supply of `pmm.c` -/

variable {s : Pmm}

/-- The result of `pmm_alloc_pages` for any number of pages. -/
lemma pmmAllocPages_cases (h : s.Inv) (n : ℕ) : (pmmAllocPages s n).2.Inv ∧
      (((pmmAllocPages s n).2 = s ∧ allocFailed (pmmAllocPages s n).1 = true) ∨
        (n ≤ 2 ^ Nat.clog 2 n ∧ ∃ p, (pmmAllocPages s n).1 = p * pageSize ∧
          Taken s p (Nat.clog 2 n) (pmmAllocPages s n).2)) := by
  by_cases hn : 1 ≤ n ∧ n ≤ 2 ^ buddyMaxOrder
  · obtain ⟨hinv, ⟨hs, hfail⟩ | ht⟩ := pmmAllocPages_taken h hn.1 hn.2
    · exact ⟨hinv, .inl ⟨hs, decide_eq_true hfail⟩⟩
    · exact ⟨hinv, .inr ⟨Nat.le_pow_clog (by decide) n, ht⟩⟩
  · have hfail : pmmAllocPages s n = (paddrFail, s) := by
      unfold pmmAllocPages
      by_cases h0 : n = 0
      · rw [if_pos h0]
      · rw [if_neg h0, if_neg (by have := Nat.one_le_two_pow (n := buddyMaxOrder); omega),
          pmmOrderFor_eq_none (by rw [Nat.zero_add]; omega)]
    rw [hfail]
    exact ⟨h, .inl ⟨rfl, rfl⟩⟩

/-- The frames in use. -/
def heldFrames (s : Pmm) : Set ℕ := {f | rc s f ≠ 0 ∨ s.maxPhysPage ≤ f}

/-- Pages taken from free ones. -/
lemma Taken.supplied {s' : Pmm} (h : s.Inv) {p order n : ℕ} (ht : Taken s p order s') (hn : n ≤ 2 ^ order) :
    heldFrames s ⊆ heldFrames s' ∧ p + n ≤ 2 ^ 52 ∧ ∀ i < n, p + i ∉ heldFrames s ∧ p + i ∈ heldFrames s' := by
  have hfree : ∀ q ∈ blk p order, q < s.maxPhysPage ∧ rc s q = 0 := fun q hq => mem_freeSet.mp (ht.free hq)
  obtain ⟨L, hL⟩ := h
  have hmax := hL.max_le
  refine ⟨fun f hf => ?_, ?_, fun i hi => ⟨fun hheld => ?_, .inl ?_⟩⟩
  · rcases hf with hf | hf
    · left
      rw [ht.rc_eq]
      split_ifs
      · exact one_ne_zero
      · exact hf
    · exact .inr (by rwa [ht.max_eq])
  · have hpos := Nat.two_pow_pos order
    have hlast := (hfree (p + 2 ^ order - 1) (by rw [mem_blk]; omega)).1
    omega
  · obtain ⟨hlt, hzero⟩ := hfree (p + i) (by rw [mem_blk]; omega)
    rcases hheld with h | h
    · exact h hzero
    · omega
  · rw [ht.rc_eq, if_pos (by rw [mem_blk]; omega)]
    exact one_ne_zero

lemma heldFrames_freeContiguous {s : Pmm} (hs : s.Inv) {f n : ℕ} (hend : f + n ≤ 2 ^ 52) :
    {g | g ∈ heldFrames s ∧ ¬ (f ≤ g ∧ g < f + n)} ⊆ heldFrames (pmmFreeContiguous s (f * pageSize) n) := by
  rintro g ⟨hg, hout⟩
  rcases hg with hg | hg
  · left
    rwa [(pmmFreeContiguous_spec hs (f * pageSize) n).2 g]
    intro i hi heq
    rw [u64, ← Nat.add_mul, Nat.mod_eq_of_lt (by simp only [pageSize]; omega),
      Nat.mul_div_cancel _ (by decide)] at heq
    omega
  · exact .inr (by rwa [pmmFreeContiguous_max])

/-- **`pmm.c` hands out disjoint frames.** -/
def pmmSupply : FrameSupply {s : Pmm // s.Inv} where
  allocPage s := ((pmmAllocPage s.1).1, ⟨(pmmAllocPage s.1).2, (pmmAllocPage_spec s.2).1⟩)
  allocPages n s := ((pmmAllocPages s.1 n).1, ⟨(pmmAllocPages s.1 n).2, (pmmAllocPages_cases s.2 n).1⟩)
  freeContiguous addr n s := ⟨pmmFreeContiguous s.1 addr n, (pmmFreeContiguous_spec s.2 addr n).1⟩
  taken s := heldFrames s.1
  allocPage_spec s := by
    obtain ⟨hinv, ⟨hfail, -⟩ | ⟨p, hp, ht⟩⟩ := pmmAllocPage_spec s.2
    · have hheld : heldFrames (pmmAllocPage s.1).2 = heldFrames s.1 := by rw [hfail]
      have hzero : (pmmAllocPage s.1).1 = 0 := by rw [hfail]
      refine ⟨hheld.ge, fun h => ?_⟩
      rw [hzero] at h
      cases h
    · obtain ⟨hkeep, hend, hframes⟩ := ht.supplied s.2 le_rfl
      exact ⟨hkeep, fun _ => ⟨p, hp, hend, hframes⟩⟩
  allocPages_spec n s := by
    obtain ⟨-, ⟨heq, hfail⟩ | ⟨hn, p, hp, ht⟩⟩ := pmmAllocPages_cases s.2 n
    · have hheld : heldFrames (pmmAllocPages s.1 n).2 = heldFrames s.1 := by rw [heq]
      refine ⟨hheld.ge, fun h => ?_⟩
      rw [hfail] at h
      cases h
    · obtain ⟨hkeep, hend, hframes⟩ := ht.supplied s.2 hn
      exact ⟨hkeep, fun _ => ⟨p, hp, hend, hframes⟩⟩
  free_spec f n s hend := heldFrames_freeContiguous s.2 hend

/-- The allocator of a small machine, as a supply. -/
def sixteenSupply : {s : Pmm // s.Inv} :=
  ⟨sixteenPmm, (sixteenPmm_run.inv sixteenMap_good (by decide)).1⟩

/-- After boot a block of 100 bytes is the last of the 16 elements of a page. -/
theorem heap_sound_sixteen : HeapSound pmmSupply (kalloc pmmSupply (bootHeap (fun _ => 0) sixteenSupply) 100).2
      [⟨0x103F40, 100⟩] := by
  have hrun := HeapRun.alloc (P := pmmSupply) 100 (.boot (m := fun _ => 0) (t := sixteenSupply)) (by decide)
  have haddr : (kalloc pmmSupply (bootHeap (fun _ => 0) sixteenSupply) 100).1 = 0x103F40 := by decide +kernel
  rw [haddr, if_neg (by decide)] at hrun
  exact heap_sound hrun

/-! ## The counter of free elements -/

/-- A supply that hands out frame after frame. -/
def countingSupply : FrameSupply ℕ where
  allocPage t := if 0 < t ∧ t < 2 ^ 40 then (t * pageSize, t + 1) else (0, t)
  allocPages n t := if 0 < t ∧ t + n < 2 ^ 40 then (t * pageSize, t + n) else (0, t)
  freeContiguous _ _ t := t
  taken t := {f | f < t}
  allocPage_spec t := by
    split_ifs with ht
    · refine ⟨fun f hf => Nat.lt_succ_of_lt hf, fun _ => ⟨t, rfl, by omega, fun i hi => ⟨?_, ?_⟩⟩⟩
      · exact fun h => absurd h (by simp)
      · show t + i < t + 1
        omega
    · exact ⟨le_rfl, fun h => by cases h⟩
  allocPages_spec n t := by
    split_ifs with ht
    · refine ⟨fun f hf => Nat.lt_add_right n hf, fun _ => ⟨t, rfl, by omega, fun i hi => ⟨?_, ?_⟩⟩⟩
      · exact fun h => absurd h (by simp)
      · show t + i < t + n
        omega
    · exact ⟨le_rfl, fun h => by cases h⟩
  free_spec _ _ _ _ := fun _ hg => hg.1

section wrap

variable {m : Bytes} {h : Heap ℕ} {H : Layout} {live : List Block}

lemma zoneInit_pmm (h : Heap ℕ) : (zoneInit h).pmm = h.pmm := by
  have hfold : ∀ (sizes : List ℕ) (h : Heap ℕ), (sizes.foldl (fun h size => (zinit h size).2) h).pmm = h.pmm := by
    intro sizes
    induction sizes with
    | nil => exact fun _ => rfl
    | cons x xs ih =>
      intro h
      rw [List.foldl_cons, ih, zinit]
      split_ifs <;> rfl
  unfold zoneInit
  split_ifs
  · rfl
  · exact hfold kallocSizes { h with zoneCount := 0 }

/-- All live blocks are elements of zone 3, of one byte each. -/
structure InZoneThree (h : Heap ℕ) (live : List Block) (H : Layout) : Prop where
  inv : HeapInv countingSupply h H
  placed : Placed H live
  element : ∀ b ∈ live, H (b.addr - 64) = some (.element 3 1)

/-- A request for one byte goes to the zone of 128 bytes. -/
lemma HeapInv.kalloc_one {σ : Type} {P : FrameSupply σ} {h : Heap σ} (i : HeapInv P h H) :
    kalloc P h 1 = if (zalloc P h 3).1 = 0 then (0, (zalloc P h 3).2)
      else ((zalloc P h 3).1 + 64, { (zalloc P h 3).2 with
        mem := writeZoneHeader (zalloc P h 3).2.mem (zalloc P h 3).1 3 1 }) := by
  have hzone : kallocZone h (u64 (1 + 64)) = some 3 := by
    have hfind : ∀ j ∈ List.range kallocZoneCount,
        decide ((h.zones j).elemSize ≥ u64 (1 + 64)) = decide (zoneElem j ≥ 65) := by
      intro j hj
      rw [i.sizes j (List.mem_range.mp hj)]
      rfl
    unfold kallocZone
    rw [List.find?_congr hfind]
    decide
  unfold kalloc
  rw [if_neg (by decide), i.ready]
  simp only [not_true_eq_false, if_false]
  rw [if_pos (by decide), hzone]

/-- **One more block**, as long as there are frames. The state `h1` is `h`, or `h` with its zones set
up. -/
lemma InZoneThree.alloc {h1 : Heap ℕ} (hrun : HeapRun countingSupply m 1 h live)
    (heq : kalloc countingSupply h 1 = kalloc countingSupply h1 1) (f : InZoneThree h1 live H)
    (hpos : 0 < h1.pmm) (hlt : h1.pmm < 2 ^ 40) :
    ∃ h' live' H', HeapRun countingSupply m 1 h' live' ∧ InZoneThree h' live' H' ∧
      live'.length = live.length + 1 ∧ 0 < h'.pmm ∧ h'.pmm ≤ h1.pmm + 1 := by
  have hnext : countingSupply.allocPage h1.pmm = (h1.pmm * pageSize, h1.pmm + 1) := if_pos ⟨hpos, hlt⟩
  have hrun' := HeapRun.alloc 1 hrun (by decide)
  rw [heq] at hrun'
  have d := f.inv.allocated_zone (by decide) (show 1 + 64 ≤ zoneElem 3 by decide)
  rw [← f.inv.kalloc_one] at d
  rcases f.inv.zalloc_cases (z := 3) (by decide) with ⟨hfail, -⟩ | ⟨h2, H2, hz, -, -, hne, hpmm⟩
  · rw [hnext] at hfail
    exact absurd (of_decide_eq_true hfail) (by simp only [pageSize, paddrFail]; omega)
  have hone := f.inv.kalloc_one
  have hpop : (popFree h2 3).1 ≠ 0 := hne
  rw [hz, if_neg hpop] at hone
  have hpmm' : (kalloc countingSupply h1 1).2.pmm = h2.pmm := by
    rw [hone]
    rfl
  rw [hnext] at hpmm
  cases d with
  | failed hr _ _ =>
    rw [hone] at hr
    exact absurd hr (by dsimp only; omega)
  | @done H' a q hr i' hkeep hnew hq hkind hzero =>
    rw [hr, if_neg (by omega)] at hrun'
    subst hkind
    refine ⟨_, _, H', hrun', ⟨i', f.placed.cons hkeep hnew hq (.inl ⟨3, rfl⟩), ?_⟩, rfl, ?_, ?_⟩
    · intro b hb
      rcases List.mem_cons.mp hb with rfl | hb
      · rwa [Nat.add_sub_cancel]
      · exact hkeep _ _ (f.element b hb) fun z h => by cases h
    · rw [hpmm']
      rcases hpmm with h | h <;> omega
    · rw [hpmm']
      rcases hpmm with h | h <;> omega

/-- **As many blocks as one likes**, while there are frames. -/
lemma exists_inZoneThree (m : Bytes) (n : ℕ) (hn : n + 2 < 2 ^ 40) :
    ∃ h live H, HeapRun countingSupply m 1 h live ∧ InZoneThree h live H ∧ live.length = n + 1 ∧
      0 < h.pmm ∧ h.pmm ≤ n + 2 := by
  induction n with
  | zero =>
    have i := zoneInit_inv (P := countingSupply) (h := bootHeap m 1) rfl
    have hpmm : (zoneInit (bootHeap m 1)).pmm = 1 := zoneInit_pmm _
    obtain ⟨h, live, H, hrun, f, hlen, hpos, hle⟩ := InZoneThree.alloc .boot
      (kalloc_first rfl (by decide)) ⟨i, placed_nil, by simp⟩ (by omega) (by omega)
    exact ⟨h, live, H, hrun, f, hlen, hpos, by omega⟩
  | succ n ih =>
    obtain ⟨h, live, H, hrun, f, hlen, hpos, hle⟩ := ih (by omega)
    obtain ⟨h', live', H', hrun', f', hlen', hpos', hle'⟩ := InZoneThree.alloc hrun rfl f hpos (by omega)
    exact ⟨h', live', H', hrun', f', by omega, hpos', by omega⟩

/-- **All blocks come back**, and the free list grows by as many. -/
lemma InZoneThree.drain (hrun : HeapRun countingSupply m 1 h live) (f : InZoneThree h live H)
    {L : List ℕ} (hL : FreeList h.mem (h.zones 3) H 3 L) :
    ∃ h' H' L', HeapRun countingSupply m 1 h' [] ∧ FreeList h'.mem (h'.zones 3) H' 3 L' ∧
      L.length + live.length ≤ L'.length := by
  induction live generalizing h H L with
  | nil => exact ⟨h, H, L, hrun, hL, le_rfl⟩
  | cons b rest ih =>
    have hb : b ∈ b :: rest := List.mem_cons_self
    have hlo := (f.placed.holds b hb).1
    obtain ⟨i', hpush⟩ := f.inv.kfree_element (f.element b hb)
    have hL' := hpush L hL
    have hsame : ∀ x ≠ b.addr - 64, Function.update H (b.addr - 64) (some (.free 3)) x = H x :=
      fun x hx => Function.update_of_ne hx _ _
    have hp := f.placed.erase hb hsame
    have hrun' := HeapRun.free b hrun hb
    have helem : ∀ c ∈ (b :: rest).erase b,
        Function.update H (b.addr - 64) (some (.free 3)) (c.addr - 64) = some (.element 3 1) := by
      intro c hc
      rw [Function.update_of_ne (f.placed.ne_of_mem_erase hb hc)]
      exact f.element c (List.mem_of_mem_erase hc)
    rw [Nat.sub_add_cancel hlo] at i' hL'
    rw [List.erase_cons_head] at hrun' hp helem
    obtain ⟨h', H'', L', hrun'', hL'', hlen⟩ := ih hrun' ⟨i', hp, helem⟩ hL'
    refine ⟨h', H'', L', hrun'', hL'', ?_⟩
    rw [List.length_cons] at hlen ⊢
    omega

end wrap

/-- **The counter of free elements wraps**: it is not the length of the free list in every run. -/
theorem freeCount_wraps : ¬ ∀ (σ : Type) (P : FrameSupply σ) m t h live, HeapRun P m t h live → ∀ z < kallocZoneCount,
      ∃ L, Chain (nextOf h.mem) (ptr (h.zones z).freeList) L ∧ (h.zones z).freeCount = L.length := by
  intro hall
  obtain ⟨h, live, H, hrun, f, hlen, -⟩ := exists_inZoneThree (fun _ => 0) (2 ^ 32) (by decide)
  obtain ⟨L, hL⟩ := f.inv.lists 3 (by decide)
  obtain ⟨h', H', L', hrun', hL', hle⟩ := f.drain hrun hL
  obtain ⟨L'', hchain, hcount⟩ := hall ℕ countingSupply _ _ h' [] hrun' 3 (by decide)
  rw [hchain.unique hL'.chain, hL'.count] at hcount
  have hmod := Nat.mod_lt L'.length (by decide : 0 < 2 ^ 32)
  omega

end Chimera
