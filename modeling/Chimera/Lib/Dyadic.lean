import Mathlib

/-!
# Buddy tilings

A *block* `blk p k` is the run of `2 ^ k` numbers that starts at `p`; it is aligned when
`2 ^ k ∣ p`. The *buddy* of an aligned block is the other half of the aligned block twice as
long, and its start is `p ^^^ 2 ^ k`.

`BuddyTiling M F B` says that the blocks `B`, all of order at most `M`, tile the set `F` and that
no two of them are buddies. Two facts carry an allocator built on such a tiling: inserting a
block whose buddy is absent and erasing a block keep it (`BuddyTiling.insert`,
`BuddyTiling.erase`), and every aligned block inside `F` lies in one block of the tiling
(`BuddyTiling.complete`), so nothing that is free is out of reach.
-/

namespace Lib

/-- The `2 ^ k` numbers from `p` on. -/
def blk (p k : ℕ) : Set ℕ := Set.Ico p (p + 2 ^ k)

variable {k p x j q : ℕ}

@[simp] lemma mem_blk : x ∈ blk p k ↔ p ≤ x ∧ x < p + 2 ^ k := Iff.rfl

instance (p k x : ℕ) : Decidable (x ∈ blk p k) := decidable_of_iff _ mem_blk.symm

lemma start_mem_blk (p k : ℕ) : p ∈ blk p k := ⟨le_rfl, Nat.lt_add_of_pos_right (Nat.two_pow_pos k)⟩

@[simp] lemma blk_zero (p : ℕ) : blk p 0 = {p} := by
  ext x
  simp only [mem_blk, Set.mem_singleton_iff]
  omega

/-- A block is its lower half and its upper half. -/
lemma blk_succ (p k : ℕ) : blk p (k + 1) = blk p k ∪ blk (p + 2 ^ k) k := by
  ext x
  simp only [mem_blk, Set.mem_union, pow_succ]
  omega

/-- A block that starts where the other ends, or later, does not meet it. -/
lemma blk_disjoint (h : p + 2 ^ j ≤ q) : Disjoint (blk p j) (blk q k) := by
  rw [Set.disjoint_left]
  intro x hx hx'
  simp only [mem_blk] at hx hx'
  omega

/-- Aligned blocks are nested or disjoint: a shorter one that meets a longer one lies in it. -/
lemma blk_subset_of_mem (hp : 2 ^ j ∣ p) (hq : 2 ^ k ∣ q) (hjk : j ≤ k)
    (hxp : x ∈ blk p j) (hxq : x ∈ blk q k) : blk p j ⊆ blk q k := by
  obtain ⟨b, rfl⟩ := hp
  obtain ⟨a, rfl⟩ := hq
  obtain ⟨c, rfl⟩ := Nat.exists_eq_add_of_le hjk
  simp only [mem_blk, pow_add] at hxp hxq
  have hpos : 0 < 2 ^ j := Nat.two_pow_pos j
  have hlo : 2 ^ c * a ≤ b := by
    have h : 2 ^ j * (2 ^ c * a) < 2 ^ j * (b + 1) := by nlinarith
    exact Nat.lt_succ_iff.mp (Nat.lt_of_mul_lt_mul_left h)
  have hhi : b + 1 ≤ 2 ^ c * a + 2 ^ c := by
    have h : 2 ^ j * b < 2 ^ j * (2 ^ c * a + 2 ^ c) := by nlinarith
    exact Nat.lt_of_mul_lt_mul_left h
  intro y hy
  simp only [mem_blk, pow_add] at hy ⊢
  constructor
  · nlinarith [Nat.mul_le_mul_left (2 ^ j) hlo]
  · nlinarith [Nat.mul_le_mul_left (2 ^ j) hhi]

/-- Two aligned blocks of one order that meet are equal. -/
lemma eq_of_mem_blk (hp : 2 ^ k ∣ p) (hq : 2 ^ k ∣ q) (hxp : x ∈ blk p k) (hxq : x ∈ blk q k) : p = q := by
  have h1 := blk_subset_of_mem hp hq le_rfl hxp hxq (start_mem_blk p k)
  have h2 := blk_subset_of_mem hq hp le_rfl hxq hxp (start_mem_blk q k)
  simp only [mem_blk] at h1 h2
  omega

/-- The start of the buddy of the block `blk p k`. -/
def buddy (p k : ℕ) : ℕ := p ^^^ 2 ^ k

@[simp] lemma buddy_buddy (p k : ℕ) : buddy (buddy p k) k = p := by simp [buddy]

/-- **What a buddy is**: the block right after an even one, or right before an odd one. -/
lemma buddy_cases (hp : 2 ^ k ∣ p) : (buddy p k = p + 2 ^ k ∧ 2 ^ (k + 1) ∣ p) ∨
      (buddy p k + 2 ^ k = p ∧ 2 ^ (k + 1) ∣ buddy p k) := by
  obtain ⟨b, rfl⟩ := hp
  have hx : buddy (2 ^ k * b) k = 2 ^ k * (b ^^^ 1) := by
    unfold buddy
    have h := Nat.shiftLeft_xor_distrib (a := b) (b := 1) (i := k)
    simp only [Nat.shiftLeft_eq, one_mul] at h
    rw [mul_comm (2 ^ k) b, mul_comm (2 ^ k) (b ^^^ 1), h]
  rw [hx]
  rcases Nat.even_or_odd' b with ⟨c, rfl | rfl⟩
  · left
    rw [Nat.xor_one_of_even (even_two_mul c)]
    exact ⟨by ring, ⟨c, by ring⟩⟩
  · right
    rw [Nat.xor_one_of_odd (odd_two_mul_add_one c), Nat.add_sub_cancel]
    exact ⟨by ring, ⟨c, by ring⟩⟩

/-- The buddy of a lower half is the upper half. -/
lemma buddy_of_dvd (hp : 2 ^ (k + 1) ∣ p) : buddy p k = p + 2 ^ k := by
  have hpos : 0 < 2 ^ k := Nat.two_pow_pos k
  rcases buddy_cases ((pow_dvd_pow 2 (Nat.le_succ k)).trans hp) with ⟨hb, -⟩ | ⟨hb, hd⟩
  · exact hb
  · -- `p` and `p - 2 ^ k` cannot both be multiples of `2 ^ (k + 1)`
    have hsum : 2 ^ (k + 1) ∣ buddy p k + 2 ^ k := by rwa [hb]
    have hle := Nat.le_of_dvd hpos ((Nat.dvd_add_right hd).mp hsum)
    rw [pow_succ] at hle
    omega

/-- The buddy of an aligned block is aligned. -/
lemma dvd_buddy (hp : 2 ^ k ∣ p) : 2 ^ k ∣ buddy p k := by
  have hdvd : 2 ^ k ∣ 2 ^ (k + 1) := pow_dvd_pow 2 (Nat.le_succ k)
  rcases buddy_cases hp with ⟨hb, -⟩ | ⟨-, hb⟩
  · exact hb ▸ (Nat.dvd_add_right hp).mpr dvd_rfl
  · exact hdvd.trans hb

/-- The two halves make up the block of the next order, which starts at the lower one. -/
lemma mem_blk_merge (hp : 2 ^ k ∣ p) : x ∈ blk (min p (buddy p k)) (k + 1) ↔ x ∈ blk p k ∨ x ∈ blk (buddy p k) k := by
  simp only [mem_blk, pow_succ]
  rcases buddy_cases hp with ⟨hb, -⟩ | ⟨hb, -⟩ <;> omega

/-- Merging a block with its buddy, which leaves the tiled set for it, adds just the block. -/
lemma diff_union_blk_merge {F : Set ℕ} (hp : 2 ^ k ∣ p) (hF : blk (buddy p k) k ⊆ F) :
    F \ blk (buddy p k) k ∪ blk (min p (buddy p k)) (k + 1) = F ∪ blk p k := by
  ext x
  have hm := mem_blk_merge (x := x) hp
  constructor
  · rintro (⟨hx, -⟩ | hx)
    · exact .inl hx
    · rcases hm.mp hx with h | h
      · exact .inr h
      · exact .inl (hF h)
  · rintro (hx | hx)
    · by_cases hxb : x ∈ blk (buddy p k) k
      · exact .inr (hm.mpr (.inr hxb))
      · exact .inl ⟨hx, hxb⟩
    · exact .inr (hm.mpr (.inl hx))

/-- The merged block is aligned. -/
lemma dvd_min_buddy (hp : 2 ^ k ∣ p) : 2 ^ (k + 1) ∣ min p (buddy p k) := by
  have hpos : 0 < 2 ^ k := Nat.two_pow_pos k
  rcases buddy_cases hp with ⟨hb, hd⟩ | ⟨hb, hd⟩
  · rwa [min_eq_left (by omega)]
  · rwa [min_eq_right (by omega)]

/-- A block and its buddy do not meet. -/
lemma not_mem_buddy (hp : 2 ^ k ∣ p) (hx : x ∈ blk p k) : x ∉ blk (buddy p k) k := by
  simp only [mem_blk] at hx ⊢
  rcases buddy_cases hp with ⟨hb, -⟩ | ⟨hb, -⟩ <;> omega

/-! ## Tilings without buddies -/

/-- The blocks `B`, of order at most `M`, tile `F`, and no two of them are buddies that a
merge would join. -/
structure BuddyTiling (M : ℕ) (F : Set ℕ) (B : Set (ℕ × ℕ)) : Prop where
  order_le : ∀ {p k}, (p, k) ∈ B → k ≤ M
  aligned : ∀ {p k}, (p, k) ∈ B → 2 ^ k ∣ p
  sub : ∀ {p k}, (p, k) ∈ B → blk p k ⊆ F
  cover : ∀ {x}, x ∈ F → ∃ p k, (p, k) ∈ B ∧ x ∈ blk p k
  apart : ∀ {p k q j x}, (p, k) ∈ B → (q, j) ∈ B → x ∈ blk p k → x ∈ blk q j → p = q ∧ k = j
  merged : ∀ {p k}, (p, k) ∈ B → k < M → (buddy p k, k) ∉ B

namespace BuddyTiling

variable {M : ℕ} {F : Set ℕ} {B : Set (ℕ × ℕ)}

/-- Nothing is tiled by no block. -/
lemma empty (M : ℕ) : BuddyTiling M ∅ ∅ where
  order_le h := h.elim
  aligned h := h.elim
  sub h := h.elim
  cover h := h.elim
  apart h := h.elim
  merged h := h.elim

/-- **Completeness.** Every aligned block of tiled numbers, of order at most `M`, lies in one
block of the tiling: were it cut into smaller ones, two of them would be buddies. -/
theorem complete (T : BuddyTiling M F B) {o : ℕ} (ho : o ≤ M) (hp : 2 ^ o ∣ p)
    (hF : blk p o ⊆ F) : ∃ q k, (q, k) ∈ B ∧ o ≤ k ∧ blk p o ⊆ blk q k := by
  -- by induction on the order: both halves lie in blocks of the tiling
  induction o generalizing p with
  | zero =>
    obtain ⟨q, k, hqk, hx⟩ := T.cover (hF (start_mem_blk p 0))
    exact ⟨q, k, hqk, Nat.zero_le k, blk_subset_of_mem hp (T.aligned hqk) (Nat.zero_le k) (start_mem_blk p 0) hx⟩
  | succ o ih =>
    have hpo : 2 ^ o ∣ p := (pow_dvd_pow 2 (Nat.le_succ o)).trans hp
    have hhalf : ∀ x, x ∈ blk p (o + 1) ↔ x ∈ blk p o ∨ x ∈ blk (buddy p o) o := by
      intro x
      rw [buddy_of_dvd hp, blk_succ, Set.mem_union]
    obtain ⟨q1, k1, hq1, hk1, hs1⟩ := ih (Nat.le_of_succ_le ho) hpo fun x hx => hF ((hhalf x).mpr (.inl hx))
    obtain ⟨q2, k2, hq2, hk2, hs2⟩ :=
      ih (Nat.le_of_succ_le ho) (dvd_buddy hpo) fun x hx => hF ((hhalf x).mpr (.inr hx))
    have hin1 := hs1 (start_mem_blk p o)
    have hin2 := hs2 (start_mem_blk (buddy p o) o)
    have hb : buddy p o ∈ blk p (o + 1) := (hhalf _).mpr (.inr (start_mem_blk _ o))
    rcases Nat.lt_or_eq_of_le hk1 with hlt1 | heq1
    · exact ⟨q1, k1, hq1, hlt1, blk_subset_of_mem hp (T.aligned hq1) hlt1 (start_mem_blk p _) hin1⟩
    rcases Nat.lt_or_eq_of_le hk2 with hlt2 | heq2
    · exact ⟨q2, k2, hq2, hlt2, blk_subset_of_mem hp (T.aligned hq2) hlt2 hb hin2⟩
    -- both halves are blocks of the tiling: they are buddies
    subst heq1 heq2
    have he1 := eq_of_mem_blk hpo (T.aligned hq1) (start_mem_blk p _) hin1
    have he2 := eq_of_mem_blk (dvd_buddy hpo) (T.aligned hq2) (start_mem_blk _ _) hin2
    subst he1 he2
    exact absurd hq2 (T.merged hq1 ho)

/-- **Inserting** a block that meets nothing tiled and whose buddy is not a block. -/
lemma insert (T : BuddyTiling M F B) (hk : k ≤ M) (hp : 2 ^ k ∣ p)
    (hfresh : ∀ x ∈ blk p k, x ∉ F) (hbuddy : k < M → (buddy p k, k) ∉ B) :
    BuddyTiling M (F ∪ blk p k) (Insert.insert (p, k) B) where
  order_le := by
    rintro q j (h | h)
    · cases h
      exact hk
    · exact T.order_le h
  aligned := by
    rintro q j (h | h)
    · cases h
      exact hp
    · exact T.aligned h
  sub := by
    rintro q j (h | h) x hx
    · cases h
      exact .inr hx
    · exact .inl (T.sub h hx)
  cover := by
    rintro x (hx | hx)
    · obtain ⟨q, j, hqj, hxq⟩ := T.cover hx
      exact ⟨q, j, .inr hqj, hxq⟩
    · exact ⟨p, k, .inl rfl, hx⟩
  apart := by
    rintro q j r i x (h1 | h1) (h2 | h2) hx1 hx2
    · cases h1
      cases h2
      exact ⟨rfl, rfl⟩
    · cases h1
      exact absurd (T.sub h2 hx2) (hfresh x hx1)
    · cases h2
      exact absurd (T.sub h1 hx1) (hfresh x hx2)
    · exact T.apart h1 h2 hx1 hx2
  merged := by
    rintro q j (h1 | h1) hj (h2 | h2)
    · obtain ⟨rfl, rfl⟩ := Prod.mk.inj h1
      have heq : buddy q j = q := (Prod.mk.inj h2).1
      have hself := not_mem_buddy hp (start_mem_blk q j)
      rw [heq] at hself
      exact hself (start_mem_blk q j)
    · cases h1
      exact hbuddy hj h2
    · obtain ⟨hq, rfl⟩ := Prod.mk.inj h2
      rw [← hq, buddy_buddy] at hbuddy
      exact hbuddy hj h1
    · exact T.merged h1 hj h2

/-- **Erasing** a block leaves its numbers untiled. -/
lemma erase (T : BuddyTiling M F B) (hpk : (p, k) ∈ B) : BuddyTiling M (F \ blk p k) (B \ {(p, k)}) where
  order_le h := T.order_le h.1
  aligned h := T.aligned h.1
  sub := by
    rintro q j ⟨h, hne⟩ x hx
    refine ⟨T.sub h hx, fun hxp => hne ?_⟩
    obtain ⟨rfl, rfl⟩ := T.apart h hpk hx hxp
    rfl
  cover := by
    rintro x ⟨hx, hxp⟩
    obtain ⟨q, j, hqj, hxq⟩ := T.cover hx
    refine ⟨q, j, ⟨hqj, fun h => hxp ?_⟩, hxq⟩
    cases h
    exact hxq
  apart h1 h2 hx1 hx2 := T.apart h1.1 h2.1 hx1 hx2
  merged h hk h' := T.merged h.1 hk h'.1

open Classical in
/-- **The size of a tiled set** is the sum of the sizes of its blocks. -/
theorem ncard_eq (T : BuddyTiling M F B) {S : Finset (ℕ × ℕ)} (hS : ∀ b, b ∈ S ↔ b ∈ B) :
    F.ncard = ∑ b ∈ S, 2 ^ b.2 := by
  have hF : F = ↑(S.biUnion fun b => Finset.Ico b.1 (b.1 + 2 ^ b.2)) := by
    ext x
    simp only [Finset.coe_biUnion, Finset.mem_coe, Set.mem_iUnion, Finset.coe_Ico, exists_prop]
    constructor
    · intro hx
      obtain ⟨p, k, hpk, hxb⟩ := T.cover hx
      exact ⟨(p, k), (hS _).mpr hpk, hxb⟩
    · rintro ⟨⟨p, k⟩, hpk, hxb⟩
      exact T.sub ((hS _).mp hpk) hxb
  rw [hF, Set.ncard_coe_finset, Finset.card_biUnion]
  · refine Finset.sum_congr rfl fun b _ => ?_
    rw [Nat.card_Ico, Nat.add_sub_cancel_left]
  · rintro ⟨p, k⟩ hb ⟨q, j⟩ hb' hne
    rw [Function.onFun, Finset.disjoint_left]
    intro x hx hx'
    have hxp : x ∈ blk p k := Finset.mem_Ico.mp hx
    have hxq : x ∈ blk q j := Finset.mem_Ico.mp hx'
    obtain ⟨rfl, rfl⟩ := T.apart ((hS _).mp hb) ((hS _).mp hb') hxp hxq
    exact hne rfl

end BuddyTiling

end Lib
