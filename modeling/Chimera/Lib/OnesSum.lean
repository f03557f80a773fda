import Mathlib

/-!
# Ones' complement sums

A sum of 16-bit words is folded by adding its carries back in. Two rounds are enough for a sum below `2 ^ 32`.
The complement of the folded sum makes the sum fold to all ones (`fold16_complement`), which is what a checksum
relies on.
-/

namespace Lib

/-- One round: the carries are added back. -/
def carry16 (x : ℕ) : ℕ := x % 65536 + x / 65536

/-- A 32-bit sum folded to 16 bits. -/
def fold16 (x : ℕ) : ℕ := carry16 (carry16 x)

variable {x : ℕ}

lemma carry16_of_lt (h : x < 65536) : carry16 x = x := by
  rw [carry16, Nat.mod_eq_of_lt h, Nat.div_eq_of_lt h, Nat.add_zero]

lemma fold16_lt (h : x < 2 ^ 32) : fold16 x < 65536 := by
  unfold fold16 carry16
  omega

/-- Folding removes a multiple of `65535`. -/
lemma fold16_add_mul (h : x < 2 ^ 32) : ∃ k ≤ 65536, x = fold16 x + 65535 * k := by
  refine ⟨x / 65536 + carry16 x / 65536, ?_, ?_⟩
  · unfold carry16
    omega
  · unfold fold16 carry16
    omega

/-- **A sum and the complement of its folding** fold to all ones. -/
lemma fold16_complement (hx : x < 2 ^ 32) : fold16 (x + (65535 - fold16 x)) = 65535 := by
  obtain ⟨k, hk, heq⟩ := fold16_add_mul hx
  have hlt := fold16_lt hx
  have hsum : x + (65535 - fold16 x) = 65535 * (k + 1) := by omega
  rw [hsum]
  obtain rfl | hk := Nat.eq_or_lt_of_le hk
  · rfl
  · have hcarry : carry16 (65535 * (k + 1)) = 65535 := by
      unfold carry16
      omega
    rw [fold16, hcarry, carry16_of_lt (by decide)]

end Lib
