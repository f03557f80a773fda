import Mathlib.Tactic

/-!
# Byte-addressed memory

A memory gives a byte for every address. Numbers are kept in it with their lowest byte first:
`readLE m a n` is the number in the `n` bytes at `a`, and `writeLE m a n x` stores one there. A read
sees the last write at its place (`readLE_writeLE`) and nothing of what happens elsewhere
(`readLE_congr`).
-/

namespace Lib

/-- A byte for every address. -/
abbrev Bytes := ℕ → BitVec 8

/-- The number in the `n` bytes at `a`. -/
def readLE (m : Bytes) (a : ℕ) : ℕ → ℕ
  | 0 => 0
  | n + 1 => readLE m a n + (m (a + n)).toNat * 256 ^ n

/-- Store the lowest `n` bytes of a number at `a`. -/
def writeLE (m : Bytes) (a n x : ℕ) : Bytes := fun b =>
  if a ≤ b ∧ b < a + n then BitVec.ofNat 8 (x / 256 ^ (b - a)) else m b

/-- Set the `n` bytes at `a` to `c`. -/
def fill (m : Bytes) (a n : ℕ) (c : BitVec 8) : Bytes := fun b =>
  if a ≤ b ∧ b < a + n then c else m b

/-- Put the first `n` bytes of a buffer at `a`. -/
def overlay (m : Bytes) (a n : ℕ) (buf : Bytes) : Bytes := fun b =>
  if a ≤ b ∧ b < a + n then buf (b - a) else m b

/-- The `n` bytes at `a`. -/
def bytesAt (m : Bytes) (a n : ℕ) : List (BitVec 8) := (List.range n).map fun i => m (a + i)

/-- Put a list of bytes at `a`. -/
def putBytes (m : Bytes) (a : ℕ) (data : List (BitVec 8)) : Bytes := fun b =>
  if a ≤ b ∧ b < a + data.length then data.getD (b - a) 0 else m b

variable {m m' : Bytes} {a n x : ℕ} {b k off : ℕ} {c : BitVec 8} {buf : Bytes}

lemma writeLE_of_outside (h : ¬ (a ≤ b ∧ b < a + n)) : writeLE m a n x b = m b := if_neg h

lemma fill_of_inside (h : a ≤ b ∧ b < a + n) : fill m a n c b = c := if_pos h

lemma fill_of_outside (h : ¬ (a ≤ b ∧ b < a + n)) : fill m a n c b = m b := if_neg h

lemma overlay_of_inside (h : a ≤ b ∧ b < a + n) : overlay m a n buf b = buf (b - a) := if_pos h

lemma overlay_of_outside (h : ¬ (a ≤ b ∧ b < a + n)) : overlay m a n buf b = m b := if_neg h

/-- A block that is read, changed and stored again is changed in place. -/
lemma overlay_eq (hin : ∀ i < n, buf i = m' (a + i))
    (hout : ∀ b, ¬ (a ≤ b ∧ b < a + n) → m' b = m b) : overlay m a n buf = m' := by
  funext b
  by_cases h : a ≤ b ∧ b < a + n
  · rw [overlay_of_inside h, hin _ (by omega), Nat.add_sub_cancel' h.1]
  · rw [overlay_of_outside h, hout b h]

lemma overlay_writeLE (h : off + k ≤ n) :
    overlay m a n (writeLE (fun i => m (a + i)) off k x) = writeLE m (a + off) k x := by
  apply overlay_eq
  · intro i _
    by_cases hi : off ≤ i ∧ i < off + k
    · rw [writeLE, writeLE, if_pos hi, if_pos (by omega), Nat.add_sub_add_left]
    · rw [writeLE_of_outside hi, writeLE_of_outside (by omega)]
  · intro b hb
    exact writeLE_of_outside (by omega)

/-- **Frame.** A read depends on its own bytes only. -/
lemma readLE_congr (h : ∀ i < n, m' (a + i) = m (a + i)) : readLE m' a n = readLE m a n := by
  induction n with
  | zero => rfl
  | succ n ih => rw [readLE, readLE, ih fun i hi => h i (by omega), h n (by omega)]

/-- A read from a part of a memory. -/
lemma readLE_shift : readLE (fun b => m (a + b)) off n = readLE m (a + off) n := by
  induction n with
  | zero => rfl
  | succ n ih => rw [readLE, readLE, ih, Nat.add_assoc]

/-- **A read sees the last write.** -/
lemma readLE_writeLE : readLE (writeLE m a n x) a n = x % 256 ^ n := by
  have hprefix : ∀ k ≤ n, readLE (writeLE m a n x) a k = x % 256 ^ k := by
    intro k
    induction k with
    | zero =>
      intro _
      rw [readLE, pow_zero, Nat.mod_one]
    | succ k ih =>
      intro hk
      rw [readLE, ih (by omega), writeLE, if_pos (by omega), Nat.add_sub_cancel_left,
        BitVec.toNat_ofNat, Nat.mul_comm]
      exact Nat.mod_pow_succ.symm
  exact hprefix n le_rfl

lemma readLE_writeLE_of_disjoint (h : a + n ≤ b ∨ b + k ≤ a) : readLE (writeLE m a n x) b k = readLE m b k :=
  readLE_congr fun i hi => writeLE_of_outside (by omega)

lemma readLE_fill_of_disjoint (h : a + n ≤ b ∨ b + k ≤ a) : readLE (fill m a n c) b k = readLE m b k :=
  readLE_congr fun i hi => fill_of_outside (by omega)

/-- The lowest byte. -/
lemma readLE_mod : readLE m a (n + 1) % 256 = (m a).toNat := by
  induction n with
  | zero =>
    rw [readLE, readLE, pow_zero, Nat.mul_one, Nat.zero_add]
    exact Nat.mod_eq_of_lt (m a).isLt
  | succ n ih =>
    rw [readLE, pow_succ, ← Nat.mul_assoc, Nat.add_mul_mod_self_right]
    exact ih

/-- The highest byte. -/
lemma le_readLE : (m (a + n)).toNat * 256 ^ n ≤ readLE m a (n + 1) := Nat.le_add_left _ _

end Lib
