import Mathlib.Algebra.Order.Ring.Nat

/-!
# Mixed-radix indices in machine arithmetic

An array of blocks of equal size is indexed by a block number and a position in the block. Nested
blocks give mixed-radix indices. An index is computed in 64-bit arithmetic; since that arithmetic
is a quotient of the natural numbers, only the final value has to fit.
-/

namespace MixedRadix

variable {a b c d m n : ℕ}

/-- Position `b` of block `a` among `m` blocks of size `n`. -/
theorem index_lt (ha : a < m) (hb : b < n) : a * n + b < m * n := by
  have h : (a + 1) * n ≤ m * n := Nat.mul_le_mul_right n ha
  rw [Nat.add_mul, Nat.one_mul] at h
  omega

/-- The block number of an index. -/
theorem index_div (hb : b < n) : (a * n + b) / n = a := by
  rw [Nat.mul_comm, Nat.mul_add_div (Nat.zero_lt_of_lt hb), Nat.div_eq_of_lt hb, Nat.add_zero]

/-- The position of an index in its block. -/
theorem index_mod (hb : b < n) : (a * n + b) % n = b := Nat.mul_add_mod_of_lt hb

/-- An index determines the block number and the position. -/
theorem index_inj (hb : b < n) (hd : d < n) (h : a * n + b = c * n + d) : a = c ∧ b = d := by
  have hdiv := congrArg (· / n) h
  have hmod := congrArg (· % n) h
  simp only [index_div hb, index_div hd] at hdiv
  simp only [index_mod hb, index_mod hd] at hmod
  exact ⟨hdiv, hmod⟩

theorem toNat_of_eq_ofNat {x : UInt64} (h : x = UInt64.ofNat n) (hn : n < 2 ^ 64) :
    x.toNat = n := by
  rw [h, UInt64.toNat_ofNat_of_lt' hn]

/-- A small unsigned number is the same as a signed one. -/
theorem toInt_toInt32 {x : UInt32} (h : x.toNat < 2 ^ 31) : x.toInt32.toInt = x.toNat := by
  rw [← Int32.toInt_toBitVec, UInt32.toBitVec_toInt32, BitVec.toInt_eq_toNat_of_lt]
  · rfl
  · have hlt : 2 * x.toNat < 2 ^ 32 := by omega
    exact hlt

end MixedRadix
