import Mathlib.Algebra.Order.Ring.Nat
import Mathlib.Tactic.Ring

/-!
# Numbers written most significant digit first

A text of fixed width shows a number to some base with its most significant digit first. Digits
above the width are dropped.
-/

namespace Digits

variable {b w : ℕ}

/-- The `w` least significant digits of `n` to the base `b`, the most significant first. -/
def ofNat (b w n : ℕ) : List ℕ := (List.range w).map fun i => n / b ^ (w - 1 - i) % b

/-- The number with the given digits. -/
def toNat (b : ℕ) (l : List ℕ) : ℕ := l.foldl (fun n d => b * n + d) 0

@[simp] theorem length_ofNat (b w n : ℕ) : (ofNat b w n).length = w := by
  simp [ofNat]

theorem ofNat_succ (b w n : ℕ) : ofNat b (w + 1) n = n / b ^ w % b :: ofNat b w n := by
  simp only [ofNat, List.range_succ_eq_map, List.map_cons, List.map_map]
  congr 1
  refine List.map_congr_left fun i hi => ?_
  have hlt := List.mem_range.1 hi
  simp only [Function.comp_apply]
  congr 3
  omega

theorem lt_of_mem_ofNat (hb : 0 < b) {n d : ℕ} (h : d ∈ ofNat b w n) : d < b := by
  obtain ⟨i, -, rfl⟩ := List.mem_map.1 h
  exact Nat.mod_lt _ hb

theorem foldl_eq (b n : ℕ) (l : List ℕ) :
    l.foldl (fun n d => b * n + d) n = b ^ l.length * n + toNat b l := by
  induction l generalizing n with
  | nil => simp [toNat]
  | cons d l ih =>
    rw [toNat, List.foldl_cons, List.foldl_cons, ih, ih (b * 0 + d), List.length_cons, pow_succ]
    ring

@[simp] theorem toNat_nil (b : ℕ) : toNat b [] = 0 := rfl

theorem toNat_cons (b d : ℕ) (l : List ℕ) : toNat b (d :: l) = b ^ l.length * d + toNat b l := by
  rw [toNat, List.foldl_cons, foldl_eq, Nat.mul_zero, Nat.zero_add]

theorem toNat_append (b : ℕ) (l l' : List ℕ) :
    toNat b (l ++ l') = b ^ l'.length * toNat b l + toNat b l' := by
  rw [toNat, List.foldl_append, foldl_eq]
  rfl

/-- What is written is read back, without the digits that were dropped. -/
theorem toNat_ofNat (b w n : ℕ) : toNat b (ofNat b w n) = n % b ^ w := by
  induction w with
  | zero => simp [ofNat, Nat.mod_one]
  | succ w ih =>
    rw [ofNat_succ, toNat_cons, ih, length_ofNat, pow_succ, Nat.mod_mul, Nat.add_comm]

/-- Numbers that are written one behind the other are digits to the base `b ^ w`. -/
theorem toNat_flatMap {l : List ℕ} (h : ∀ n ∈ l, n < b ^ w) :
    toNat b (l.flatMap (ofNat b w)) = toNat (b ^ w) l := by
  induction l with
  | nil => rfl
  | cons n l ih =>
    have hlen : (l.flatMap (ofNat b w)).length = w * l.length := by
      simp [List.length_flatMap, List.map_const', Nat.mul_comm]
    rw [List.flatMap_cons, toNat_append, ih fun m hm => h m (List.mem_cons_of_mem _ hm),
      toNat_ofNat, Nat.mod_eq_of_lt (h n List.mem_cons_self), hlen, toNat_cons, ← pow_mul]

end Digits
