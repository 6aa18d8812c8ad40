import Mathlib.Order.Interval.Set.Basic
import Mathlib.Data.Nat.Notation
import Mathlib.Data.Set.BooleanAlgebra
import Mathlib.Order.CompletePartialOrder
import Mathlib.Tactic.Ring

/-!
# Blocks in a ring that are not split at its end

A ring of `N` slots from which blocks of consecutive slots are taken. A block that would reach
the end of the ring is taken from the start instead, and the slots before the end are left over.
The sizes of the blocks taken so far are kept in a list, newest first.

A window of `B` consecutive blocks is free of overlaps whenever no block has more than `L` slots
and `(B + 1) * L ≤ N`: one block's worth of slots is lost at the end of the ring, and one more
because the block that wraps may itself be of full size. The bound is sharp.
-/

namespace BumpRing

/-- The first slot of a block of `n` slots when the counter stands at `next`. -/
def reserve (N next n : ℕ) : ℕ := if next + n < N then next else 0

/-- The counter behind the blocks taken so far. -/
def next (N : ℕ) : List ℕ → ℕ
  | [] => 0
  | n :: past => (reserve N (next N past) n + n) % N

/-- The first slot of a block of `n` slots. -/
def start (N : ℕ) (past : List ℕ) (n : ℕ) : ℕ := reserve N (next N past) n

/-- The slots of a block of `n` slots. -/
def block (N : ℕ) (past : List ℕ) (n : ℕ) : Set ℕ :=
  Set.Ico (start N past n) (start N past n + n)

variable {N L B n m : ℕ} {past mid : List ℕ}

theorem start_of_lt (h : next N past + n < N) : start N past n = next N past := if_pos h

theorem start_of_le (h : N ≤ next N past + n) : start N past n = 0 := if_neg (Nat.not_lt.mpr h)

theorem start_add_lt (h : n < N) : start N past n + n < N := by
  rcases Nat.lt_or_ge (next N past + n) N with hlt | hge
  · rwa [start_of_lt hlt]
  · rwa [start_of_le hge, Nat.zero_add]

/-- A block is not split at the end of the ring. -/
theorem start_add_le (h : n ≤ N) : start N past n + n ≤ N := by
  rcases Nat.lt_or_ge (next N past + n) N with hlt | hge
  · rw [start_of_lt hlt]
    exact hlt.le
  · rwa [start_of_le hge, Nat.zero_add]

/-- A block that is smaller than the ring leaves the counter right behind it. -/
theorem next_cons_of_lt (h : n < N) : next N (n :: past) = start N past n + n :=
  Nat.mod_eq_of_lt (start_add_lt h)

/-- What the counter can be once the blocks `mid` were taken behind a block of `n` slots: it has
not passed the end of the ring, or it has and the blocks in between account for almost the whole
ring. -/
theorem next_append (past : List ℕ) (hN : L < N) (hn : n ≤ L) (hmid : ∀ m ∈ mid, m ≤ L) :
    (start N past n + n ≤ next N (mid ++ n :: past) ∧
        next N (mid ++ n :: past) ≤ start N past n + n + mid.length * L) ∨
      next N (mid ++ n :: past) + N ≤ start N past n + n + (mid.length + 1) * L := by
  induction mid with
  | nil => exact .inl (by simp [next_cons_of_lt (hn.trans_lt hN)])
  | cons m mid ih =>
    have hm : m ≤ L := hmid m List.mem_cons_self
    have ih := ih fun m' hm' => hmid m' (List.mem_cons_of_mem _ hm')
    have h₁ : (mid.length + 1) * L = mid.length * L + L := by ring
    have h₂ : (mid.length + 1 + 1) * L = mid.length * L + L + L := by ring
    rw [List.cons_append, List.length_cons, next_cons_of_lt (hm.trans_lt hN), h₂, h₁]
    rw [h₁] at ih
    rcases Nat.lt_or_ge (next N (mid ++ n :: past) + m) N with hlt | hge
    · rw [start_of_lt hlt]
      omega
    · -- the wrap: the block itself now stands at the start of the ring
      rw [start_of_le hge]
      omega

/-- **Blocks of a window do not overlap** when no block is longer than `L` slots and the ring has
room for `B + 1` such blocks. -/
theorem disjoint_of_le (hN : (B + 1) * L ≤ N) (hpos : 0 < N) (hn : n ≤ L) (hm : m ≤ L)
    (hmid : ∀ m' ∈ mid, m' ≤ L) (hB : mid.length + 1 < B) :
    Disjoint (block N past n) (block N (mid ++ n :: past) m) := by
  have hlen : (mid.length + 1 + 1) * L ≤ B * L := Nat.mul_le_mul_right L hB
  have h₁ : (B + 1) * L = B * L + L := by ring
  have h₂ : (mid.length + 1 + 1) * L = mid.length * L + L + L := by ring
  have h₃ : (mid.length + 1) * L = mid.length * L + L := by ring
  have hLN : L < N := by omega
  have hnext := next_append past hLN hn hmid
  have hapart : start N past n + n ≤ start N (mid ++ n :: past) m ∨
      start N (mid ++ n :: past) m + m ≤ start N past n := by
    rcases Nat.lt_or_ge (next N (mid ++ n :: past) + m) N with hlt | hge
    · rw [start_of_lt hlt]
      omega
    · rw [start_of_le hge]
      omega
  rw [Set.disjoint_left]
  rintro x ⟨hx₁, hx₂⟩ ⟨hy₁, hy₂⟩
  omega

/-! ## Sharpness -/

/-- Until the first wrap the counter is the number of slots taken. -/
theorem next_eq_sum (h : past.sum < N) : next N past = past.sum := by
  induction past with
  | nil => rfl
  | cons n past ih =>
    rw [List.sum_cons] at h
    have hpast := ih (by omega)
    have hlt : next N past + n < N := by omega
    rw [next, reserve, if_pos hlt, Nat.mod_eq_of_lt hlt, List.sum_cons, hpast, Nat.add_comm]

/-- The block that no longer fits goes to the start of the ring. -/
theorem start_eq_zero (h : past.sum < N) (hn : N ≤ past.sum + n) : start N past n = 0 :=
  start_of_le (by rwa [next_eq_sum h])

theorem start_eq_sum (h : past.sum + n < N) : start N past n = past.sum := by
  rw [start_of_lt (by rwa [next_eq_sum (by omega)]), next_eq_sum (by omega)]

/-- **The bound is sharp**: with less room some blocks of at most `L` slots overlap. -/
theorem exists_overlap (hB : 2 ≤ B) (hL : 0 < L) (hroom : B * L ≤ N) (hN : N < (B + 1) * L) :
    ∃ past n mid m, (∀ x ∈ m :: (mid ++ n :: past), 1 ≤ x ∧ x ≤ L) ∧ mid.length + 1 < B ∧
      ¬ Disjoint (block N past n) (block N (mid ++ n :: past) m) := by
  have h2L : 2 * L ≤ N := (Nat.mul_le_mul_right L hB).trans hroom
  have hsucc : (B + 1) * L = B * L + L := by ring
  rcases Nat.lt_or_ge 1 L with hlong | hone
  · -- one block of `L - 1` slots, then blocks of `L` slots until one wraps and meets the second
    obtain ⟨B', rfl⟩ : ∃ B', B = B' + 2 := ⟨B - 2, by omega⟩
    have hsum : (List.replicate B' L ++ L :: [L - 1]).sum = (B' + 2) * L - 1 := by
      have hmul : (B' + 2) * L = B' * L + L + L := by ring
      simp only [List.sum_append, List.sum_replicate_nat, List.sum_cons, List.sum_nil]
      omega
    refine ⟨[L - 1], L, List.replicate B' L, L, ?_, by simp, ?_⟩
    · intro x hx
      simp only [List.mem_cons, List.mem_append, List.mem_replicate, List.not_mem_nil,
        or_false] at hx
      rcases hx with rfl | ⟨-, rfl⟩ | rfl | rfl <;> omega
    · have h₁ : start N [L - 1] L = L - 1 := by
        rw [start_eq_sum] <;> simp
        omega
      have h₂ : start N (List.replicate B' L ++ L :: [L - 1]) L = 0 :=
        start_eq_zero (by omega) (by omega)
      refine Set.not_disjoint_iff.mpr ⟨L - 1, ?_, ?_⟩
      · simp only [block, Set.mem_Ico, h₁]
        omega
      · simp only [block, Set.mem_Ico, h₂]
        omega
  · obtain rfl : L = 1 := by omega
    obtain ⟨B', rfl⟩ : ∃ B', B = B' + 2 := ⟨B - 2, by omega⟩
    have hsum : (List.replicate B' 1 ++ 1 :: ([] : List ℕ)).sum = B' + 1 := by simp
    refine ⟨[], 1, List.replicate B' 1, 1, ?_, by simp, ?_⟩
    · intro x hx
      simp only [List.mem_cons, List.mem_append, List.mem_replicate, List.not_mem_nil,
        or_false] at hx
      rcases hx with rfl | ⟨-, rfl⟩ | rfl <;> omega
    · have h₁ : start N [] 1 = 0 := by
        rw [start_eq_sum] <;> simp
        omega
      have h₂ : start N (List.replicate B' 1 ++ 1 :: []) 1 = 0 :=
        start_eq_zero (by omega) (by omega)
      exact Set.not_disjoint_iff.mpr ⟨0, by simp [block, h₁], by simp [block, h₂]⟩

end BumpRing
