import Mathlib.Algebra.Group.Nat.Defs
import Mathlib.Order.Lattice
import Mathlib.Order.Nat
import Mathlib.Data.List.Basic
import Mathlib.Data.List.Pairwise

/-!
# The inversion search of the Zipf distribution

`ZipfDistribution::getSample` maps a uniform number `z` to a value by a binary search in the
cumulated probabilities: the value is one more than the first index whose cumulated probability
reaches `z`. The indexes are `int`s; an access outside the array and a sum that does not fit into
`int` have no result.
-/

namespace RdmaSnapshot

namespace ZipfDistribution

variable {α : Type*} [LinearOrder α]

def INT_MAX : ℕ := 2 ^ 31 - 1

/-- The loop of `ZipfDistribution::getSample`. `none` is an undefined behaviour: an overflow of
`int`, or an access outside `sum_probs`. -/
def searchLoop (sum_probs : List α) (z : α) (lowInd highInd : ℕ) : Option ℕ :=
  if lowInd < highInd then
    if highInd + lowInd ≤ INT_MAX then
      let middle := (highInd + lowInd) / 2
      match sum_probs[middle]? with
      | none => none
      | some p =>
        if z ≤ p then searchLoop sum_probs z lowInd middle
        else searchLoop sum_probs z (middle + 1) highInd
    else none
  else some highInd
termination_by highInd - lowInd

/-- The part of `ZipfDistribution::getSample` behind the draw of `z`. -/
def search (sum_probs : List α) (z : α) : Option ℕ :=
  (searchLoop sum_probs z 0 (sum_probs.length - 1)).map (· + 1)

variable {sum_probs : List α} {z : α} {lowInd highInd i : ℕ}

/-- What the loop knows about its interval: everything below it is smaller than `z`, and its upper
end reaches `z` or is the end of the array. -/
structure Bracket (sum_probs : List α) (z : α) (lowInd highInd : ℕ) : Prop where
  le : lowInd ≤ highInd
  lt : highInd < sum_probs.length
  below : ∀ j p, j < lowInd → sum_probs[j]? = some p → p < z
  reaches : highInd + 1 = sum_probs.length ∨ ∃ p, sum_probs[highInd]? = some p ∧ z ≤ p

/-- In a nondecreasing array, what is below the middle is not greater than the middle. -/
theorem le_of_getElem? (hsorted : sum_probs.Pairwise (· ≤ ·)) {j k : ℕ} {p q : α} (hjk : j ≤ k)
    (hj : sum_probs[j]? = some p) (hk : sum_probs[k]? = some q) : p ≤ q := by
  obtain ⟨hjlt, rfl⟩ := List.getElem?_eq_some_iff.1 hj
  obtain ⟨hklt, rfl⟩ := List.getElem?_eq_some_iff.1 hk
  rcases Nat.lt_or_eq_of_le hjk with hlt | rfl
  · exact List.pairwise_iff_getElem.1 hsorted j k hjlt hklt hlt
  · exact le_refl _

/-- The loop ends, and its interval has shrunk to one index. -/
theorem bracket_of_searchLoop (hsorted : sum_probs.Pairwise (· ≤ ·))
    (hint : 2 * sum_probs.length ≤ INT_MAX) (h : Bracket sum_probs z lowInd highInd) :
    ∃ i, searchLoop sum_probs z lowInd highInd = some i ∧ Bracket sum_probs z i i := by
  have hlt := h.lt
  fun_induction searchLoop sum_probs z lowInd highInd with
  | case1 lowInd highInd hlow hsum middle hnone =>
    -- the middle is inside the array
    have hlength := List.getElem?_eq_none_iff.1 hnone
    omega
  | case2 lowInd highInd hlow hsum middle p hp hreaches ih =>
    exact ih ⟨by omega, by omega, h.below, .inr ⟨p, hp, hreaches⟩⟩ (by omega)
  | case3 lowInd highInd hlow hsum middle p hp hsmall ih =>
    refine ih ⟨by omega, h.lt, fun j q hj hq => ?_, h.reaches⟩ h.lt
    have hle := le_of_getElem? hsorted (Nat.le_of_lt_succ hj) hq hp
    exact lt_of_le_of_lt hle (not_le.1 hsmall)
  | case4 lowInd highInd hlow hsum =>
    -- the sum of the indexes is an int
    omega
  | case5 lowInd highInd hend =>
    have heq : lowInd = highInd := Nat.le_antisymm h.le (Nat.le_of_not_lt hend)
    subst heq
    exact ⟨lowInd, rfl, h⟩

theorem Bracket.eq (h : Bracket sum_probs z i i) :
    i + 1 = if ∃ p ∈ sum_probs, z ≤ p then sum_probs.findIdx (fun p => decide (z ≤ p)) + 1
      else sum_probs.length := by
  have hfalse : ∀ j (hj : j < i),
      decide (z ≤ sum_probs.get ⟨j, by have := h.lt; omega⟩) = false := by
    intro j hj
    exact decide_eq_false (not_le.2 (h.below j _ hj (List.getElem?_eq_getElem _)))
  by_cases hreach : z ≤ sum_probs.get ⟨i, h.lt⟩
  · rw [if_pos ⟨_, List.get_mem _ _, hreach⟩]
    exact congrArg (· + 1) ((List.findIdx_eq h.lt).2 ⟨decide_eq_true hreach, hfalse⟩).symm
  · have hlast : i + 1 = sum_probs.length := by
      refine h.reaches.resolve_right ?_
      rintro ⟨p, hp, hle⟩
      obtain ⟨hlt, rfl⟩ := List.getElem?_eq_some_iff.1 hp
      exact hreach hle
    rw [if_neg, hlast]
    rintro ⟨p, hp, hle⟩
    obtain ⟨j, hj, rfl⟩ := List.mem_iff_getElem.1 hp
    rcases Nat.lt_or_ge j i with hji | hji
    · exact absurd hle (of_decide_eq_false (hfalse j hji))
    · obtain rfl : j = i := by omega
      exact hreach hle

/-- **The inversion search.** For every nonempty nondecreasing array whose doubled length is an
`int`, and every `z`, the search ends without an access outside the array. It yields one
more than the least index whose entry reaches `z`, and the length of the array if there is none. -/
theorem search_eq (sum_probs : List α) (z : α) (hn : 1 ≤ sum_probs.length)
    (hint : 2 * sum_probs.length ≤ INT_MAX) (hsorted : sum_probs.Pairwise (· ≤ ·)) :
    search sum_probs z = some (if ∃ p ∈ sum_probs, z ≤ p
      then sum_probs.findIdx (fun p => decide (z ≤ p)) + 1 else sum_probs.length) := by
  have hstart : Bracket sum_probs z 0 (sum_probs.length - 1) :=
    ⟨Nat.zero_le _, by omega, fun j p hj => by omega, .inl (by omega)⟩
  obtain ⟨i, hi, hbracket⟩ := bracket_of_searchLoop hsorted hint hstart
  rw [search, hi, ← hbracket.eq]
  rfl

/-- Three values with probabilities 1/2, 1/4 and 1/4, and `z` = 3/5. -/
theorem search_eq_three : search [50, 75, 100] 60 = some 2 :=
  (search_eq [50, 75, 100] 60 (by decide) (by decide) (by decide)).trans (by decide)

end ZipfDistribution

end RdmaSnapshot
