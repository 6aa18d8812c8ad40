import RdmaSnapshot.Lib.Draws
import Mathlib.Algebra.Order.Ring.Int
import Mathlib.Data.UInt
import Mathlib.Data.Rat.Floor

/-!
# The random generator

`RandomGenerator` builds everything it returns on `number(lower, upper)`, which returns some number
of the interval. Here the generator takes natural numbers from a stream and reduces them to the
interval, as `RealRandomGenerator` does; for every sequence of numbers of the intervals there is a
stream. There is no number to return for an empty interval. `ZipfDistribution::getSample` is a
sample of the same kind, from `1` to `n`.
-/

namespace RdmaSnapshot

open Draws

namespace RandomGenerator

/-! ## Numbers -/

def number (lower upper : ℤ) : Draws ℕ ℤ :=
  if lower ≤ upper then do
    let rand_int ← draw
    pure (lower + rand_int % (upper - lower + 1))
  else failure

/-- `ZipfDistribution::getSample` for the values from `1` to `n`. -/
def getSample (n : ℤ) : Draws ℕ ℤ := number 1 n

def numberExcluding (lower upper excluding : ℤ) : Draws ℕ ℤ := do
  let num ← number lower (upper - 1)
  pure (if excluding ≤ num then num + 1 else num)

/-- `NURandC`: constants that are drawn from intervals that start at zero. -/
structure NURandC where
  c_last_ : ℕ
  c_id_ : ℕ
  ol_i_id_ : ℕ

/-- The constant that `NURand` uses; for other values of `A` the program is ended. -/
def NURandC.constant (c : NURandC) : ℤ → Option ℕ
  | 255 => some c.c_last_
  | 1023 => some c.c_id_
  | 8191 => some c.ol_i_id_
  | _ => none

/-- `RandomGenerator::NURand`, for `0 ≤ x`. The operands of the bitwise or are not negative. -/
def NURand (c : NURandC) (A x y : ℤ) : Draws ℕ ℤ :=
  match c.constant A with
  | none => failure
  | some C => do
      let a ← number 0 A
      let b ← number x y
      pure (((a.toNat ||| b.toNat : ℕ) + C : ℤ).tmod (y - x + 1) + x)

/-! ## Sets -/

/-- `RandomGenerator::selectUniqueIds`. The fuel bounds the rounds of its inner loops. -/
def selectUniqueIds (fuel num_unique : ℕ) (lower_id upper_id : ℤ) :
    Draws ℕ (OrderedSet ℤ (· < ·)) :=
  selectDistinct (number lower_id upper_id) fuel num_unique .empty

def selectZipfIds (fuel num_unique : ℕ) (n : ℤ) : Draws ℕ (OrderedSet UInt32 (· < ·)) :=
  selectDistinct (do
    let value ← getSample n
    pure (UInt32.ofNat (value - 1).toNat)) fuel num_unique .empty

/-! ## Texts -/

/-- `generateString`: the characters before the terminating NUL. -/
def generateString (lower_length upper_length : ℤ) (base_character : UInt8)
    (num_characters : ℤ) : Draws ℕ (List UInt8) := do
  let length ← number lower_length upper_length
  (List.range length.toNat).mapM fun _ => do
    let c ← number 0 (num_characters - 1)
    pure (base_character + UInt8.ofNat c.toNat)

/-- `RandomGenerator::astring`: letters from `a` on. -/
def astring (lower_length upper_length : ℤ) : Draws ℕ (List UInt8) :=
  generateString lower_length upper_length 97 26

def nstring (lower_length upper_length : ℤ) : Draws ℕ (List UInt8) :=
  generateString lower_length upper_length 48 10

def ascii (text : String) : List UInt8 := text.toList.map fun c => UInt8.ofNat c.toNat

def SYLLABLES : List String :=
  ["BAR", "OUGHT", "ABLE", "PRI", "PRES", "ESE", "ANTI", "CALLY", "ATION", "EING"]

/-- `makeLastName`, for numbers below 1000. -/
def makeLastName (num : ℕ) : List UInt8 :=
  [num / 100, num / 10 % 10, num % 10].flatMap fun i => ascii (SYLLABLES.getD i "")

def lastName (c : NURandC) (max_cid : ℤ) : Draws ℕ (List UInt8) := do
  let num ← NURand c 255 0 (min 999 (max_cid - 1))
  pure (makeLastName num.toNat)

/-! ## Decimal numbers -/

/-- `RandomGenerator::fixedPoint`, before the result is rounded to a `float`. -/
def fixedPoint (digits : ℕ) (lower upper : ℚ) : Draws ℕ ℚ := do
  let multiplier : ℚ := 10 ^ digits
  let value ← number ⌊lower * multiplier + 1 / 2⌋ ⌊upper * multiplier + 1 / 2⌋
  pure (value / multiplier)

/-! ## What the generator returns -/

section Yields

variable {lower upper : ℤ}

/-- The number that a value of the stream stands for. -/
def reduce (lower upper : ℤ) (rand_int : ℕ) : ℤ := lower + rand_int % (upper - lower + 1)

theorem number_apply (h : lower ≤ upper) (s : ℕ → ℕ) :
    number lower upper s = some (reduce lower upper (s 0), skip s 1) := by
  rw [number, if_pos h]
  rfl

theorem reduce_mem (h : lower ≤ upper) (rand_int : ℕ) :
    lower ≤ reduce lower upper rand_int ∧ reduce lower upper rand_int ≤ upper := by
  have hpos : 0 < upper - lower + 1 := by omega
  have hnonneg := Int.emod_nonneg rand_int hpos.ne'
  have hlt := Int.emod_lt_of_pos rand_int hpos
  rw [reduce]
  omega

theorem yields_number (lower upper : ℤ) :
    Yields (number lower upper) fun n => lower ≤ n ∧ n ≤ upper := by
  intro s n s' hrun
  by_cases h : lower ≤ upper
  · rw [number_apply h] at hrun
    obtain ⟨rfl, -⟩ := Prod.mk.inj (Option.some.inj hrun)
    exact reduce_mem h (s 0)
  · rw [number, if_neg h] at hrun
    cases hrun

theorem returns_number (h : lower ≤ upper) : Returns (number lower upper) :=
  fun s => ⟨_, _, number_apply h s⟩

theorem yields_numberExcluding (lower upper excluding : ℤ) :
    Yields (numberExcluding lower upper excluding) fun n =>
      lower ≤ n ∧ n ≤ upper ∧ n ≠ excluding := by
  refine (yields_number lower (upper - 1)).bind fun num hnum => yields_pure ?_
  split <;> omega

theorem yields_NURand (c : NURandC) (A : ℤ) {x y : ℤ} (hxy : x ≤ y) :
    Yields (NURand c A x y) fun n => x ≤ n ∧ n ≤ y := by
  rw [NURand]
  cases c.constant A with
  | none => exact yields_failure
  | some C =>
    refine (yields_number 0 A).bind fun a _ => (yields_number x y).bind fun b _ => yields_pure ?_
    have hpos : 0 < y - x + 1 := by omega
    have hnonneg := Int.tmod_nonneg (y - x + 1) (by positivity :
      (0 : ℤ) ≤ ((a.toNat ||| b.toNat : ℕ) + C : ℤ))
    have hlt := Int.tmod_lt_of_pos ((a.toNat ||| b.toNat : ℕ) + C : ℤ) hpos
    omega

theorem returns_NURand {c : NURandC} {A x y : ℤ} {C : ℕ} (hconstant : c.constant A = some C)
    (hA : 0 ≤ A) (hxy : x ≤ y) : Returns (NURand c A x y) := by
  rw [NURand, hconstant]
  exact (returns_number hA).bind' fun _ => (returns_number hxy).bind' fun _ => returns_pure _

theorem yields_selectUniqueIds (fuel num_unique : ℕ) (lower upper : ℤ) :
    Yields (selectUniqueIds fuel num_unique lower upper) fun rows =>
      rows.toList.length = num_unique ∧ ∀ x ∈ rows.toList, lower ≤ x ∧ x ≤ upper :=
  (yields_number lower upper).selectDistinct_empty num_unique

theorem yields_selectZipfIds (fuel num_unique : ℕ) {n : ℤ} (hn : n ≤ 2 ^ 32) :
    Yields (selectZipfIds fuel num_unique n) fun rows =>
      rows.toList.length = num_unique ∧ ∀ x ∈ rows.toList, (x.toNat : ℤ) < n := by
  have hsample : Yields (do
      let value ← getSample n
      pure (UInt32.ofNat (value - 1).toNat)) fun x : UInt32 => (x.toNat : ℤ) < n := by
    refine (yields_number 1 n).bind fun value hvalue => yields_pure ?_
    rw [UInt32.toNat_ofNat_of_lt' (by rw [UInt32.size]; omega)]
    omega
  exact hsample.selectDistinct_empty num_unique

end Yields

end RandomGenerator

end RdmaSnapshot
