import RdmaSnapshot.CommandLog
import RdmaSnapshot.Lib.Digits

/-!
# Reading a logged snapshot back

A log record starts with the timestamp vector of the transaction, eight hexadecimal digits for every
client. `RecoveryClient::writeCommandToLog` stores them with a loop, one number at a time at a
stride of eight characters. A replay would have to read the vector back from the text.
-/

namespace RdmaSnapshot

open LogBuffer

/-! ## A reader -/

def IsHexDigit (d : Char) : Prop := '0' ≤ d ∧ d ≤ '9' ∨ 'A' ≤ d ∧ d ≤ 'F'

instance : DecidablePred IsHexDigit := fun _ => inferInstanceAs (Decidable (_ ∨ _))

def hexDigitValue (d : Char) : ℕ :=
  if d ≤ '9' then d.toNat - '0'.toNat else d.toNat - 'A'.toNat + 10

/-- A text read as a hexadecimal number, the most significant digit first. -/
def readHexadecimal (text : List Char) : ℕ := Digits.toNat 16 (text.map hexDigitValue)

/-- The numbers in the first `n` blocks of eight characters. -/
def readSnapshot : ℕ → List Char → List ℕ
  | 0, _ => []
  | n + 1, text => readHexadecimal (text.take 8) :: readSnapshot n (text.drop 8)

theorem hexadecimal_eq_map (n : ℕ) :
    hexadecimal n = (Digits.ofNat 16 8 n).map fun d => code.getD d '0' := by
  rw [hexadecimal, Digits.ofNat, List.map_map]
  rfl

theorem isHexDigit_of_mem_hexadecimal {n : ℕ} {d : Char} (h : d ∈ hexadecimal n) :
    IsHexDigit d := by
  rw [hexadecimal_eq_map] at h
  obtain ⟨v, hv, rfl⟩ := List.mem_map.1 h
  have hlt := Digits.lt_of_mem_ofNat (by decide) hv
  interval_cases v <;> decide

theorem readHexadecimal_hexadecimal (n : ℕ) : readHexadecimal (hexadecimal n) = n % 16 ^ 8 := by
  have hdigits : (hexadecimal n).map hexDigitValue = Digits.ofNat 16 8 n := by
    rw [hexadecimal_eq_map, List.map_map]
    conv_rhs => rw [← List.map_id (Digits.ofNat 16 8 n)]
    refine List.map_congr_left fun v hv => ?_
    have hlt := Digits.lt_of_mem_ofNat (by decide) hv
    interval_cases v <;> rfl
  rw [readHexadecimal, hdigits, Digits.toNat_ofNat]

theorem readHexadecimal_serialize (number : UInt32) :
    readHexadecimal (serializeUnsignedINT32_t number) = number.toNat := by
  rw [serializeUnsignedINT32_t_eq_hexadecimal, readHexadecimal_hexadecimal]
  exact Nat.mod_eq_of_lt number.toNat_lt

theorem readSnapshot_flatMap (timestampVector : List UInt32) :
    readSnapshot timestampVector.length (timestampVector.flatMap serializeUnsignedINT32_t) =
      timestampVector.map UInt32.toNat := by
  induction timestampVector with
  | nil => rfl
  | cons number vector ih =>
    have hlen : (serializeUnsignedINT32_t number).length = 8 := length_serializeUnsignedINT32_t _
    rw [List.length_cons, List.flatMap_cons, readSnapshot, List.take_left' hlen,
      List.drop_left' hlen, ih, readHexadecimal_serialize, List.map_cons]

def RecoveryClient.snapshotText (buff : Region Char) (timestampVector : List UInt32) : List Char :=
  (serializeSnapshot buff timestampVector).read 0
    (timestampVector.length * serializedTimestampCharCnt)

theorem RecoveryClient.snapshotText_eq (buff : Region Char) (timestampVector : List UInt32) :
    snapshotText buff timestampVector = timestampVector.flatMap serializeUnsignedINT32_t := by
  rw [snapshotText, serializeSnapshot_eq_write, ← length_flatMap_serialize]
  exact (Region.contains_write buff 0 _).read_eq

/-- **A logged snapshot can be read back.** For every vector and every contents of the buffer the
loop changes the first `8 * n` characters only, all of them are in `0-9A-F`, the blocks of eight
characters are the numbers of the vector, and vectors of the same length with the same text are
equal. -/
theorem RecoveryClient.snapshot_decodable (buff : Region Char) (timestampVector : List UInt32) :
    (snapshotText buff timestampVector).length = 8 * timestampVector.length ∧
    (∀ i, 8 * timestampVector.length ≤ i → serializeSnapshot buff timestampVector i = buff i) ∧
    (∀ d ∈ snapshotText buff timestampVector, IsHexDigit d) ∧
    readSnapshot timestampVector.length (snapshotText buff timestampVector) =
      timestampVector.map UInt32.toNat ∧
    ∀ buff' timestampVector', timestampVector'.length = timestampVector.length →
      snapshotText buff' timestampVector' = snapshotText buff timestampVector →
      timestampVector' = timestampVector := by
  refine ⟨?_, fun i hi => ?_, fun d hd => ?_, ?_, fun buff' timestampVector' hlen htext => ?_⟩
  · rw [snapshotText, Region.length_read, serializedTimestampCharCnt, Nat.mul_comm]
  · rw [serializeSnapshot_eq_write]
    refine Region.write_of_ge ?_
    rw [length_flatMap_serialize, serializedTimestampCharCnt]
    omega
  · rw [snapshotText_eq, flatMap_serialize] at hd
    obtain ⟨number, -, hd⟩ := List.mem_flatMap.1 hd
    exact isHexDigit_of_mem_hexadecimal hd
  · rw [snapshotText_eq, readSnapshot_flatMap]
  · rw [snapshotText_eq, snapshotText_eq] at htext
    have hread := readSnapshot_flatMap timestampVector'
    rw [htext, hlen, readSnapshot_flatMap] at hread
    exact (List.map_injective_iff.2 (fun _ _ => UInt32.toNat_inj.1) hread).symm

end RdmaSnapshot
