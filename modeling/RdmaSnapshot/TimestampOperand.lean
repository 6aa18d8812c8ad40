import Mathlib.Tactic.IntervalCases
import RdmaSnapshot.WordLayout
import RdmaSnapshot.Lib.Digits

/-!
# The CAS operands of the TPC-W client

The TPC-W client computes the operands of a CAS by `Timestamp::toUUL`: it writes the bytes of the
timestamp as a text of bits, from the first byte in memory to the last, and reads the text as a
binary number. The first byte in memory thus becomes the most significant byte of the number, while
on a little-endian host it is the least significant byte of a word: the operand is the word with its
bytes swapped. The constructor from `uint64_t` does not swap them back.
-/

namespace RdmaSnapshot

open Bytes

namespace Timestamp

def bitString (b : UInt8) : List Char :=
  (Digits.ofNat 2 8 b.toNat).map fun d => if d = 1 then '1' else '0'

/-- `Timestamp::serializeAsBinary`: the bits of every byte, in the order of the bytes in memory. -/
def serializeAsBinary (ts : Timestamp) : List Char := ts.octets.bytes.flatMap bitString

/-- The number in a `std::bitset` that was made from a string (`to_ullong`). -/
def bitsetValue (str : List Char) : ℕ := Digits.toNat 2 (str.map fun d => if d = '1' then 1 else 0)

def toUUL (ts : Timestamp) : UInt64 := UInt64.ofNat (bitsetValue ts.serializeAsBinary)

/-! ## The operand -/

theorem map_bitString (b : UInt8) :
    (bitString b).map (fun d => if d = '1' then 1 else 0) = Digits.ofNat 2 8 b.toNat := by
  rw [bitString, List.map_map]
  conv_rhs => rw [← List.map_id (Digits.ofNat 2 8 b.toNat)]
  refine List.map_congr_left fun d hd => ?_
  have hlt := Digits.lt_of_mem_ofNat (by decide) hd
  interval_cases d <;> rfl

theorem toNat_map_toNat (l : List UInt8) :
    Digits.toNat 256 (l.map UInt8.toNat) = ofLE l.reverse := by
  induction l with
  | nil => rfl
  | cons b l ih =>
    rw [List.map_cons, Digits.toNat_cons, ih, List.reverse_cons, ofLE_append, List.length_map,
      List.length_reverse, Nat.add_comm]
    simp [ofLE]

theorem bitsetValue_serializeAsBinary (ts : Timestamp) :
    bitsetValue ts.serializeAsBinary = ofLE ts.octets.bytes.reverse := by
  have hbits : ts.serializeAsBinary.map (fun d => if d = '1' then 1 else 0) =
      (ts.octets.bytes.map UInt8.toNat).flatMap (Digits.ofNat 2 8) := by
    rw [serializeAsBinary, List.map_flatMap, List.flatMap_map]
    simp only [map_bitString]
  have hbyte : ∀ n ∈ ts.octets.bytes.map UInt8.toNat, n < 2 ^ 8 := by
    intro n hn
    obtain ⟨b, -, rfl⟩ := List.mem_map.1 hn
    exact b.toNat_lt
  rw [bitsetValue, hbits, Digits.toNat_flatMap hbyte]
  exact toNat_map_toNat _

theorem toUUL_eq_load (ts : Timestamp) : ts.toUUL = ts.octets.reverse.load :=
  congrArg UInt64.ofNat (bitsetValue_serializeAsBinary ts)

/-- The operand is the word in memory with its bytes swapped. -/
theorem toUUL_eq_bigEndianToHost (ts : Timestamp) : ts.toUUL = bigEndianToHost ts.octets.load := by
  rw [toUUL_eq_load, bigEndianToHost, Octets.store_load]

/-! ## Reading an operand back -/

theorem ofOctets_eq_iff {p : Octets} {ts : Timestamp} : ofOctets p = ts ↔ p = ts.octets := by
  rw [← octets_inj, octets_ofOctets]

/-- The bytes of the word are the same from both ends. -/
structure Mirrored (ts : Timestamp) : Prop where
  versionOffset : ts.versionOffset.toNat = ts.timestamp.toNat % 256
  lockStatus : ts.lockStatus.toNat = ts.timestamp.toNat / 256 % 256
  clientID_high : ts.clientID.toNat / 256 = ts.timestamp.toNat / 256 ^ 2 % 256
  clientID_low : ts.clientID.toNat % 256 = ts.timestamp.toNat / 256 ^ 3

theorem ofNat_mod_inj {m n : ℕ} :
    UInt8.ofNat (m % 256) = UInt8.ofNat (n % 256) ↔ m % 256 = n % 256 := by
  simp [← UInt8.toNat_inj]

theorem reverse_octets_iff (ts : Timestamp) : ts.octets.reverse = ts.octets ↔ ts.Mirrored := by
  have ht := ts.timestamp.toNat_lt
  have hc := ts.clientID.toNat_lt
  have hl := ts.lockStatus.toNat_lt
  have ho := ts.versionOffset.toNat_lt
  rw [Octets.ext_iff]
  simp only [Octets.reverse, octets, toLE, List.cons_append, List.nil_append, List.reverse_cons,
    List.reverse_nil, List.cons.injEq, ofNat_mod_inj, Nat.div_div_eq_div_mul, and_true]
  constructor
  · rintro ⟨h0, h1, h2, h3, -⟩
    exact ⟨by omega, by omega, by omega, by omega⟩
  · rintro ⟨h0, h1, h2, h3⟩
    refine ⟨?_, ?_, ?_, ?_, ?_, ?_, ?_, ?_⟩ <;> omega

/-- **Which timestamps are read back.** The constructor reads the timestamp from its operand exactly
if the word is the same with its bytes swapped. -/
theorem isEqual_ofUInt64_toUUL_iff (ts : Timestamp) :
    (ofUInt64 ts.toUUL).isEqual ts = true ↔ ts.Mirrored := by
  rw [isEqual_iff, toUUL_eq_load, ofUInt64_load, ofOctets_eq_iff, reverse_octets_iff]

/-- **A timestamp that is not read back.** Commit timestamp 1 of client 0 comes back as version 1 of
commit timestamp 0. -/
theorem not_isEqual_ofUInt64_toUUL :
    (ofUInt64 (⟨1, 0, 0, 0⟩ : Timestamp).toUUL).isEqual ⟨1, 0, 0, 0⟩ = false := by
  decide +kernel

end Timestamp

/-! ## The CAS -/

/-- The CAS that `TPCW_Client::acquire_item_lock` posts. -/
def Octets.acquire_item_lock (remote : Octets) (expected_lock new_lock : Timestamp) : CompareSwap :=
  remote.post_RDMA_CMP_SWAP expected_lock.toUUL new_lock.toUUL

/-- The CAS compares the remote word with the expected timestamp, and replaces it by the new one,
both with their bytes swapped. -/
theorem Octets.acquire_item_lock_remote (remote : Octets) (expected_lock new_lock : Timestamp) :
    (remote.acquire_item_lock expected_lock new_lock).remote =
      if remote = expected_lock.octets.reverse then new_lock.octets.reverse else remote := by
  simp only [acquire_item_lock, post_RDMA_CMP_SWAP, Timestamp.toUUL_eq_load, load_inj, store_load]

/-- **A lock that is not noticed.** The test on the reply of the CAS tells whether the word was
swapped only if the expected timestamp reads the same with its bytes swapped. Any other timestamp
passes the test only where the word stays as it is, and fails it where the word was swapped. -/
theorem Octets.acquire_item_lock_outcome (expected new : Timestamp) :
    ((∀ remote : Octets,
      lockAcquired (remote.acquire_item_lock expected new).reply expected = true ↔
        remote.load = expected.toUUL) ↔ expected.Mirrored) ∧
    (¬ expected.Mirrored → ∀ remote : Octets,
      (lockAcquired (remote.acquire_item_lock expected new).reply expected = true →
        (remote.acquire_item_lock expected new).remote = remote) ∧
      (remote.load = expected.toUUL →
        lockAcquired (remote.acquire_item_lock expected new).reply expected = false ∧
        (remote.acquire_item_lock expected new).remote = new.octets.reverse)) := by
  have hacquired : ∀ remote : Octets,
      lockAcquired (remote.acquire_item_lock expected new).reply expected = true ↔
        remote = expected.octets := by
    intro remote
    simp [lockAcquired, acquire_item_lock, post_RDMA_CMP_SWAP, bigEndianToHost,
      Timestamp.ofUInt64_load, Timestamp.isEqual_iff, Timestamp.ofOctets_eq_iff]
  have hswapped : ∀ remote : Octets, remote.load = expected.toUUL ↔
      remote = expected.octets.reverse := by
    intro remote
    rw [Timestamp.toUUL_eq_load, load_inj]
  simp only [hacquired, hswapped, acquire_item_lock_remote, ← Timestamp.reverse_octets_iff]
  refine ⟨⟨fun h => ((h expected.octets).1 rfl).symm, fun h remote => by rw [h]⟩,
    fun hne remote => ⟨?_, ?_⟩⟩
  · rintro rfl
    exact if_neg fun h => hne h.symm
  · rintro rfl
    refine ⟨?_, if_pos rfl⟩
    rw [Bool.eq_false_iff, ne_eq, hacquired]
    exact hne

end RdmaSnapshot
