import RdmaSnapshot.System
import RdmaSnapshot.Lib.Bytes

/-!
# The timestamp word in memory

A CAS works on the eight bytes of a `Timestamp`. The client passes the expected and the new
timestamp by reading their memory as a `uint64_t`, the NIC delivers the prior word in big-endian
order (`IBV_EXP_QP_CREATE_ATOMIC_BE_REPLY`), and the client swaps the bytes of the reply, splits it
by shifts and compares it with the expected timestamp field by field. The host is little-endian.
-/

namespace RdmaSnapshot

open Bytes

/-- Eight bytes of memory. -/
@[ext] structure Octets where
  bytes : List UInt8
  length_eq : bytes.length = 8
  deriving DecidableEq

namespace Octets

/-- `*(uint64_t *)p` on a little-endian host. -/
def load (p : Octets) : UInt64 := UInt64.ofNat (ofLE p.bytes)

/-- `*(uint64_t *)p = x` on a little-endian host. -/
def store (x : UInt64) : Octets := ⟨toLE 8 x.toNat, length_toLE 8 _⟩

def reverse (p : Octets) : Octets := ⟨p.bytes.reverse, by rw [List.length_reverse, p.length_eq]⟩

@[simp] theorem reverse_reverse (p : Octets) : p.reverse.reverse = p := by
  ext1
  simp [reverse]

theorem ofLE_bytes_lt (p : Octets) : ofLE p.bytes < 2 ^ 64 := by
  have h := ofLE_lt p.bytes
  rw [p.length_eq] at h
  exact h

@[simp] theorem toNat_load (p : Octets) : p.load.toNat = ofLE p.bytes :=
  UInt64.toNat_ofNat_of_lt' p.ofLE_bytes_lt

@[simp] theorem load_store (x : UInt64) : (store x).load = x := by
  rw [← UInt64.toNat_inj, toNat_load]
  change ofLE (toLE 8 x.toNat) = x.toNat
  rw [ofLE_toLE]
  exact Nat.mod_eq_of_lt x.toNat_lt

@[simp] theorem store_load (p : Octets) : store p.load = p := by
  ext1
  change toLE 8 p.load.toNat = p.bytes
  rw [toNat_load, ← p.length_eq, toLE_ofLE]

theorem load_inj {p q : Octets} : p.load = q.load ↔ p = q := by
  constructor
  · intro h
    rw [← store_load p, h, store_load]
  · rintro rfl
    rfl

end Octets

/-- `utils::bigEndianToHost`, which is `be64toh`: on a little-endian host the bytes are swapped. -/
def bigEndianToHost (be : UInt64) : UInt64 := (Octets.store be).reverse.load

namespace Timestamp

/-- The memory of a `Timestamp`: its fields in the order of their declaration, without padding. -/
def octets (ts : Timestamp) : Octets where
  bytes := toLE 4 ts.timestamp.toNat ++ toLE 2 ts.clientID.toNat ++ toLE 1 ts.lockStatus.toNat ++
    toLE 1 ts.versionOffset.toNat
  length_eq := by simp

/-- The fields that a reader of the eight bytes as a `Timestamp` sees. -/
def ofOctets (p : Octets) : Timestamp where
  timestamp := UInt32.ofNat (ofLE (p.bytes.take 4))
  clientID := UInt16.ofNat (ofLE ((p.bytes.drop 4).take 2))
  lockStatus := UInt8.ofNat (ofLE ((p.bytes.drop 6).take 1))
  versionOffset := UInt8.ofNat (ofLE ((p.bytes.drop 7).take 1))

def ofUInt64 (ull : UInt64) : Timestamp where
  timestamp := ((ull <<< 32) >>> 32).toUInt32
  clientID := ((ull <<< 16) >>> 48).toUInt16
  lockStatus := ((ull <<< 8) >>> 56).toUInt8
  versionOffset := (ull >>> 56).toUInt8

theorem ofLE_octets (ts : Timestamp) :
    ofLE ts.octets.bytes = ts.timestamp.toNat + 2 ^ 32 * ts.clientID.toNat +
      2 ^ 48 * ts.lockStatus.toNat + 2 ^ 56 * ts.versionOffset.toNat := by
  have ht := ts.timestamp.toNat_lt
  have hc := ts.clientID.toNat_lt
  have hl := ts.lockStatus.toNat_lt
  have ho := ts.versionOffset.toNat_lt
  simp only [octets, ofLE_append, ofLE_toLE, List.length_append, length_toLE]
  omega

/-- The constructor undoes the cast of a timestamp to `uint64_t`. -/
theorem ofUInt64_load_octets (ts : Timestamp) : ofUInt64 ts.octets.load = ts := by
  have ht := ts.timestamp.toNat_lt
  have hc := ts.clientID.toNat_lt
  have hl := ts.lockStatus.toNat_lt
  have ho := ts.versionOffset.toNat_lt
  ext1
  · rw [← UInt32.toNat_inj]
    simp [ofUInt64, ofLE_octets, Nat.shiftLeft_eq, Nat.shiftRight_eq_div_pow]
    omega
  · rw [← UInt16.toNat_inj]
    simp [ofUInt64, ofLE_octets, Nat.shiftLeft_eq, Nat.shiftRight_eq_div_pow]
    omega
  · rw [← UInt8.toNat_inj]
    simp [ofUInt64, ofLE_octets, Nat.shiftLeft_eq, Nat.shiftRight_eq_div_pow]
    omega
  · rw [← UInt8.toNat_inj]
    simp [ofUInt64, ofLE_octets, Nat.shiftRight_eq_div_pow]
    omega

/-- Every eight bytes are the memory of the timestamp that is read from them. -/
@[simp] theorem octets_ofOctets (p : Octets) : (ofOctets p).octets = p := by
  obtain ⟨l, hl⟩ := p
  have h4 : ofLE (l.take 4) < 2 ^ 32 := by simpa [hl] using ofLE_lt (l.take 4)
  have h2 : ofLE ((l.drop 4).take 2) < 2 ^ 16 := by simpa [hl] using ofLE_lt ((l.drop 4).take 2)
  have h1 : ofLE ((l.drop 6).take 1) < 2 ^ 8 := by simpa [hl] using ofLE_lt ((l.drop 6).take 1)
  have h1' : ofLE ((l.drop 7).take 1) < 2 ^ 8 := by simpa [hl] using ofLE_lt ((l.drop 7).take 1)
  ext1
  change toLE 4 _ ++ toLE 2 _ ++ toLE 1 _ ++ toLE 1 _ = l
  rw [ofOctets, UInt32.toNat_ofNat_of_lt' h4, UInt16.toNat_ofNat_of_lt' h2,
    UInt8.toNat_ofNat_of_lt' h1, UInt8.toNat_ofNat_of_lt' h1',
    toLE_ofLE_of_length (by simp [hl]), toLE_ofLE_of_length (by simp [hl]),
    toLE_ofLE_of_length (by simp [hl]), toLE_ofLE_of_length (by simp [hl])]
  match l, hl with
  | [_, _, _, _, _, _, _, _], _ => rfl

/-- **Splitting a word by shifts gives the fields that are in its bytes.** -/
theorem ofUInt64_load (p : Octets) : ofUInt64 p.load = ofOctets p := by
  conv_lhs => rw [← octets_ofOctets p]
  exact ofUInt64_load_octets (ofOctets p)

@[simp] theorem ofOctets_octets (ts : Timestamp) : ofOctets ts.octets = ts := by
  rw [← ofUInt64_load, ofUInt64_load_octets]

theorem octets_inj {a b : Timestamp} : a.octets = b.octets ↔ a = b := by
  constructor
  · intro h
    rw [← ofOctets_octets a, h, ofOctets_octets]
  · rintro rfl
    rfl

end Timestamp

/-! ## The CAS -/

/-- What an atomic compare and swap leaves: the remote word, and the reply in the local buffer. -/
structure CompareSwap where
  remote : Octets
  reply : Octets

/-- The NIC's compare and swap of a remote word, with the prior word returned in big-endian
order. -/
def Octets.post_RDMA_CMP_SWAP (remote : Octets) (compare swap : UInt64) : CompareSwap where
  remote := if remote.load = compare then .store swap else remote
  reply := (Octets.store remote.load).reverse

/-- The CAS that `lockStock` posts on the head word of a Stock record: the operands are the memory
of the two timestamps. -/
def Octets.lockStock (remote : Octets) (oldTS newTS : Timestamp) : CompareSwap :=
  remote.post_RDMA_CMP_SWAP oldTS.octets.load newTS.octets.load

/-- The test of `NewOrderTransaction` after the CASes have completed: swap the bytes of the reply,
split it into fields and compare them with the expected ones. -/
def lockAcquired (reply : Octets) (expectedLock : Timestamp) : Bool :=
  (Timestamp.ofUInt64 (bigEndianToHost reply.load)).isEqual expectedLock

theorem Octets.lockStock_reply (remote : Octets) (oldTS newTS : Timestamp) :
    Timestamp.ofUInt64 (bigEndianToHost (remote.lockStock oldTS newTS).reply.load) =
      .ofOctets remote := by
  simp [lockStock, post_RDMA_CMP_SWAP, bigEndianToHost, Timestamp.ofUInt64_load]

/-- The operands agree exactly when the timestamps do. -/
theorem Octets.load_eq_load_octets_iff (remote : Octets) (ts : Timestamp) :
    remote.load = ts.octets.load ↔ Timestamp.ofOctets remote = ts := by
  rw [Octets.load_inj, ← Timestamp.octets_inj, Timestamp.octets_ofOctets]

/-- On the level of timestamps the remote word is compared and swapped. -/
theorem Octets.lockStock_remote (remote : Octets) (oldTS newTS : Timestamp) :
    Timestamp.ofOctets (remote.lockStock oldTS newTS).remote =
      if Timestamp.ofOctets remote = oldTS then newTS else .ofOctets remote := by
  rw [lockStock, post_RDMA_CMP_SWAP]
  simp only [load_eq_load_octets_iff, Octets.store_load]
  split
  · exact Timestamp.ofOctets_octets newTS
  · rfl

/-- A transaction's model posts this CAS as a verb on timestamps: the verb leaves the same word. -/
theorem Verb.apply_compareAndSwap_head (m : Memory) (k : Key) (oldTS newTS : Timestamp) (b : ℕ) :
    ((Verb.compareAndSwap k oldTS newTS b).apply m k).head.writeTimestamp =
      .ofOctets ((m k).head.writeTimestamp.octets.lockStock oldTS newTS).remote := by
  rw [Octets.lockStock_remote, Timestamp.ofOctets_octets, apply]
  split
  · simp
  · rfl

theorem Verb.reply_compareAndSwap (m : Memory) (k : Key) (oldTS newTS : Timestamp) (b : ℕ) :
    (Verb.compareAndSwap k oldTS newTS b).reply m =
      .word (.ofUInt64 (bigEndianToHost
        ((m k).head.writeTimestamp.octets.lockStock oldTS newTS).reply.load)) := by
  rw [Octets.lockStock_reply, Timestamp.ofOctets_octets, reply]

/-- **The success test of a lock is exact.** The CAS swaps the remote word if and only if the test
on its reply succeeds; a swapped word holds the new timestamp, and a word that is not swapped is
unchanged. -/
theorem Octets.lockStock_outcome (remote : Octets) (expected new : Timestamp) :
    (remote.load = expected.octets.load ↔
      lockAcquired (remote.lockStock expected new).reply expected = true) ∧
    (remote.load = expected.octets.load →
      Timestamp.ofOctets (remote.lockStock expected new).remote = new) ∧
    (remote.load ≠ expected.octets.load → (remote.lockStock expected new).remote = remote) := by
  refine ⟨?_, ?_, ?_⟩
  · rw [lockAcquired, lockStock_reply, Timestamp.isEqual_iff, load_eq_load_octets_iff]
  · intro h
    rw [lockStock_remote, if_pos ((load_eq_load_octets_iff _ _).1 h)]
  · intro h
    exact if_neg h

end RdmaSnapshot
