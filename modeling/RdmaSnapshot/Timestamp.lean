import Mathlib.Logic.Function.Basic
import Mathlib.Algebra.GroupWithZero.Nat

/-!
# Version timestamps

The eight-byte word in front of every record head, every entry of a pointer list and every entry
of a ring of older versions (`basic-types/timestamp`). A word carries a commit timestamp, the id
of the committing client, a lock status byte and the slot of the ring in which the version is
stored once it is replaced.
-/

namespace RdmaSnapshot

abbrev ClientID := UInt16

/-- The word in front of a version; the CAS of a lock compares and swaps all of it. -/
@[ext] structure Timestamp where
  timestamp : UInt32
  clientID : ClientID
  lockStatus : UInt8
  versionOffset : UInt8
  deriving DecidableEq

namespace Timestamp

def checkAliveBits : UInt8 := 0x0F

def checkDeletedBits : UInt8 := 0x1F

def deletingBits : UInt8 := 0x10

def checkLockedBits : UInt8 := 0xF1

def checkUnLockedBits : UInt8 := 0xF0

def lockingBits : UInt8 := 0x01

def unLockingBits : UInt8 := 0xF0

/-- The five-argument constructor, and `setAll`, which computes the same fields. -/
def setAll (isDeleted isLocked : Bool) (versionOffset : UInt8) (clientID : ClientID)
    (timestamp : UInt32) : Timestamp where
  timestamp := timestamp
  clientID := clientID
  versionOffset := versionOffset
  lockStatus :=
    match isDeleted, isLocked with
    | true, true => checkDeletedBits &&& checkLockedBits
    | true, false => checkDeletedBits &&& checkUnLockedBits
    | false, true => checkAliveBits &&& checkLockedBits
    | false, false => checkAliveBits &&& checkUnLockedBits

/-- The default constructor: a deleted word. -/
def empty : Timestamp := setAll true false 0 0 0

/-- `isLocked`: the shifts happen on `int`, so no bit is lost and the masked byte must be one. -/
def isLocked (ts : Timestamp) : Bool :=
  (((ts.lockStatus &&& checkLockedBits).toNat <<< 7) >>> 7) == 1

def isDeleted (ts : Timestamp) : Bool :=
  ((ts.lockStatus &&& checkDeletedBits).toNat >>> 4) == 1

def markDeleted (ts : Timestamp) : Timestamp :=
  { ts with lockStatus := ts.lockStatus ||| deletingBits }

def markLocked (ts : Timestamp) : Timestamp :=
  { ts with lockStatus := ts.lockStatus ||| lockingBits }

def markUnlocked (ts : Timestamp) : Timestamp :=
  { ts with lockStatus := ts.lockStatus &&& unLockingBits }

def setClientID (ts : Timestamp) (clientID : ClientID) : Timestamp :=
  { ts with clientID := clientID }

def setTimestamp (ts : Timestamp) (timestamp : UInt32) : Timestamp :=
  { ts with timestamp := timestamp }

def isEqual (a b : Timestamp) : Bool :=
  a.lockStatus == b.lockStatus && a.versionOffset == b.versionOffset &&
    a.clientID == b.clientID && a.timestamp == b.timestamp

@[simp] theorem isEqual_iff {a b : Timestamp} : a.isEqual b = true ↔ a = b := by
  simp only [isEqual, Bool.and_eq_true, beq_iff_eq, Timestamp.ext_iff]
  constructor
  · rintro ⟨⟨⟨hl, ho⟩, hc⟩, ht⟩
    exact ⟨ht, hc, hl, ho⟩
  · rintro ⟨ht, hc, hl, ho⟩
    exact ⟨⟨⟨hl, ho⟩, hc⟩, ht⟩

theorem isEqual_eq_decide (a b : Timestamp) : a.isEqual b = decide (a = b) := by
  rw [Bool.eq_iff_iff, isEqual_iff, decide_eq_true_iff]

@[simp] theorem setAll_timestamp (d l o c t) : (setAll d l o c t).timestamp = t := rfl
@[simp] theorem setAll_clientID (d l o c t) : (setAll d l o c t).clientID = c := rfl
@[simp] theorem setAll_versionOffset (d l o c t) : (setAll d l o c t).versionOffset = o := rfl

@[simp] theorem isLocked_setAll (d l o c t) :
    (setAll d l o c t).isLocked = (l && !d) := by
  cases d <;> cases l <;> simp only [setAll, isLocked] <;> decide

@[simp] theorem isDeleted_setAll (d l o c t) : (setAll d l o c t).isDeleted = d := by
  cases d <;> cases l <;> simp only [setAll, isDeleted] <;> decide

@[simp] theorem markDeleted_setAll_true (l o c t) :
    (setAll true l o c t).markDeleted = setAll true l o c t := by
  cases l <;> simp only [setAll, markDeleted, Timestamp.mk.injEq, true_and, and_true] <;> decide

@[simp] theorem isDeleted_empty : empty.isDeleted = true := rfl
@[simp] theorem isLocked_empty : empty.isLocked = false := rfl

/-- The transaction a word names: the committing client and its commit timestamp. -/
def writer (ts : Timestamp) : ClientID × UInt32 := (ts.clientID, ts.timestamp)

@[simp] theorem writer_setAll (d l o c t) : (setAll d l o c t).writer = (c, t) := rfl

end Timestamp

end RdmaSnapshot
