import RdmaSnapshot.Verbs
import RdmaSnapshot.Lib.Region

/-!
# The log of a client

Before a transaction installs its versions it writes its snapshot and its command to the client's
journal on the log servers (`recovery/`). A journal is an array of entries of equal size;
`writeCommandToLog` writes to the entry under the client's cursor, and `writeResultToLog`, which
records the outcome, moves the cursor to the next entry. No transaction calls `writeResultToLog`.
-/

namespace RdmaSnapshot

/-! ## `LogBuffer` -/

/-- The settings that one record of the log depends on. -/
structure LogSettings where
  LOG_REPLICATION_DEGREE : ℕ
  COMMAND_LOG_SIZE : ℕ
  clientsCnt : ℕ

/-- The settings of the log. -/
structure RecoverySettings extends LogSettings where
  ENTRY_PER_LOG_JOURNAL : ℕ
  /-- What a stream of precision five prints for an amount. -/
  printAmount : Float32 → String
  journal_pos : 0 < ENTRY_PER_LOG_JOURNAL
  clientsCnt_pos : 0 < clientsCnt

namespace LogBuffer

def code : List Char :=
  ['0', '1', '2', '3', '4', '5', '6', '7', '8', '9', 'A', 'B', 'C', 'D', 'E', 'F']

def serializedTimestampCharCnt : ℕ := 8

/-- `LogBuffer::serializeUnsignedINT32_t`: the digits of a number to the base 16, the most
significant first. -/
def serializeUnsignedINT32_t (number : UInt32) : List Char :=
  (List.range serializedTimestampCharCnt).map fun i =>
    code.getD (((number <<< UInt32.ofNat (4 * i)) >>> 28).toNat) '0'

@[simp] theorem length_serializeUnsignedINT32_t (number : UInt32) :
    (serializeUnsignedINT32_t number).length = serializedTimestampCharCnt := by
  simp [serializeUnsignedINT32_t]

theorem length_flatMap_serialize (timestampVector : List UInt32) :
    (timestampVector.flatMap serializeUnsignedINT32_t).length =
      timestampVector.length * serializedTimestampCharCnt := by
  induction timestampVector with
  | nil => simp
  | cons number vector ih =>
    rw [List.flatMap_cons, List.length_append, ih, length_serializeUnsignedINT32_t,
      List.length_cons, Nat.succ_mul, Nat.add_comm]

def getEntrySize (L : LogSettings) : ℕ :=
  L.clientsCnt * serializedTimestampCharCnt + L.COMMAND_LOG_SIZE + 1

def getOffsetOfTrxOutcome (L : LogSettings) : ℕ :=
  L.clientsCnt * serializedTimestampCharCnt + L.COMMAND_LOG_SIZE

end LogBuffer

open LogBuffer

/-! ## What is logged -/

/-- What a `stringstream` holds after `parts` were put into it. -/
def text (parts : List String) : List Char := parts.flatMap String.toList

/-- The fields of a `NewOrderCart`, with any contents. -/
structure NewOrderCart.Fields where
  wID : UInt16
  dID : UInt8
  cID : UInt32
  items : List NewOrderItem

def NewOrderCart.Fields.logMessage (cart : Fields) : List Char :=
  text (["NewOrderTrx:", "w", toString cart.wID, "|d", toString cart.dID, "|c",
    toString cart.cID.toInt32, "|n", toString cart.items.length, "|"] ++
    cart.items.flatMap fun value =>
      [toString value.I_ID, ",", toString value.OL_SUPPLY_W_ID, "|"])

def NewOrderCart.logMessage (cart : NewOrderCart) : List Char :=
  Fields.logMessage ⟨cart.wID, cart.dID, cart.cID, cart.items⟩

def PaymentCart.logMessage (S : RecoverySettings) (cart : PaymentCart) : List Char :=
  text (["PaymentTrx:", "w", toString cart.wID, "|d", toString cart.dID, "|rwID",
    toString cart.residentWarehouseID, "|"] ++
    (match cart.customerSelectionMode with
      | .LAST_NAME => ["LN:", cart.cLastName]
      | .ID => ["ID:", toString cart.cID]) ++
    ["|hAmount", S.printAmount cart.hAmount, "|"])

def DeliveryCart.logMessage (cart : DeliveryCart) (dID : UInt8) : List Char :=
  text ["DeliveryTrx:", "w", toString cart.wID, "|d", toString dID, "|oCarrierID",
    toString cart.oCarrierID, "|olDeliveryID", toString cart.olDeliveryD, "|"]

def Trx.logMessage (S : RecoverySettings) : Trx → List Char
  | .newOrder cart => cart.logMessage
  | .payment cart => cart.logMessage S
  | .delivery cart dID => cart.logMessage dID

theorem text_cons_ne_nil {part : String} {parts : List String} (h : part.toList ≠ []) :
    text (part :: parts) ≠ [] := by
  rw [text, List.flatMap_cons]
  exact List.append_ne_nil_of_left_ne_nil h _

theorem Trx.logMessage_ne_nil (S : RecoverySettings) (trx : Trx) : trx.logMessage S ≠ [] := by
  cases trx with
  | newOrder cart => exact text_cons_ne_nil (by decide)
  | payment cart => exact text_cons_ne_nil (by decide)
  | delivery cart dID => exact text_cons_ne_nil (by decide)

/-- A transaction at the point where it has acquired all its locks: what it executes, and its
snapshot. Its command passes the assertion of `writeCommandToLog`. -/
structure Logged (S : RecoverySettings) where
  trx : Trx
  timestampVector : List UInt32
  length_eq : timestampVector.length = S.clientsCnt
  command_lt : (trx.logMessage S).length < S.COMMAND_LOG_SIZE

/-! ## `RecoveryClient` -/

/-- The client's side of the log, and its journals, by the position of the log server in
`logServers`. -/
structure RecoveryClient where
  nextLogEntryIndex : ℕ
  localRegion : Region Char
  journal : ℕ → Region Char

namespace RecoveryClient

def snapshotStores (timestampVector : List UInt32) (k : ℕ) : List (Region.Store Char) :=
  (timestampVector.zipIdx k).map fun x =>
    ⟨x.2 * serializedTimestampCharCnt, serializeUnsignedINT32_t x.1⟩

/-- The loop of `RecoveryClient::writeCommandToLog` over the snapshot. -/
def serializeSnapshot (buff : Region Char) (timestampVector : List UInt32) : Region Char :=
  buff.stores (snapshotStores timestampVector 0)

/-- The local buffer into which `writeCommandToLog` serializes the snapshot and the command. -/
def serialize (rc : RecoveryClient) (timestampVector : List UInt32) (command : List Char) :
    Region Char :=
  (serializeSnapshot rc.localRegion timestampVector).write
    (timestampVector.length * serializedTimestampCharCnt) command

/-- The log record of a command: `writeCommandToLog` passes the size of the command as the number
of characters to be written, although the buffer starts with the snapshot. -/
def record (rc : RecoveryClient) (timestampVector : List UInt32) (command : List Char) :
    List Char :=
  (rc.serialize timestampVector command).read 0 command.length

/-- `RecoveryClient::writeCommandToLog`, until its WRITEs have completed. -/
def writeCommandToLog (L : LogSettings) (rc : RecoveryClient) (timestampVector : List UInt32)
    (command : List Char) : RecoveryClient :=
  { rc with
    localRegion := rc.serialize timestampVector command
    journal := fun s => if s < L.LOG_REPLICATION_DEGREE then
        (rc.journal s).write (rc.nextLogEntryIndex * getEntrySize L)
          (rc.record timestampVector command)
      else rc.journal s }

def writeResultToLog (S : RecoverySettings) (rc : RecoveryClient) (transactionResult : Char) :
    RecoveryClient :=
  { rc with
    localRegion := rc.localRegion.write (getOffsetOfTrxOutcome S.toLogSettings) [transactionResult]
    journal := fun s => if s < S.LOG_REPLICATION_DEGREE then
        (rc.journal s).write (rc.nextLogEntryIndex * getEntrySize S.toLogSettings +
          getOffsetOfTrxOutcome S.toLogSettings) [transactionResult]
      else rc.journal s
    nextLogEntryIndex := (rc.nextLogEntryIndex + 1) % S.ENTRY_PER_LOG_JOURNAL }

def init (localRegion : Region Char) : RecoveryClient where
  nextLogEntryIndex := 0
  localRegion := localRegion
  journal _ _ := Char.ofNat 0

variable {S : RecoverySettings} {rc : RecoveryClient} {xs : List (Logged S)} {s : ℕ}

/-- A transaction that passes its lock check writes its command. -/
def log (rc : RecoveryClient) (x : Logged S) : RecoveryClient :=
  rc.writeCommandToLog S.toLogSettings x.timestampVector (x.trx.logMessage S)

def run (rc : RecoveryClient) (xs : List (Logged S)) : RecoveryClient := xs.foldl log rc

def records (rc : RecoveryClient) : List (Logged S) → List (List Char)
  | [] => []
  | x :: xs => rc.record x.timestampVector (x.trx.logMessage S) :: (rc.log x).records xs

/-- The records a journal can keep: the last `ENTRY_PER_LOG_JOURNAL` of them, or all if there are
fewer. -/
def kept (S : RecoverySettings) (records : List (List Char)) : List (List Char) :=
  records.drop (records.length - S.ENTRY_PER_LOG_JOURNAL)

def Retains (S : RecoverySettings) (journal : Region Char) (records : List (List Char)) : Prop :=
  ∃ entry : ℕ → ℕ,
    (∀ i < (kept S records).length, entry i < S.ENTRY_PER_LOG_JOURNAL) ∧
    (∀ i < (kept S records).length, ∀ j < (kept S records).length, entry i = entry j → i = j) ∧
    ∀ i record, (kept S records)[i]? = some record →
      journal.Contains (entry i * getEntrySize S.toLogSettings) record

/-! ## The snapshot -/

theorem within_snapshotStores {st : Region.Store Char} {timestampVector : List UInt32} {k : ℕ}
    (h : st ∈ snapshotStores timestampVector k) : st.Within (k * serializedTimestampCharCnt)
      (timestampVector.length * serializedTimestampCharCnt) := by
  obtain ⟨⟨number, i⟩, hi, rfl⟩ := List.mem_map.1 h
  have hlow := List.le_snd_of_mem_zipIdx hi
  have hhigh := List.snd_lt_add_of_mem_zipIdx hi
  simp only [Region.Store.Within, length_serializeUnsignedINT32_t, serializedTimestampCharCnt] at *
  omega

theorem contains_stores (buff : Region Char) (timestampVector : List UInt32) (k : ℕ) :
    (buff.stores (snapshotStores timestampVector k)).Contains (k * serializedTimestampCharCnt)
      (timestampVector.flatMap serializeUnsignedINT32_t) := by
  induction timestampVector generalizing buff k with
  | nil => exact Region.contains_nil _ _
  | cons number vector ih =>
    rw [List.flatMap_cons, Region.contains_append, length_serializeUnsignedINT32_t, ← Nat.succ_mul]
    refine ⟨fun j x hx => ?_, ih _ (k + 1)⟩
    -- the stores behind the first one are behind its eight characters
    have hj := (List.getElem?_eq_some_iff.1 hx).1
    rw [length_serializeUnsignedINT32_t] at hj
    have hwithin : ∀ st ∈ snapshotStores vector (k + 1), st.Within _ _ :=
      fun st hst => within_snapshotStores hst
    have hframe := Region.stores_of_forall
      (m := buff.write (k * serializedTimestampCharCnt) (serializeUnsignedINT32_t number))
      hwithin (i := k * serializedTimestampCharCnt + j) (.inl (by rw [Nat.succ_mul]; omega))
    exact hframe.trans (Region.write_add hx)

/-- The loop leaves the digits of all numbers one behind the other, and nothing else. -/
theorem serializeSnapshot_eq_write (buff : Region Char) (timestampVector : List UInt32) :
    serializeSnapshot buff timestampVector =
      buff.write 0 (timestampVector.flatMap serializeUnsignedINT32_t) := by
  have hcontains := contains_stores buff timestampVector 0
  rw [Nat.zero_mul] at hcontains
  refine hcontains.eq_write fun i hi => ?_
  refine Region.stores_of_forall (fun st hst => within_snapshotStores hst) ?_
  rwa [length_flatMap_serialize, ← Nat.zero_mul serializedTimestampCharCnt] at hi

theorem contains_serialize (rc : RecoveryClient) (timestampVector : List UInt32)
    (command : List Char) : (rc.serialize timestampVector command).Contains 0
      (timestampVector.flatMap serializeUnsignedINT32_t ++ command) := by
  have hlen := length_flatMap_serialize timestampVector
  rw [serialize, serializeSnapshot_eq_write, Region.contains_append, hlen, Nat.zero_add]
  refine ⟨?_, Region.contains_write _ _ _⟩
  refine (Region.contains_write_iff (.inl (by omega))).2 ?_
  exact Region.contains_write _ _ _

/-! ## The records -/

/-- The record is the beginning of the snapshot and the command. -/
theorem record_eq_take (rc : RecoveryClient) (timestampVector : List UInt32)
    (command : List Char) : rc.record timestampVector command =
      (timestampVector.flatMap serializeUnsignedINT32_t ++ command).take command.length := by
  have hread := ((contains_serialize rc timestampVector command).take command.length).read_eq
  rwa [List.length_take, Nat.min_eq_left (by simp)] at hread

theorem length_record (rc : RecoveryClient) (timestampVector : List UInt32)
    (command : List Char) : (rc.record timestampVector command).length = command.length :=
  Region.length_read _ _ _

theorem ne_zero_of_mem_serialize {number : UInt32} {d : Char}
    (h : d ∈ serializeUnsignedINT32_t number) : d ≠ Char.ofNat 0 := by
  have hcode : ∀ d ∈ code, d ≠ Char.ofNat 0 := by simp [code]
  obtain ⟨i, -, rfl⟩ := List.mem_map.1 h
  rw [List.getD_eq_getElem?_getD]
  cases hdigit : code[((number <<< UInt32.ofNat (4 * i)) >>> 28).toNat]? with
  | none => decide
  | some d => exact hcode d (List.mem_of_getElem? hdigit)

theorem exists_digit (rc : RecoveryClient) (x : Logged S) :
    ∃ d, (rc.record x.timestampVector (x.trx.logMessage S))[0]? = some d ∧ d ≠ Char.ofNat 0 := by
  have hpos : 0 < (x.trx.logMessage S).length := List.length_pos_iff.2 (x.trx.logMessage_ne_nil S)
  have hlen := x.length_eq
  have hcnt := S.clientsCnt_pos
  obtain ⟨ts, vector, hvector⟩ : ∃ ts vector, x.timestampVector = ts :: vector :=
    List.exists_cons_of_length_pos (by omega)
  obtain ⟨d, digits, hdigits⟩ : ∃ d digits, serializeUnsignedINT32_t ts = d :: digits := ⟨_, _, rfl⟩
  refine ⟨d, ?_, ne_zero_of_mem_serialize (hdigits ▸ List.mem_cons_self)⟩
  rw [record_eq_take, List.getElem?_take_of_lt hpos, hvector, List.flatMap_cons, hdigits]
  rfl

@[simp] theorem length_records (rc : RecoveryClient) (xs : List (Logged S)) :
    (rc.records xs).length = xs.length := by
  induction xs generalizing rc with
  | nil => rfl
  | cons x xs ih => rw [records, List.length_cons, ih, List.length_cons]

theorem exists_digit_of_mem {r : List Char} (hr : r ∈ rc.records xs) :
    ∃ d, r[0]? = some d ∧ d ≠ Char.ofNat 0 := by
  induction xs generalizing rc with
  | nil => cases hr
  | cons x xs ih =>
    rcases List.mem_cons.1 hr with rfl | hr
    · exact rc.exists_digit x
    · exact ih hr

/-! ## The journal -/

theorem writeCommandToLog_journal {L : LogSettings} (rc : RecoveryClient)
    (timestampVector : List UInt32) (command : List Char) (hs : s < L.LOG_REPLICATION_DEGREE) :
    (rc.writeCommandToLog L timestampVector command).journal s =
      (rc.journal s).write (rc.nextLogEntryIndex * getEntrySize L)
        (rc.record timestampVector command) :=
  if_pos hs

/-- The cursor stays at the first entry, so the other entries are not written. -/
theorem run_journal_of_ge (hindex : rc.nextLogEntryIndex = 0) (hs : s < S.LOG_REPLICATION_DEGREE)
    (xs : List (Logged S)) {i : ℕ} (hi : getEntrySize S.toLogSettings ≤ i) :
    (rc.run xs).journal s i = rc.journal s i := by
  induction xs generalizing rc with
  | nil => rfl
  | cons x xs ih =>
    have hlt := x.command_lt
    have hlen := rc.length_record x.timestampVector (x.trx.logMessage S)
    calc (rc.run (x :: xs)).journal s i = (rc.log x).journal s i := ih hindex
      _ = rc.journal s i := by
        rw [log, writeCommandToLog_journal _ _ _ hs, hindex, Nat.zero_mul]
        refine Region.write_of_ge ?_
        rw [getEntrySize] at hi
        omega

theorem run_contains_last (hindex : rc.nextLogEntryIndex = 0) (hs : s < S.LOG_REPLICATION_DEGREE)
    (xs : List (Logged S)) {r : List Char} (hr : (rc.records xs).getLast? = some r) :
    ((rc.run xs).journal s).Contains (0 * getEntrySize S.toLogSettings) r := by
  induction xs generalizing rc with
  | nil => cases hr
  | cons x xs ih =>
    rw [records, List.getLast?_cons] at hr
    cases hlast : ((rc.log x).records xs).getLast? with
    | some r' =>
      rw [hlast, Option.getD_some, Option.some.injEq] at hr
      exact ih hindex (hr ▸ hlast)
    | none =>
      rw [hlast, Option.getD_none, Option.some.injEq] at hr
      subst hr
      obtain rfl : xs = [] := by
        have hnil := List.getLast?_eq_none_iff.1 hlast
        rw [← List.length_eq_zero_iff, length_records] at hnil
        exact List.length_eq_zero_iff.1 hnil
      change ((rc.log x).journal s).Contains _ _
      rw [log, writeCommandToLog_journal _ _ _ hs, hindex]
      exact Region.contains_write _ _ _

theorem length_kept (rc : RecoveryClient) (xs : List (Logged S)) :
    (kept S (rc.records xs)).length = min xs.length S.ENTRY_PER_LOG_JOURNAL := by
  rw [kept, List.length_drop, length_records]
  omega

/-- Two records are not kept if there is more than one entry: one of them would have to be outside
the first entry, where nothing is written. -/
theorem not_retains {localRegion : Region Char} (hs : s < S.LOG_REPLICATION_DEGREE)
    (hxs : 1 < xs.length) (hjournal : 1 < S.ENTRY_PER_LOG_JOURNAL) :
    ¬ Retains S (((init localRegion).run xs).journal s) ((init localRegion).records xs) := by
  rintro ⟨entry, -, hinj, hcontains⟩
  have hkept := length_kept (init localRegion) xs
  obtain ⟨i, hi, hentry⟩ : ∃ i < (kept S ((init localRegion).records xs)).length,
      entry i ≠ 0 := by
    rcases eq_or_ne (entry 0) 0 with h0 | h0
    · refine ⟨1, by omega, ?_⟩
      intro h1
      have h01 := hinj 0 (by omega) 1 (by omega) (h0.trans h1.symm)
      omega
    · exact ⟨0, by omega, h0⟩
  have hget := List.getElem?_eq_getElem hi
  obtain ⟨d, hd, hne⟩ := exists_digit_of_mem (List.mem_of_mem_drop (List.mem_of_getElem? hget))
  have hwritten := hcontains i _ hget 0 d hd
  have hbehind : getEntrySize S.toLogSettings ≤ entry i * getEntrySize S.toLogSettings + 0 :=
    Nat.le_mul_of_pos_left _ (Nat.pos_of_ne_zero hentry)
  rw [run_journal_of_ge rfl hs xs hbehind] at hwritten
  exact hne hwritten.symm

theorem retains_of_length_kept_le {localRegion : Region Char} (hs : s < S.LOG_REPLICATION_DEGREE)
    (hone : (kept S ((init localRegion).records xs)).length ≤ 1) :
    Retains S (((init localRegion).run xs).journal s) ((init localRegion).records xs) := by
  refine ⟨fun _ => 0, ?_, ?_, ?_⟩
  · intro i hi
    exact S.journal_pos
  · intro i hi j hj _
    omega
  · intro i r hr
    have hi := (List.getElem?_eq_some_iff.1 hr).1
    obtain rfl : i = 0 := by omega
    have hlast : (kept S ((init localRegion).records xs)).getLast? = some r := by
      rw [List.getLast?_eq_getElem?, ← hr]
      congr 1
      omega
    refine run_contains_last rfl hs xs ?_
    have hlen := length_kept (init localRegion) xs
    rw [kept, List.length_drop] at hi
    rwa [kept, List.getLast?_drop, if_neg (by omega)] at hlast

/-- **What a journal retains.** After any run of transactions that pass their lock check, the
journal of the client on a log server contains the last `ENTRY_PER_LOG_JOURNAL` log records, or all
if there are fewer, in different entries, if and only if there was at most one transaction or a
journal has only one entry. -/
theorem retains_iff (S : RecoverySettings) (localRegion : Region Char) (xs : List (Logged S))
    (s : Fin S.LOG_REPLICATION_DEGREE) :
    Retains S (((init localRegion).run xs).journal s) ((init localRegion).records xs) ↔
      xs.length ≤ 1 ∨ S.ENTRY_PER_LOG_JOURNAL = 1 := by
  have hpos := S.journal_pos
  constructor
  · intro h
    by_contra hmany
    rw [not_or, Nat.not_le] at hmany
    exact not_retains s.isLt hmany.1 (by omega) h
  · intro hone
    refine retains_of_length_kept_le s.isLt ?_
    rw [length_kept]
    omega

end RecoveryClient

def RecoverySettings.shipped : RecoverySettings where
  LOG_REPLICATION_DEGREE := 2
  ENTRY_PER_LOG_JOURNAL := 100
  COMMAND_LOG_SIZE := 200
  clientsCnt := 4
  printAmount _ := "1"
  journal_pos := by decide
  clientsCnt_pos := by decide

def twoDeliveries : List (Logged .shipped) :=
  [⟨.delivery ⟨0, 1, 0⟩ 0, [4, 0, 0, 0], rfl, by decide⟩,
    ⟨.delivery ⟨0, 1, 0⟩ 1, [8, 0, 0, 0], rfl, by decide⟩]

/-- **The second record overwrites the first.** A journal has a hundred entries, but after two
transactions it contains only the record of the second one. -/
theorem RecoveryClient.retains_fails_twoDeliveries :
    ¬ Retains .shipped (((init fun _ => Char.ofNat 0).run twoDeliveries).journal 0)
      ((init fun _ => Char.ofNat 0).records twoDeliveries) :=
  not_retains (by decide) (by decide) (by decide)

end RdmaSnapshot
