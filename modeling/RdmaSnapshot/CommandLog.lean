import Mathlib.Tactic.IntervalCases
import RdmaSnapshot.Recovery
import RdmaSnapshot.Lib.SelfDelimiting

/-!
# What the command log contains

Two questions about the log that a replay would depend on: what a journal entry holds once
`writeCommandToLog` has returned, and whether the command of a NewOrder determines the order.

`writeCommandToLog` serializes the snapshot and, behind it, the command into a local buffer, and
then transfers as many characters as the command has. The end of the record, as long as the
snapshot is, is not transferred. The command of a NewOrder lists the items and their supply
warehouses, but not the quantities.
-/

namespace RdmaSnapshot

open LogBuffer

/-! ## The record of a command -/

/-- The eight hexadecimal digits of a number, the most significant first. -/
def hexadecimal (n : ℕ) : List Char :=
  (List.range 8).map fun i => code.getD (n / 16 ^ (7 - i) % 16) '0'

theorem serializeUnsignedINT32_t_eq_hexadecimal (number : UInt32) :
    serializeUnsignedINT32_t number = hexadecimal number.toNat := by
  refine List.map_congr_left fun i hi => congrArg (fun d => code.getD d '0') ?_
  have hlt : i < 8 := List.mem_range.1 hi
  have hnumber := number.toNat_lt
  rw [UInt32.toNat_shiftRight, UInt32.toNat_shiftLeft, Nat.shiftLeft_eq, Nat.shiftRight_eq_div_pow]
  interval_cases i <;> simp <;> omega

namespace RecoveryClient

variable {L : LogSettings} {rc : RecoveryClient} {timestampVector : List UInt32}
  {command : List Char}

def recordText (timestampVector : List UInt32) (command : List Char) : List Char :=
  timestampVector.flatMap (fun number => hexadecimal number.toNat) ++ command

/-- `after` differs from `before` by the record of a command: it is in the journal entry under the
cursor, on every log server, and nothing outside that entry was changed. -/
structure HoldsRecord (L : LogSettings) (timestampVector : List UInt32) (command : List Char)
    (before after : RecoveryClient) : Prop where
  record : ∀ s < L.LOG_REPLICATION_DEGREE,
    (after.journal s).Contains (before.nextLogEntryIndex * getEntrySize L)
      (recordText timestampVector command)
  frame : ∀ s i,
    (s < L.LOG_REPLICATION_DEGREE → i < before.nextLogEntryIndex * getEntrySize L ∨
      (before.nextLogEntryIndex + 1) * getEntrySize L ≤ i) →
    after.journal s i = before.journal s i

theorem flatMap_serialize (timestampVector : List UInt32) :
    timestampVector.flatMap serializeUnsignedINT32_t =
      timestampVector.flatMap fun number => hexadecimal number.toNat :=
  congrArg timestampVector.flatMap (funext serializeUnsignedINT32_t_eq_hexadecimal)

theorem record_eq_take_recordText : rc.record timestampVector command =
    (recordText timestampVector command).take command.length := by
  rw [record_eq_take, flatMap_serialize]
  rfl

/-- A journal holds the record exactly if the part that is not transferred was there before. -/
theorem contains_record_iff {s : ℕ} (hs : s < L.LOG_REPLICATION_DEGREE) :
    ((rc.writeCommandToLog L timestampVector command).journal s).Contains
        (rc.nextLogEntryIndex * getEntrySize L) (recordText timestampVector command) ↔
      (rc.journal s).Contains (rc.nextLogEntryIndex * getEntrySize L + command.length)
        ((recordText timestampVector command).drop command.length) := by
  have hlen : ((recordText timestampVector command).take command.length).length =
      command.length := by
    rw [List.length_take, recordText, List.length_append]
    omega
  have hsplit := List.take_append_drop command.length (recordText timestampVector command)
  generalize hfirst : (recordText timestampVector command).take command.length = first at *
  generalize (recordText timestampVector command).drop command.length = last at *
  rw [writeCommandToLog_journal _ _ _ hs, record_eq_take_recordText, hfirst, ← hsplit,
    Region.contains_append, hlen]
  constructor
  · rintro ⟨-, h⟩
    exact (Region.contains_write_iff (.inr (by rw [hlen]))).1 h
  · intro h
    exact ⟨Region.contains_write _ _ _, (Region.contains_write_iff (.inr (by rw [hlen]))).2 h⟩

/-- **The contents of a log record.** After `writeCommandToLog` the journal entry under the cursor
starts, on every log server, with the digits of the snapshot and the command, and nothing else was
changed, exactly if everything behind the first `commandSize` characters of the record was in the
entry before. -/
theorem holdsRecord_iff (L : LogSettings) (rc : RecoveryClient) (timestampVector : List UInt32)
    (command : List Char) (hcommand : command.length < L.COMMAND_LOG_SIZE) :
    HoldsRecord L timestampVector command rc (rc.writeCommandToLog L timestampVector command) ↔
      ∀ s < L.LOG_REPLICATION_DEGREE,
        (rc.journal s).Contains (rc.nextLogEntryIndex * getEntrySize L + command.length)
          ((recordText timestampVector command).drop command.length) := by
  constructor
  · intro h s hs
    exact (contains_record_iff hs).1 (h.record s hs)
  · intro h
    refine ⟨fun s hs => (contains_record_iff hs).2 (h s hs), fun s i hi => ?_⟩
    by_cases hs : s < L.LOG_REPLICATION_DEGREE
    · have hlen : (rc.record timestampVector command).length ≤ getEntrySize L := by
        rw [length_record, getEntrySize]
        omega
      rw [writeCommandToLog_journal _ _ _ hs]
      rcases hi hs with hi | hi
      · exact Region.write_of_lt hi
      · rw [Nat.succ_mul] at hi
        exact Region.write_of_ge (by omega)
    · exact congrFun (if_neg hs) i

end RecoveryClient

def LogSettings.oneClient : LogSettings := ⟨2, 200, 1⟩

def oneItemCommand : List Char := text ["NewOrderTrx:w0|d1|c7|n1|5,0|"]

def RecoveryClient.recorded : RecoveryClient where
  nextLogEntryIndex := 0
  localRegion _ := Char.ofNat 0
  journal _ := Region.write (fun _ => Char.ofNat 0) 0 (recordText [4] oneItemCommand)

/-- A record that was there before is there afterwards. -/
theorem RecoveryClient.holdsRecord_recorded :
    HoldsRecord .oneClient [4] oneItemCommand recorded
      (recorded.writeCommandToLog .oneClient [4] oneItemCommand) := by
  refine (holdsRecord_iff _ _ _ _ (by decide)).2 fun s _ => ?_
  have h : Region.Contains (recorded.journal s) 0 (recordText [4] oneItemCommand) :=
    Region.contains_write (fun _ => Char.ofNat 0) 0 (recordText [4] oneItemCommand)
  have hlen : ((recordText [4] oneItemCommand).take oneItemCommand.length).length =
      oneItemCommand.length := by decide
  rw [← List.take_append_drop oneItemCommand.length (recordText [4] oneItemCommand),
    Region.contains_append, hlen] at h
  exact h.2

/-- **A truncated record.** In a journal that was filled with zeros, the end of the command is
missing. -/
theorem RecoveryClient.holdsRecord_fails_init :
    ¬ HoldsRecord .oneClient [4] oneItemCommand (init fun _ => Char.ofNat 0)
      ((init fun _ => Char.ofNat 0).writeCommandToLog .oneClient [4] oneItemCommand) := by
  intro h
  have hlast := (contains_record_iff (by decide)).1 (h.record 0 (by decide))
  have hzero : Char.ofNat 0 = '|' := hlast 0 '|' (by decide)
  revert hzero
  decide

/-! ## The command of a NewOrder -/

namespace NewOrderCart.Fields

/-- What the command says about an item. -/
def itemKey (value : NewOrderItem) : UInt32 × UInt16 := (value.I_ID, value.OL_SUPPLY_W_ID)

def SameButQuantities (a b : Fields) : Prop :=
  a.wID = b.wID ∧ a.dID = b.dID ∧ a.cID = b.cID ∧ a.items.map itemKey = b.items.map itemKey

/-- Two carts agree on everything a NewOrder depends on. -/
def Agree (a b : Fields) : Prop :=
  a.wID = b.wID ∧ a.dID = b.dID ∧ a.cID = b.cID ∧
    a.items.map (fun value => (value.I_ID, value.OL_SUPPLY_W_ID, value.OL_QUANTITY)) =
      b.items.map fun value => (value.I_ID, value.OL_SUPPLY_W_ID, value.OL_QUANTITY)

/-! ### Decimal numbers -/

theorem toList_toString (n : ℕ) : (toString n).toList = Nat.toDigits 10 n := Nat.toList_repr

theorem isDigit_of_mem_toString {n : ℕ} {x : Char} (h : x ∈ (toString n).toList) :
    x.isDigit = true := by
  rw [toList_toString] at h
  exact Nat.isDigit_of_mem_toDigits (by decide) (by decide) h

theorem toList_toString_injective : Function.Injective fun n : ℕ => (toString n).toList := by
  intro m n h
  simp only [toList_toString] at h
  rw [← Nat.ofDigitChars_toDigits (b := 10) (n := m) (by decide) (by decide), h,
    Nat.ofDigitChars_toDigits (by decide) (by decide)]

theorem selfDelimiting_decimal {α : Type} {g : α → ℕ} (hg : Function.Injective g) {x : Char}
    (hx : x.isDigit = false) : SelfDelimiting fun a => (toString (g a)).toList ++ [x] := by
  refine SelfDelimiting.separator (toList_toString_injective.comp hg) fun a hmem => ?_
  rw [isDigit_of_mem_toString hmem] at hx
  cases hx

theorem toList_toString_negSucc (n : ℕ) :
    (toString (Int.negSucc n)).toList = '-' :: (toString (n + 1)).toList :=
  String.toList_append

theorem minus_notMem_toString (n : ℕ) : '-' ∉ (toString n).toList := by
  intro h
  cases isDigit_of_mem_toString h

theorem toList_toString_int_injective : Function.Injective fun i : ℤ => (toString i).toList := by
  -- a number with a sign differs from one without by the sign
  have hsign : ∀ m n : ℕ, (toString (Int.ofNat m)).toList ≠ (toString (Int.negSucc n)).toList := by
    intro m n h
    rw [toList_toString_negSucc] at h
    exact minus_notMem_toString m (h ▸ List.mem_cons_self)
  intro i j h
  cases i with
  | ofNat m =>
    cases j with
    | ofNat n => exact congrArg Int.ofNat (toList_toString_injective h)
    | negSucc n => exact absurd h (hsign m n)
  | negSucc m =>
    cases j with
    | ofNat n => exact absurd h.symm (hsign n m)
    | negSucc n =>
      simp only [toList_toString_negSucc, List.cons.injEq, true_and] at h
      have := toList_toString_injective h
      exact congrArg Int.negSucc (by omega)

theorem isDigit_or_eq_of_mem_toString_int {i : ℤ} {x : Char} (h : x ∈ (toString i).toList) :
    x.isDigit = true ∨ x = '-' := by
  cases i with
  | ofNat n => exact .inl (isDigit_of_mem_toString h)
  | negSucc n =>
    rw [toList_toString_negSucc, List.mem_cons] at h
    rcases h with h | h
    · exact .inr h
    · exact .inl (isDigit_of_mem_toString h)

theorem selfDelimiting_int {α : Type} {g : α → ℤ} (hg : Function.Injective g) {x : Char}
    (hx : x.isDigit = false) (hminus : x ≠ '-') :
    SelfDelimiting fun a => (toString (g a)).toList ++ [x] := by
  refine SelfDelimiting.separator (toList_toString_int_injective.comp hg) fun a hmem => ?_
  rcases isDigit_or_eq_of_mem_toString_int hmem with hdigit | hdigit
  · rw [hdigit] at hx
    cases hx
  · exact hminus hdigit

/-! ### Reading a command -/

def headerText (p : UInt16 × UInt8 × UInt32 × ℕ) : List Char :=
  "NewOrderTrx:w".toList ++ ((toString p.1.toNat).toList ++ ['|'] ++ (['d'] ++
    ((toString p.2.1.toNat).toList ++ ['|'] ++ (['c'] ++
      ((toString p.2.2.1.toInt32.toInt).toList ++ ['|'] ++ (['n'] ++
        ((toString p.2.2.2).toList ++ ['|'])))))))

def itemText (p : UInt32 × UInt16) : List Char :=
  (toString p.1.toNat).toList ++ [','] ++ ((toString p.2.toNat).toList ++ ['|'])

theorem selfDelimiting_headerText : SelfDelimiting headerText := by
  have hsigned : Function.Injective fun n : UInt32 => n.toInt32.toInt := by
    intro m n h
    rw [← UInt32.toUInt32_toInt32 m, Int32.toInt_inj.1 h, UInt32.toUInt32_toInt32]
  have hcnt := selfDelimiting_decimal (x := '|') Function.injective_id rfl
  have hcID := (selfDelimiting_int (x := '|') hsigned rfl (by decide)).prod (hcnt.append_left ['n'])
  have hdID := (selfDelimiting_decimal (x := '|') (fun _ _ => UInt8.toNat_inj.1) rfl).prod
    (hcID.append_left ['c'])
  have hwID := (selfDelimiting_decimal (x := '|') (fun _ _ => UInt16.toNat_inj.1) rfl).prod
    (hdID.append_left ['d'])
  exact hwID.append_left _

theorem selfDelimiting_itemText : SelfDelimiting itemText :=
  (selfDelimiting_decimal (x := ',') (fun _ _ => UInt32.toNat_inj.1) rfl).prod
    (selfDelimiting_decimal (x := '|') (fun _ _ => UInt16.toNat_inj.1) rfl)

theorem itemText_ne_nil (p : UInt32 × UInt16) : itemText p ≠ [] := by
  simp [itemText]

theorem text_item (value : NewOrderItem) :
    text [toString value.I_ID, ",", toString value.OL_SUPPLY_W_ID, "|"] =
      itemText (itemKey value) := by
  simp only [text, List.flatMap_cons, List.flatMap_nil, itemText, itemKey, List.append_assoc]
  rfl

theorem text_header (cart : Fields) :
    text ["NewOrderTrx:", "w", toString cart.wID, "|d", toString cart.dID, "|c",
      toString cart.cID.toInt32, "|n", toString cart.items.length, "|"] =
      headerText (cart.wID, cart.dID, cart.cID, cart.items.length) := by
  have hname : "NewOrderTrx:w".toList = "NewOrderTrx:".toList ++ "w".toList := by decide
  have hdID : "|d".toList = ['|'] ++ ['d'] := by decide
  have hcID : "|c".toList = ['|'] ++ ['c'] := by decide
  have hcnt : "|n".toList = ['|'] ++ ['n'] := by decide
  have hend : "|".toList = ['|'] := by decide
  have hw : toString cart.wID = toString cart.wID.toNat := rfl
  have hd : toString cart.dID = toString cart.dID.toNat := rfl
  have hc : toString cart.cID.toInt32 = toString cart.cID.toInt32.toInt := rfl
  rw [hw, hd, hc]
  unfold headerText
  simp only [text, List.flatMap_cons, List.flatMap_nil, List.append_assoc, hname, hdID, hcID, hcnt,
    hend, List.append_nil]

theorem logMessage_eq_text (cart : Fields) :
    cart.logMessage = headerText (cart.wID, cart.dID, cart.cID, cart.items.length) ++
      (cart.items.map itemKey).flatMap itemText := by
  rw [logMessage, text, List.flatMap_append, ← text, text_header, List.flatMap_assoc,
    List.flatMap_map]
  congr 2
  exact funext text_item

/-- Two carts have the same command exactly if they agree on everything but quantities. -/
theorem logMessage_eq_iff (a b : Fields) :
    a.logMessage = b.logMessage ↔ SameButQuantities a b := by
  rw [logMessage_eq_text, logMessage_eq_text]
  constructor
  · intro h
    obtain ⟨hheader, hitems⟩ := selfDelimiting_headerText _ _ _ _ h
    simp only [Prod.mk.injEq] at hheader
    obtain ⟨hw, hd, hc, -⟩ := hheader
    exact ⟨hw, hd, hc, selfDelimiting_itemText.flatMap_injective itemText_ne_nil hitems⟩
  · rintro ⟨hw, hd, hc, hitems⟩
    have hlen : a.items.length = b.items.length := by
      simpa using congrArg List.length hitems
    rw [hw, hd, hc, hlen, hitems]

theorem map_pair_iff (l l' : List NewOrderItem) :
    l.map (fun value => (value.I_ID, value.OL_SUPPLY_W_ID, value.OL_QUANTITY)) =
        l'.map (fun value => (value.I_ID, value.OL_SUPPLY_W_ID, value.OL_QUANTITY)) ↔
      l.map itemKey = l'.map itemKey ∧ l.map (·.OL_QUANTITY) = l'.map (·.OL_QUANTITY) := by
  induction l generalizing l' with
  | nil => cases l' <;> simp
  | cons x l ih =>
    cases l' with
    | nil => simp
    | cons y l' =>
      simp only [List.map_cons, List.cons.injEq, ih, itemKey, Prod.mk.injEq]
      tauto

/-- **What the command of a NewOrder determines.** Equal commands imply equal orders for two carts
exactly if the carts do not differ in quantities only. -/
theorem logMessage_determines_iff (a b : Fields) :
    (a.logMessage = b.logMessage → Agree a b) ↔
      (SameButQuantities a b → a.items.map (·.OL_QUANTITY) = b.items.map (·.OL_QUANTITY)) := by
  rw [logMessage_eq_iff]
  constructor
  · intro h hsame
    obtain ⟨-, -, -, hitems⟩ := h hsame
    exact ((map_pair_iff _ _).1 hitems).2
  · intro h hsame
    have hquantities := h hsame
    obtain ⟨hw, hd, hc, hkeys⟩ := hsame
    exact ⟨hw, hd, hc, (map_pair_iff _ _).2 ⟨hkeys, hquantities⟩⟩

/-- **Two orders with the same command.** One asks for one piece of item 5, the other for two. -/
theorem logMessage_fails_quantity :
    (Fields.mk 0 1 7 [⟨5, 0, 1⟩]).logMessage = (Fields.mk 0 1 7 [⟨5, 0, 2⟩]).logMessage ∧
      ¬ Agree (Fields.mk 0 1 7 [⟨5, 0, 1⟩]) (Fields.mk 0 1 7 [⟨5, 0, 2⟩]) := by
  refine ⟨rfl, ?_⟩
  rintro ⟨-, -, -, hitems⟩
  simp at hitems

end NewOrderCart.Fields

end RdmaSnapshot
