import RdmaSnapshot.Populate

/-!
# Fetching an older version

A reader whose snapshot does not cover the head of a record searches the pointer list for the
newest entry it may read, and fetches that version from the ring. The list is ordered from new to
old while the ring is circular, so the slot of an entry is not its position in the list. The client
passes the position.
-/

namespace RdmaSnapshot

open DBExecutor

variable {B : Type} {V o k : ℕ} {r : Record B} {ts : Timestamp}

/-! ## The chain of versions -/

/-- The ring slot `(o - 1 - k) mod V` of list entry `k`, when the head has offset `o`. -/
def ringSlot (V o k : ℕ) : ℕ := (o + (V - 1 - k)) % V

/-- A pointer list and a ring of `V` entries correspond: an entry that is not deleted names its ring
slot, which holds the version with the entry's timestamp. -/
structure VersionChain (V : ℕ) (r : Record B) : Prop where
  length_eq : r.tsList.length = V
  offset_eq : ∀ k ts, r.tsList[k]? = some ts → ts.isDeleted = false →
    ts.versionOffset.toNat = ringSlot V r.head.writeTimestamp.versionOffset.toNat k
  stored : ∀ k ts, r.tsList[k]? = some ts → ts.isDeleted = false →
    (r.olderVersions (ringSlot V r.head.writeTimestamp.versionOffset.toNat k)).writeTimestamp = ts

/-- An update of a record by client `c` with commit timestamp `cts`: the pointer list is shifted,
the head goes to the ring, and a head with body `body` is installed. -/
def Record.update (cfg : Config) (r : Record B) (c : ClientID) (cts : UInt32) (body : B) :
    Record B where
  head := ⟨newTimestamp cfg r.head.writeTimestamp c cts, body⟩
  tsList := pushPointer cfg r.head.writeTimestamp r.tsList
  olderVersions := Function.update r.olderVersions r.head.writeTimestamp.versionOffset.toNat r.head

theorem Record.update_olderVersions (cfg : Config) (r : Record B) (c : ClientID) (cts : UInt32)
    (body : B) :
    (r.update cfg c cts body).olderVersions =
      Function.update r.olderVersions r.head.writeTimestamp.versionOffset.toNat r.head := rfl

namespace DBExecutor

@[simp] theorem length_shiftRight (n : ℕ) (l : List Timestamp) :
    (shiftRight n l).length = l.length := by
  induction n generalizing l with
  | zero => rfl
  | succ n ih => rw [shiftRight, ih, List.length_set]

theorem getElem?_shiftRight_of_lt {n j : ℕ} {l : List Timestamp} (h : n < j) :
    (shiftRight n l)[j]? = l[j]? := by
  induction n generalizing l with
  | zero => rfl
  | succ n ih => rw [shiftRight, ih (by omega), List.getElem?_set_ne (by omega)]

theorem getElem?_shiftRight {n j : ℕ} {l : List Timestamp} (hn : n < l.length) (hj : j < n) :
    (shiftRight n l)[j + 1]? = l[j]? := by
  induction n generalizing l with
  | zero => omega
  | succ n ih =>
    rw [shiftRight]
    rcases Nat.lt_succ_iff_lt_or_eq.1 hj with hjn | rfl
    · rw [ih (by rw [List.length_set]; omega) hjn, List.getElem?_set_ne (by omega)]
    · rw [getElem?_shiftRight_of_lt (by omega), List.getElem?_set_self hn,
        List.getD_eq_getElem?_getD,
        List.getElem?_eq_getElem (by omega), Option.getD_some]

/-- The list after an update: the old head in front, the last entry dropped. -/
theorem pushPointer_eq {cfg : Config} (l : List Timestamp) (hl : l.length = cfg.VERSION_NUM)
    (hV : 0 < cfg.VERSION_NUM) (oldHead : Timestamp) :
    pushPointer cfg oldHead l = oldHead :: l.dropLast := by
  refine List.ext_getElem? fun j => ?_
  cases j with
  | zero =>
    rw [pushPointer, List.getElem?_set_self (by rw [length_shiftRight]; omega)]
    rfl
  | succ j =>
    rw [pushPointer, List.getElem?_set_ne (by omega), List.getElem?_cons_succ]
    rcases Nat.lt_or_ge j (cfg.VERSION_NUM - 1) with hj | hj
    · rw [getElem?_shiftRight (by omega) hj, List.getElem?_dropLast, if_pos (by omega)]
    · rw [List.getElem?_eq_none (by rw [length_shiftRight]; omega),
        List.getElem?_eq_none (by rw [List.length_dropLast]; omega)]

end DBExecutor

theorem ringSlot_zero (ho : o < V) : ringSlot V ((o + 1) % V) 0 = o := by
  rw [ringSlot, Nat.mod_add_mod]
  have h : o + 1 + (V - 1 - 0) = o + V := by omega
  rw [h, Nat.add_mod_right, Nat.mod_eq_of_lt ho]

theorem ringSlot_succ (hk : k + 1 < V) : ringSlot V ((o + 1) % V) (k + 1) = ringSlot V o k := by
  rw [ringSlot, Nat.mod_add_mod, ringSlot]
  congr 1
  omega

theorem ringSlot_ne (ho : o < V) (hk : k + 1 < V) : ringSlot V o k ≠ o := by
  rw [ringSlot]
  rcases Nat.lt_or_ge (o + (V - 1 - k)) V with h | h
  · rw [Nat.mod_eq_of_lt h]
    omega
  · rw [Nat.mod_eq_sub_mod h, Nat.mod_eq_of_lt (by omega)]
    omega

theorem toNat_nextVersionOffset {cfg : Config} (hV : cfg.VERSION_NUM ≤ 256)
    (ho : ts.versionOffset.toNat < cfg.VERSION_NUM) :
    (nextVersionOffset cfg ts).toNat = (ts.versionOffset.toNat + 1) % cfg.VERSION_NUM := by
  have hpos : 0 < cfg.VERSION_NUM := Nat.zero_lt_of_lt ho
  have hlt := Nat.mod_lt ((ts.versionOffset + 1).toNat) hpos
  rw [nextVersionOffset, UInt8.toNat_ofNat_of_lt' (show _ < 2 ^ 8 by omega), UInt8.toNat_add]
  change (ts.versionOffset.toNat + 1) % 2 ^ 8 % cfg.VERSION_NUM = _
  -- The sum leaves the byte only if the ring has 256 slots, and then the remainder is the same.
  rcases Nat.lt_or_ge (ts.versionOffset.toNat + 1) (2 ^ 8) with h | h
  · rw [Nat.mod_eq_of_lt h]
  · have h256 : cfg.VERSION_NUM = 256 := by omega
    rw [h256, Nat.mod_mod]

/-- **An update keeps the correspondence of list and ring.** -/
theorem VersionChain.update {cfg : Config} (h : VersionChain cfg.VERSION_NUM r)
    (hV : cfg.VERSION_NUM ≤ 256)
    (ho : r.head.writeTimestamp.versionOffset.toNat < cfg.VERSION_NUM) (c : ClientID) (cts : UInt32)
    (body : B) : VersionChain cfg.VERSION_NUM (r.update cfg c cts body) := by
  have hpos : 0 < cfg.VERSION_NUM := Nat.zero_lt_of_lt ho
  have hoffset : (r.update cfg c cts body).head.writeTimestamp.versionOffset.toNat =
      (r.head.writeTimestamp.versionOffset.toNat + 1) % cfg.VERSION_NUM :=
    toNat_nextVersionOffset hV ho
  have hlist : (r.update cfg c cts body).tsList = r.head.writeTimestamp :: r.tsList.dropLast :=
    pushPointer_eq r.tsList h.length_eq hpos _
  -- Behind the old head the list holds what it held before, one place further.
  have hshift {k : ℕ} {ts : Timestamp} (hk : r.tsList.dropLast[k]? = some ts) :
      k + 1 < cfg.VERSION_NUM ∧ r.tsList[k]? = some ts := by
    have hlt := (List.getElem?_eq_some_iff.1 hk).1
    rw [List.length_dropLast, h.length_eq] at hlt
    rw [List.getElem?_dropLast, if_pos (by rw [h.length_eq]; exact hlt)] at hk
    exact ⟨by omega, hk⟩
  refine ⟨?_, ?_, ?_⟩
  · rw [hlist, List.length_cons, List.length_dropLast, h.length_eq]
    omega
  · intro k ts hk halive
    rw [hoffset]
    rw [hlist] at hk
    cases k with
    | zero =>
      cases hk
      rw [ringSlot_zero ho]
    | succ k =>
      obtain ⟨hk', hts⟩ := hshift hk
      rw [ringSlot_succ hk', h.offset_eq k ts hts halive]
  · intro k ts hk halive
    rw [hoffset]
    rw [hlist] at hk
    cases k with
    | zero =>
      cases hk
      rw [ringSlot_zero ho, Record.update_olderVersions, Function.update_self]
    | succ k =>
      obtain ⟨hk', hts⟩ := hshift hk
      rw [ringSlot_succ hk', Record.update_olderVersions,
        Function.update_of_ne (ringSlot_ne ho hk'), h.stored k ts hts halive]

/-! ## The version check of a NewOrder -/

/-- The Warehouse version on which a NewOrder of client `c` goes on: it reads head and pointer list
of the record, checks the head and, if need be, fetches an older version; the record does not change
in the meantime. -/
def NewOrderTransaction.warehouseAfterCheck (cfg : Config) (s : State) (c : ClientID) (cl : Client)
    (wID : UInt16) : Version Warehouse :=
  let r := s.mem (.warehouse wID)
  let posts := fetchOlderVersion c cl r.head.writeTimestamp r.tsList fun ind ts =>
    retrieveWarehouseOlderVersion cfg wID ind ts true
  ((posts.getD []).foldl (fun m p => s.landLocal p.verb m)
    ((buffers cl).setHead .warehouse 0 r.head)).head .warehouse 0

/-- The client passes the position of the list entry as the number of the ring slot. -/
theorem NewOrderTransaction.warehouseAfterCheck_eq {cfg : Config} {s : State} {c : ClientID}
    {cl : Client} {wID : UInt16} (hcode : cfg.idealOlderVersions = false)
    (hhead : cl.isRecordAccessible c (s.mem (.warehouse wID)).head.writeTimestamp = false)
    (hk : cl.findValidVersion c (s.mem (.warehouse wID)).tsList = some k) :
    warehouseAfterCheck cfg s c cl wID = (s.mem (.warehouse wID)).olderVersions k := by
  simp [warehouseAfterCheck, fetchOlderVersion, hhead, hk, retrieveWarehouseOlderVersion,
    retrieveOlderVersion, hcode, State.landLocal]

/-- In a ring of `V` slots behind a head with offset `o`, whenever the search returns entry `k`, the
version then fetched has the timestamp of entry `k`. -/
def FetchesSelected (V o k : ℕ) : Prop :=
  ∀ (cfg : Config) (s : State) (c : ClientID) (cl : Client) (wID : UInt16),
    cfg.VERSION_NUM = V → cfg.idealOlderVersions = false →
    VersionChain V (s.mem (.warehouse wID)) →
    (s.mem (.warehouse wID)).head.writeTimestamp.versionOffset.toNat = o →
    cl.isRecordAccessible c (s.mem (.warehouse wID)).head.writeTimestamp = false →
    cl.findValidVersion c (s.mem (.warehouse wID)).tsList = some k →
    (s.mem (.warehouse wID)).tsList[k]? =
      some (NewOrderTransaction.warehouseAfterCheck cfg s c cl wID).writeTimestamp

theorem Client.exists_of_findValidVersion {c : ClientID} {cl : Client} {l : List Timestamp}
    (h : cl.findValidVersion c l = some k) :
    ∃ ts, l[k]? = some ts ∧ cl.isRecordAccessible c ts = true := by
  obtain ⟨hlt, hacc, -⟩ := List.findIdx?_eq_some_iff_getElem.1 h
  exact ⟨l[k], List.getElem?_eq_getElem hlt, hacc⟩

/-- If slot and position agree, the selected version is fetched; an entry cannot be alive if its
slot number does not fit in the byte of a timestamp. -/
theorem fetchesSelected_of_ringSlot (h : ringSlot V o k = k ∨ 256 ≤ ringSlot V o k) :
    FetchesSelected V o k := by
  intro cfg s c cl wID hV hcode hchain ho hhead hk
  obtain ⟨ts, hts, hacc⟩ := Client.exists_of_findValidVersion hk
  have halive := (BaseTransaction.isRecordAccessible_iff.1 hacc).2.1
  have hoffset := hchain.offset_eq k ts hts halive
  have hstored := hchain.stored k ts hts halive
  rw [ho] at hoffset hstored
  rcases h with h | h
  · rw [NewOrderTransaction.warehouseAfterCheck_eq hcode hhead hk, hts]
    rw [h] at hstored
    rw [hstored]
  · have hbyte := ts.versionOffset.toNat_lt
    omega

def oneEntry (V o k : ℕ) : Record Warehouse where
  head := ⟨.setAll false true (UInt8.ofNat o) 0 0, plainRow (.warehouse 0)⟩
  tsList := (List.replicate V .empty).set k (.setAll false false (UInt8.ofNat (ringSlot V o k)) 0 0)
  olderVersions slot :=
    if slot = ringSlot V o k then
      ⟨.setAll false false (UInt8.ofNat (ringSlot V o k)) 0 0, plainRow (.warehouse 0)⟩
    else ⟨.empty, plainRow (.warehouse 0)⟩

theorem oneEntry_tsList {j : ℕ} (hk : k < V) (hj : (oneEntry V o k).tsList[j]? = some ts) :
    (j = k ∧ ts = .setAll false false (UInt8.ofNat (ringSlot V o k)) 0 0) ∨
      (j ≠ k ∧ ts = .empty) := by
  simp only [oneEntry] at hj
  rcases eq_or_ne j k with rfl | hne
  · rw [List.getElem?_set_self (by simpa using hk)] at hj
    exact .inl ⟨rfl, (Option.some.inj hj).symm⟩
  · rw [List.getElem?_set_ne hne.symm] at hj
    exact .inr ⟨hne, List.eq_of_mem_replicate (List.mem_of_getElem? hj)⟩

theorem versionChain_oneEntry (hk : k < V) (ho : o < 256) (hslot : ringSlot V o k < 256) :
    VersionChain V (oneEntry V o k) := by
  have hhead : (oneEntry V o k).head.writeTimestamp.versionOffset.toNat = o :=
    UInt8.toNat_ofNat_of_lt' ho
  refine ⟨by simp [oneEntry], ?_, ?_⟩
  · intro j ts hj halive
    rcases oneEntry_tsList hk hj with ⟨rfl, rfl⟩ | ⟨-, rfl⟩
    · rw [hhead, Timestamp.setAll_versionOffset]
      exact UInt8.toNat_ofNat_of_lt' hslot
    · cases halive
  · intro j ts hj halive
    rcases oneEntry_tsList hk hj with ⟨rfl, rfl⟩ | ⟨-, rfl⟩
    · rw [hhead]
      simp [oneEntry]
    · cases halive

theorem findValidVersion_oneEntry (cl : Client) (hk : k < V) :
    cl.findValidVersion 0 (oneEntry V o k).tsList = some k := by
  have hacc : cl.isRecordAccessible 0 (.setAll false false (UInt8.ofNat (ringSlot V o k)) 0 0) =
      true :=
    BaseTransaction.isRecordAccessible_iff.2 (by simp)
  have hlen : (oneEntry V o k).tsList.length = V := by simp [oneEntry]
  refine List.findIdx?_eq_some_iff_getElem.2 ?_
  refine ⟨by omega, ?_, ?_⟩
  · have hentry : (oneEntry V o k).tsList[k]? = some _ := List.getElem?_eq_getElem (by omega)
    rcases oneEntry_tsList hk hentry with ⟨-, h⟩ | ⟨hne, -⟩
    · rw [h]
      exact hacc
    · exact absurd rfl hne
  · intro j hj
    have hentry : (oneEntry V o k).tsList[j]? = some _ := List.getElem?_eq_getElem (by omega)
    rcases oneEntry_tsList hk hentry with ⟨rfl, -⟩ | ⟨-, h⟩
    · omega
    · rw [h]
      simp [BaseTransaction.isRecordAccessible_iff]

theorem not_fetchesSelected (hk : k < V) (ho : o < 256) (hne : ringSlot V o k ≠ k)
    (hslot : ringSlot V o k < 256) : ¬ FetchesSelected V o k := by
  intro h
  let cfg : Config := { Config.shipped 1 with VERSION_NUM := V }
  let s : State :=
    { plain cfg with mem := Function.update (plain cfg).mem (.warehouse 0) (oneEntry V o k) }
  have hmem : s.mem (.warehouse 0) = oneEntry V o k :=
    Function.update_self (Key.warehouse 0) (oneEntry V o k) (plain cfg).mem
  have hhead : (s.clients 0).isRecordAccessible 0 (s.mem (.warehouse 0)).head.writeTimestamp =
      false := by
    rw [hmem]
    simp [Client.isRecordAccessible, BaseTransaction.isRecordAccessible, oneEntry]
  have hfind : (s.clients 0).findValidVersion 0 (s.mem (.warehouse 0)).tsList = some k := by
    rw [hmem]
    exact findValidVersion_oneEntry (s.clients 0) hk
  have hread := h cfg s 0 (s.clients 0) 0 rfl rfl
    (by rw [hmem]; exact versionChain_oneEntry hk ho hslot)
    (by rw [hmem]; exact UInt8.toNat_ofNat_of_lt' ho) hhead hfind
  rw [NewOrderTransaction.warehouseAfterCheck_eq rfl hhead hfind, hmem] at hread
  -- The ring slot that is read was never written.
  have hempty : ((oneEntry V o k).olderVersions k).writeTimestamp = .empty := by
    simp [oneEntry, Ne.symm hne]
  rw [hempty] at hread
  rcases oneEntry_tsList hk hread with ⟨-, hts⟩ | ⟨hkk, -⟩
  · have hdeleted := congrArg Timestamp.isDeleted hts
    simp at hdeleted
  · exact hkk rfl

/-- **Fetching an older version.** For a ring of `V` slots and a head with offset `o`, the version
fetched for the selected list entry `k` is the selected one in every state of the record and for
every snapshot, if and only if the ring slot `(o - 1 - k) mod V` of the entry is `k`, or is too
large for an entry to name it. -/
theorem fetchesSelected_iff (V o k : ℕ) (hk : k < V) (ho : o < 256) :
    FetchesSelected V o k ↔ ringSlot V o k = k ∨ 256 ≤ ringSlot V o k := by
  constructor
  · intro h
    by_contra hne
    rw [not_or, Nat.not_le] at hne
    exact not_fetchesSelected hk ho hne.1 hne.2 h
  · exact fetchesSelected_of_ringSlot

/-- After one update of a record in a ring of three slots. -/
theorem fetchesSelected_iff_first :
    (0 < 3 ∧ 1 < 256) ∧ (FetchesSelected 3 1 0 ↔ ringSlot 3 1 0 = 0 ∨ 256 ≤ ringSlot 3 1 0) :=
  ⟨⟨by decide, by decide⟩, fetchesSelected_iff 3 1 0 (by decide) (by decide)⟩

def freshWarehouse : Record Warehouse where
  head := ⟨initialTS, ⟨0, "", 300000⟩⟩
  tsList := List.replicate 3 .empty
  olderVersions _ := ⟨.empty, ⟨0, "", 0⟩⟩

/-- The warehouse after client 1 has committed two Payments of one unit each. -/
def paidTwice : Record Warehouse :=
  (freshWarehouse.update (Config.shipped 4) 1 1 ⟨0, "", 300001⟩).update (Config.shipped 4) 1 5
    ⟨0, "", 300002⟩

theorem versionChain_paidTwice : VersionChain 3 paidTwice := by
  have hfresh : VersionChain 3 freshWarehouse := by
    have hempty {k : ℕ} {ts : Timestamp} (hk : freshWarehouse.tsList[k]? = some ts) : ts = .empty :=
      List.eq_of_mem_replicate (List.mem_of_getElem? hk)
    refine ⟨rfl, ?_, ?_⟩
    · intro k ts hk halive
      obtain rfl := hempty hk
      cases halive
    · intro k ts hk halive
      obtain rfl := hempty hk
      cases halive
  have hfirst : VersionChain (Config.shipped 4).VERSION_NUM
      (freshWarehouse.update (Config.shipped 4) 1 1 ⟨0, "", 300001⟩) :=
    hfresh.update (by decide) (by decide) 1 1 _
  exact hfirst.update (by decide) (by decide) 1 5 ⟨0, "", 300002⟩

/-- **The fetch goes wrong after two updates.** The snapshot of client 0 covers the first of two
Payments of client 1. The search returns entry 0, the version of the first Payment, but the NewOrder
goes on with the version from before that Payment. -/
theorem fetch_fails_paidTwice :
    ∃ (s : State) (cl : Client), s.mem (.warehouse 0) = paidTwice ∧
      VersionChain 3 (s.mem (.warehouse 0)) ∧
      cl.isRecordAccessible 0 paidTwice.head.writeTimestamp = false ∧
      cl.findValidVersion 0 paidTwice.tsList = some 0 ∧
      paidTwice.tsList[0]? = some (.setAll false false 1 1 1) ∧
      (NewOrderTransaction.warehouseAfterCheck (Config.shipped 4) s 0 cl 0).writeTimestamp =
        .setAll false false 0 0 0 := by
  let s : State :=
    { plain (Config.shipped 4) with
      mem := Function.update (plain (Config.shipped 4)).mem (.warehouse 0) paidTwice }
  let cl : Client := { s.clients 0 with localTimestampVector := fun _ => 1 }
  have hmem : s.mem (.warehouse 0) = paidTwice :=
    Function.update_self (Key.warehouse 0) paidTwice (plain (Config.shipped 4)).mem
  have hhead : cl.isRecordAccessible 0 paidTwice.head.writeTimestamp = false := by decide
  have hfind : cl.findValidVersion 0 paidTwice.tsList = some 0 := by decide
  refine ⟨s, cl, hmem, ?_, hhead, hfind, by decide, ?_⟩
  · rw [hmem]
    exact versionChain_paidTwice
  · rw [← hmem] at hhead hfind
    rw [NewOrderTransaction.warehouseAfterCheck_eq rfl hhead hfind, hmem]
    decide

end RdmaSnapshot
