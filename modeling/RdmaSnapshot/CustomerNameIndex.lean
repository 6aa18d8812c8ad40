import RdmaSnapshot.Index
import RdmaSnapshot.Populate
import RdmaSnapshot.MultiValueHashIndex
import RdmaSnapshot.Lib.MixedRadix

/-!
# The index of the customers by last name

A server keeps one `MultiValueHashIndex` per district, from last names to customer ids.
`CustomerTable::buildIndexOnLastName` fills them in one scan over the flat table, and
`TPCCDB::handleCustomerNameIndexRequest` answers requests with the middle of the ids it finds. The
lookup itself inserts empty vectors into the maps, which no later lookup notices.
-/

namespace RdmaSnapshot

variable {cfg : Config}

/-- A `char` array of `n` bytes that holds a C string. -/
structure CString (n : ℕ) where
  chars : List UInt8
  length_chars : chars.length = n
  terminated : 0 ∈ chars

def CString.toStdString {n : ℕ} (s : CString n) : List UInt8 := s.chars.takeWhile (· ≠ 0)

/-- The fields of a `Customer` that the index is built from. -/
structure CustomerName where
  C_ID : UInt32
  C_D_ID : UInt8
  C_W_ID : UInt16
  C_LAST : CString 16

namespace CustomerName

def IsOf (d : DistrictID cfg) (row : CustomerName) : Prop :=
  cfg.getWarehouseOffsetOnServer row.C_W_ID = d.warehouseOffset ∧ row.C_D_ID = d.dID

instance (d : DistrictID cfg) (row : CustomerName) : Decidable (row.IsOf d) :=
  inferInstanceAs (Decidable (_ ∧ _))

/-- The element of `customerLastNameToID_Index_` for the customer. -/
def ind (cfg : Config) (row : CustomerName) : ℕ :=
  (cfg.getWarehouseOffsetOnServer row.C_W_ID).toNat * cfg.DISTRICT_PER_WAREHOUSE +
    row.C_D_ID.toNat

end CustomerName

/-- The head versions of a `CustomerTable`, populated: the customer with the key
`(warehouseOffset, dID, cID)` is at the position of that key, for all keys in range. -/
structure CustomerTable (cfg : Config) where
  CUSTOMER_PER_DISTRICT : ℕ
  headVersions : List CustomerName
  regionSize : headVersions.length =
    cfg.WAREHOUSE_PER_SERVER * cfg.DISTRICT_PER_WAREHOUSE * CUSTOMER_PER_DISTRICT
  populated : ∀ warehouseOffset < cfg.WAREHOUSE_PER_SERVER, ∀ dID < cfg.DISTRICT_PER_WAREHOUSE,
    ∀ cID < CUSTOMER_PER_DISTRICT, ∀ row,
      headVersions[(warehouseOffset * cfg.DISTRICT_PER_WAREHOUSE + dID) *
        CUSTOMER_PER_DISTRICT + cID]? = some row →
      (cfg.getWarehouseOffsetOnServer row.C_W_ID).toNat = warehouseOffset ∧
        row.C_D_ID.toNat = dID ∧ row.C_ID.toNat = cID

/-- `customerLastNameToID_Index_`: an index for every district of the server. -/
abbrev LastNameIndexes := ℕ → MultiValueHashIndex (List UInt8) UInt32

namespace CustomerTable

/-- The body of the loop of `buildIndexOnLastName`. -/
def indexRow (cfg : Config) (indexes : LastNameIndexes) (row : CustomerName) : LastNameIndexes :=
  Function.update indexes (row.ind cfg)
    ((indexes (row.ind cfg)).append row.C_LAST.toStdString row.C_ID)

/-- `CustomerTable::buildIndexOnLastName`, on the empty indexes the constructor makes. -/
def buildIndexOnLastName (T : CustomerTable cfg) : LastNameIndexes :=
  T.headVersions.foldl (indexRow cfg) fun _ => ∅

def getMiddleIDByLastName (indexes : LastNameIndexes) (d : DistrictID cfg)
    (lastName : List UInt8) : Option UInt32 × LastNameIndexes :=
  let (cID, index) := (indexes d.ind).getMiddle lastName
  (cID, Function.update indexes d.ind index)

end CustomerTable

/-- The parameters `lastNameIndex` of an index request. -/
structure LastNameIndexRequest (cfg : Config) where
  district : DistrictID cfg
  customerLastName : CString 17

/-- `TPCCDB::handleCustomerNameIndexRequest`: an exception is caught and answered with the id `-1`,
which is `2 ^ 32 - 1` in the response. -/
def TPCCDB.handleCustomerNameIndexRequest (indexes : LastNameIndexes)
    (req : LastNameIndexRequest cfg) : CustomerNameIndexRespMsg × LastNameIndexes :=
  match CustomerTable.getMiddleIDByLastName indexes req.district
      req.customerLastName.toStdString with
  | (some cID, indexes) => (⟨true, cID⟩, indexes)
  | (none, indexes) => (⟨false, -1⟩, indexes)

namespace CustomerTable

/-! ## The values that the scan files -/

/-- Filing a row adds its id at the end of the values of its own district and name. -/
theorem values_indexRow (indexes : LastNameIndexes) (row : CustomerName) (i : ℕ)
    (name : List UInt8) :
    (indexRow cfg indexes row i).values name =
      if row.ind cfg = i ∧ row.C_LAST.toStdString = name then (indexes i).values name ++ [row.C_ID]
      else (indexes i).values name := by
  rw [indexRow]
  by_cases hi : row.ind cfg = i
  · subst hi
    rw [Function.update_self, MultiValueHashIndex.values_append]
    by_cases hname : row.C_LAST.toStdString = name
    · subst hname
      simp
    · simp [hname, Ne.symm hname]
  · rw [Function.update_of_ne (Ne.symm hi)]
    simp [hi]

/-- Scanning some rows adds the ids of those with the district and the name, in the order of the
rows. -/
theorem values_foldl_indexRow (rows : List CustomerName) (indexes : LastNameIndexes) (i : ℕ)
    (name : List UInt8) :
    (rows.foldl (indexRow cfg) indexes i).values name = (indexes i).values name ++
      (rows.filter fun row => row.ind cfg = i ∧ row.C_LAST.toStdString = name).map
        CustomerName.C_ID := by
  induction rows generalizing indexes with
  | nil => simp
  | cons row rows ih =>
    rw [List.foldl_cons, ih, values_indexRow, List.filter_cons]
    split
    · next h => simp [h]
    · next h => simp [h]

variable (T : CustomerTable cfg)

theorem key_of_getElem {i : ℕ} (hi : i < T.headVersions.length) :
    T.headVersions[i].C_D_ID.toNat < cfg.DISTRICT_PER_WAREHOUSE ∧
      T.headVersions[i].C_ID.toNat < T.CUSTOMER_PER_DISTRICT ∧
      i = T.headVersions[i].ind cfg * T.CUSTOMER_PER_DISTRICT + T.headVersions[i].C_ID.toNat := by
  have hlt := hi
  rw [T.regionSize] at hlt
  have hcpos : 0 < T.CUSTOMER_PER_DISTRICT := Nat.pos_of_lt_mul_left hlt
  have hdlt : i / T.CUSTOMER_PER_DISTRICT < cfg.WAREHOUSE_PER_SERVER * cfg.DISTRICT_PER_WAREHOUSE :=
    (Nat.div_lt_iff_lt_mul hcpos).2 hlt
  have hdpos : 0 < cfg.DISTRICT_PER_WAREHOUSE := Nat.pos_of_lt_mul_left hdlt
  have hw : i / T.CUSTOMER_PER_DISTRICT / cfg.DISTRICT_PER_WAREHOUSE < cfg.WAREHOUSE_PER_SERVER :=
    (Nat.div_lt_iff_lt_mul hdpos).2 hdlt
  have hd := Nat.mod_lt (i / T.CUSTOMER_PER_DISTRICT) hdpos
  have hc := Nat.mod_lt i hcpos
  have hposition : (i / T.CUSTOMER_PER_DISTRICT / cfg.DISTRICT_PER_WAREHOUSE *
      cfg.DISTRICT_PER_WAREHOUSE + i / T.CUSTOMER_PER_DISTRICT % cfg.DISTRICT_PER_WAREHOUSE) *
      T.CUSTOMER_PER_DISTRICT + i % T.CUSTOMER_PER_DISTRICT = i := by
    rw [Nat.div_add_mod', Nat.div_add_mod']
  obtain ⟨hrw, hrd, hrc⟩ := T.populated _ hw _ hd _ hc T.headVersions[i] (by
    rw [hposition, List.getElem?_eq_getElem hi])
  rw [CustomerName.ind, hrw, hrd, hrc]
  exact ⟨hd, hc, hposition.symm⟩

theorem ind_eq_iff {row : CustomerName} (hrow : row ∈ T.headVersions) (d : DistrictID cfg) :
    row.ind cfg = d.ind ↔ row.IsOf d := by
  obtain ⟨i, hi, rfl⟩ := List.mem_iff_getElem.1 hrow
  obtain ⟨hd, -, -⟩ := T.key_of_getElem hi
  constructor
  · intro h
    obtain ⟨hw, hdID⟩ := MixedRadix.index_inj hd d.dID_lt h
    exact ⟨UInt16.toNat_inj.1 hw, UInt8.toNat_inj.1 hdID⟩
  · rintro ⟨hw, hdID⟩
    rw [CustomerName.ind, DistrictID.ind, hw, hdID]

/-- Within a district the rows of the table are in the order of their ids. -/
theorem pairwise_headVersions : T.headVersions.Pairwise fun row row' =>
    row.ind cfg = row'.ind cfg → row.C_ID < row'.C_ID := by
  rw [List.pairwise_iff_getElem]
  intro i j hi hj hij hind
  obtain ⟨-, -, hposition⟩ := T.key_of_getElem hi
  obtain ⟨-, -, hposition'⟩ := T.key_of_getElem hj
  rw [← hind] at hposition'
  rw [UInt32.lt_iff_toNat_lt]
  omega

def idsByLastName (d : DistrictID cfg) (name : List UInt8) : List UInt32 :=
  ((T.headVersions.filter fun row => row.IsOf d ∧ row.C_LAST.toStdString = name).map
    CustomerName.C_ID).mergeSort

/-- The scan files under a name exactly the ids of the customers with that name, in ascending
order. -/
theorem values_buildIndexOnLastName (d : DistrictID cfg) (name : List UInt8) :
    (T.buildIndexOnLastName d.ind).values name = T.idsByLastName d name := by
  have hfilter : (T.headVersions.filter fun row =>
        row.ind cfg = d.ind ∧ row.C_LAST.toStdString = name) =
      T.headVersions.filter fun row => row.IsOf d ∧ row.C_LAST.toStdString = name := by
    refine List.filter_congr ?_
    intro row hrow
    simp only [T.ind_eq_iff hrow]
  have hsorted : ((T.headVersions.filter fun row =>
      row.IsOf d ∧ row.C_LAST.toStdString = name).map CustomerName.C_ID).Pairwise (· ≤ ·) := by
    rw [List.pairwise_map, ← hfilter, List.pairwise_filter]
    refine T.pairwise_headVersions.imp ?_
    intro row row' hlt h h'
    rw [decide_eq_true_eq] at h h'
    exact UInt32.le_of_lt (hlt (h.1.trans h'.1.symm))
  rw [buildIndexOnLastName, values_foldl_indexRow, hfilter, idsByLastName,
    List.mergeSort_eq_self (· ≤ ·) hsorted]
  rfl

/-! ## The answers -/

@[simp] theorem values_getMiddleIDByLastName (indexes : LastNameIndexes) (d : DistrictID cfg)
    (lastName : List UInt8) (i : ℕ) (name : List UInt8) :
    ((getMiddleIDByLastName indexes d lastName).2 i).values name = (indexes i).values name := by
  simp only [getMiddleIDByLastName, Function.update_apply]
  split
  · next hi =>
      subst hi
      exact MultiValueHashIndex.values_getMiddle _ _ _
  · rfl

abbrev LastNameLookup (cfg : Config) := (DistrictID cfg × List UInt8) ⊕ LastNameIndexRequest cfg

def afterLookup (indexes : LastNameIndexes) : LastNameLookup cfg → LastNameIndexes
  | .inl (d, name) => (getMiddleIDByLastName indexes d name).2
  | .inr req => (TPCCDB.handleCustomerNameIndexRequest indexes req).2

theorem handleCustomerNameIndexRequest_eq (indexes : LastNameIndexes)
    (req : LastNameIndexRequest cfg) :
    TPCCDB.handleCustomerNameIndexRequest indexes req =
      (match (getMiddleIDByLastName indexes req.district req.customerLastName.toStdString).1 with
        | some cID => ⟨true, cID⟩
        | none => ⟨false, -1⟩,
      (getMiddleIDByLastName indexes req.district req.customerLastName.toStdString).2) := by
  rw [TPCCDB.handleCustomerNameIndexRequest]
  cases hmiddle : getMiddleIDByLastName indexes req.district req.customerLastName.toStdString with
  | mk cID indexes' => cases cID <;> rfl

theorem values_afterLookup (indexes : LastNameIndexes) (l : LastNameLookup cfg) (i : ℕ)
    (name : List UInt8) : (afterLookup indexes l i).values name = (indexes i).values name := by
  cases l with
  | inl call => exact values_getMiddleIDByLastName indexes call.1 call.2 i name
  | inr req =>
    rw [afterLookup, handleCustomerNameIndexRequest_eq]
    exact values_getMiddleIDByLastName indexes _ _ i name

theorem values_foldl_afterLookup (lookups : List (LastNameLookup cfg)) (indexes : LastNameIndexes)
    (i : ℕ) (name : List UInt8) :
    (lookups.foldl afterLookup indexes i).values name = (indexes i).values name := by
  induction lookups generalizing indexes with
  | nil => rfl
  | cons l lookups ih => rw [List.foldl_cons, ih, values_afterLookup]

/-- After the index was built and any lookups were made, successful or not, a lookup of a name in a
district returns the middle of the ascending list of the ids of the customers with that name, and
throws if and only if there is none; a request is answered accordingly. -/
theorem middleID_by_lastName (lookups : List (LastNameLookup cfg)) :
    let indexes := lookups.foldl afterLookup T.buildIndexOnLastName
    (∀ (d : DistrictID cfg) (name : List UInt8),
      let ids := T.idsByLastName d name
      (getMiddleIDByLastName indexes d name).1 = ids[ids.length / 2]? ∧
        ((getMiddleIDByLastName indexes d name).1 = none ↔ ids.length = 0)) ∧
    ∀ req : LastNameIndexRequest cfg,
      let ids := T.idsByLastName req.district req.customerLastName.toStdString
      (TPCCDB.handleCustomerNameIndexRequest indexes req).1 =
        if h : ids.length = 0 then ⟨false, -1⟩
        else ⟨true, ids[ids.length / 2]⟩ := by
  intro indexes
  have hmiddle : ∀ (d : DistrictID cfg) (name : List UInt8),
      (getMiddleIDByLastName indexes d name).1 =
        (T.idsByLastName d name)[(T.idsByLastName d name).length / 2]? := by
    intro d name
    have hvalues : (indexes d.ind).values name = T.idsByLastName d name := by
      rw [← T.values_buildIndexOnLastName]
      exact values_foldl_afterLookup lookups T.buildIndexOnLastName d.ind name
    rw [← hvalues]
    exact MultiValueHashIndex.getMiddle_fst (indexes d.ind) name
  refine ⟨?_, ?_⟩
  · intro d name
    refine ⟨hmiddle d name, ?_⟩
    rw [hmiddle, List.getElem?_eq_none_iff]
    omega
  · intro req
    rw [handleCustomerNameIndexRequest_eq]
    simp only [hmiddle]
    split
    · next cID hcID =>
        obtain ⟨hlt, rfl⟩ := List.getElem?_eq_some_iff.1 hcID
        rw [dif_neg (by omega)]
    · next hnone =>
        rw [List.getElem?_eq_none_iff] at hnone
        rw [dif_pos (by omega)]

/-! ## The tables of the first server

Any last names make a table. -/

theorem getWarehouseOffsetOnServer_of_lt {wID : UInt16} (h : wID.toNat < cfg.WAREHOUSE_PER_SERVER) :
    cfg.getWarehouseOffsetOnServer wID = wID := by
  rw [Config.getWarehouseOffsetOnServer, Config.getServerNum, Nat.div_eq_of_lt h, Nat.zero_mul,
    Nat.sub_zero, UInt16.ofNat_toNat]

def rowOfNames (cfg : Config) (CUSTOMER_PER_DISTRICT : ℕ) (names : ℕ → CString 16) (i : ℕ) :
    CustomerName where
  C_ID := UInt32.ofNat (i % CUSTOMER_PER_DISTRICT)
  C_D_ID := UInt8.ofNat (i / CUSTOMER_PER_DISTRICT % cfg.DISTRICT_PER_WAREHOUSE)
  C_W_ID := UInt16.ofNat (i / CUSTOMER_PER_DISTRICT / cfg.DISTRICT_PER_WAREHOUSE)
  C_LAST := names i

/-- The table of the first server with the given last names, by position. -/
def ofNames (cfg : Config) (CUSTOMER_PER_DISTRICT : ℕ) (names : ℕ → CString 16)
    (hw : cfg.WAREHOUSE_PER_SERVER ≤ 2 ^ 16) (hd : cfg.DISTRICT_PER_WAREHOUSE ≤ 2 ^ 8)
    (hc : CUSTOMER_PER_DISTRICT ≤ 2 ^ 32) : CustomerTable cfg where
  CUSTOMER_PER_DISTRICT := CUSTOMER_PER_DISTRICT
  headVersions := (List.range (cfg.WAREHOUSE_PER_SERVER * cfg.DISTRICT_PER_WAREHOUSE *
    CUSTOMER_PER_DISTRICT)).map (rowOfNames cfg CUSTOMER_PER_DISTRICT names)
  regionSize := by simp
  populated := by
    intro warehouseOffset hwarehouse dID hdID cID hcID row hrow
    have hlt := MixedRadix.index_lt (MixedRadix.index_lt hwarehouse hdID) hcID
    rw [List.getElem?_map, List.getElem?_range hlt] at hrow
    cases hrow
    have hwID : (UInt16.ofNat warehouseOffset).toNat = warehouseOffset :=
      UInt16.toNat_ofNat_of_lt' (hwarehouse.trans_le hw)
    simp only [rowOfNames, MixedRadix.index_div hcID, MixedRadix.index_mod hcID,
      MixedRadix.index_div hdID, MixedRadix.index_mod hdID]
    refine ⟨?_, UInt8.toNat_ofNat_of_lt' (hdID.trans_le hd),
      UInt32.toNat_ofNat_of_lt' (hcID.trans_le hc)⟩
    rw [getWarehouseOffsetOnServer_of_lt (by rwa [hwID]), hwID]

/-- Of three customers the first and the last are called A; a lookup of A finds the last one, and
one of C finds nobody. -/
example :
    let cfg := { Config.shipped 1 with WAREHOUSE_PER_SERVER := 1, DISTRICT_PER_WAREHOUSE := 1 }
    let name (i : ℕ) : CString 16 :=
      ⟨[if i = 1 then 66 else 65] ++ List.replicate 15 0, by simp, by simp⟩
    let T := ofNames cfg 3 name (by decide) (by decide) (by decide)
    let d : DistrictID cfg := ⟨0, 0, by decide, by decide⟩
    let indexes := (getMiddleIDByLastName T.buildIndexOnLastName d [67]).2
    (getMiddleIDByLastName T.buildIndexOnLastName d [67]).1 = none ∧
      (getMiddleIDByLastName indexes d [65]).1 = some 2 := by
  decide +kernel

end CustomerTable

end RdmaSnapshot
