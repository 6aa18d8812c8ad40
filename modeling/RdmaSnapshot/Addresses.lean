import RdmaSnapshot.System
import RdmaSnapshot.Lib.MixedRadix

/-!
# Where a record is stored

A transaction names a Warehouse, District, Customer or Stock record by its key; `DBExecutor`
computes from the key the server and the byte offset in one of the server's memory regions. This
module follows those computations in 64-bit arithmetic, and the way a server populates its tables.
Keys name records without ambiguity: the memory of the model, in which every key has a record of
its own, is the memory the clients reach.
-/

namespace RdmaSnapshot

open MixedRadix

/-! ## Settings -/

/-- The tables whose rows have a fixed place. -/
inductive KeyedTable
  | warehouse | district | customer | stock
  deriving DecidableEq

inductive RowKey
  | warehouse (wID : UInt16)
  | district (wID : UInt16) (dID : UInt8)
  | customer (wID : UInt16) (dID : UInt8) (cID : UInt32)
  | stock (wID : UInt16) (iID : UInt32)
  deriving DecidableEq

namespace RowKey

def table : RowKey → KeyedTable
  | warehouse _ => .warehouse
  | district _ _ => .district
  | customer _ _ _ => .customer
  | stock _ _ => .stock

def wID : RowKey → UInt16
  | warehouse wID | district wID _ | customer wID _ _ | stock wID _ => wID

/-- The record of the model's memory. -/
@[reducible] def toKey : RowKey → Key
  | warehouse wID => .warehouse wID
  | district wID dID => .district wID dID
  | customer wID dID cID => .customer wID dID cID
  | stock wID iID => .stock wID iID

end RowKey

/-- The settings of `config.hpp`, and the layout of the version structs. -/
structure TableSettings where
  SERVER_CNT : UInt64
  WAREHOUSE_PER_SERVER : UInt64
  DISTRICT_PER_WAREHOUSE : UInt64
  CUSTOMER_PER_DISTRICT : UInt64
  ITEMS_CNT : UInt64
  VERSION_NUM : UInt64
  /-- `sizeof(WarehouseVersion)` and so on. -/
  sizeofVersion : KeyedTable → UInt64
  /-- `WarehouseVersion::getOffsetOfTimestamp` and so on. -/
  getOffsetOfTimestamp : KeyedTable → UInt64
  /-- `DistrictVersion::getOffsetOfDistrict`. -/
  getOffsetOfDistrict : UInt64
  /-- `District::getOffsetOfNextOID`. -/
  getOffsetOfNextOID : UInt64

def sizeofTimestamp : UInt64 := 8

namespace TableSettings

variable (S : TableSettings)

def STOCK_PER_WAREHOUSE : UInt64 := S.ITEMS_CNT

def WAREHOUSE_CNT : ℕ := S.WAREHOUSE_PER_SERVER.toNat * S.SERVER_CNT.toNat

/-- The sizes with which `TPCCServer` allocates its tables. -/
def tableSize : KeyedTable → UInt64
  | .warehouse => S.WAREHOUSE_PER_SERVER
  | .district => S.DISTRICT_PER_WAREHOUSE * S.WAREHOUSE_PER_SERVER
  | .customer => S.CUSTOMER_PER_DISTRICT * S.DISTRICT_PER_WAREHOUSE * S.WAREHOUSE_PER_SERVER
  | .stock => S.STOCK_PER_WAREHOUSE * S.WAREHOUSE_PER_SERVER

def rowCnt : KeyedTable → ℕ
  | .warehouse => S.WAREHOUSE_PER_SERVER.toNat
  | .district => S.WAREHOUSE_PER_SERVER.toNat * S.DISTRICT_PER_WAREHOUSE.toNat
  | .customer => S.WAREHOUSE_PER_SERVER.toNat * S.DISTRICT_PER_WAREHOUSE.toNat *
      S.CUSTOMER_PER_DISTRICT.toNat
  | .stock => S.WAREHOUSE_PER_SERVER.toNat * S.ITEMS_CNT.toNat

end TableSettings

/-- Settings that are positive, within the ranges of the key types, and whose tables fit in the
address space. -/
structure Layout extends TableSettings where
  serverCnt_pos : 0 < SERVER_CNT.toNat
  warehousePerServer_pos : 0 < WAREHOUSE_PER_SERVER.toNat
  warehouseCnt_le : toTableSettings.WAREHOUSE_CNT ≤ 65536
  districtPerWarehouse_pos : 0 < DISTRICT_PER_WAREHOUSE.toNat
  districtPerWarehouse_le : DISTRICT_PER_WAREHOUSE.toNat ≤ 255
  customerPerDistrict_pos : 0 < CUSTOMER_PER_DISTRICT.toNat
  customerPerDistrict_le : CUSTOMER_PER_DISTRICT.toNat ≤ 65535
  itemsCnt_pos : 0 < ITEMS_CNT.toNat
  itemsCnt_lt : ITEMS_CNT.toNat < 2 ^ 32
  versionNum_pos : 0 < VERSION_NUM.toNat
  headVersions_fit : ∀ t, toTableSettings.rowCnt t * (sizeofVersion t).toNat < 2 ^ 64
  tsList_fit : ∀ t, toTableSettings.rowCnt t * VERSION_NUM.toNat * sizeofTimestamp.toNat < 2 ^ 64
  olderVersions_fit : ∀ t,
    toTableSettings.rowCnt t * VERSION_NUM.toNat * (sizeofVersion t).toNat < 2 ^ 64
  /-- A version struct contains its timestamp. -/
  timestamp_le : ∀ t, (getOffsetOfTimestamp t).toNat + sizeofTimestamp.toNat ≤
    (sizeofVersion t).toNat
  /-- A `DistrictVersion` contains the eight bytes of `D_NEXT_O_ID`. -/
  nextOID_le : getOffsetOfDistrict.toNat + getOffsetOfNextOID.toNat + 8 ≤
    (sizeofVersion .district).toNat

/-! ## The client's address computations -/

inductive Region
  | headVersions (t : KeyedTable)
  | tsList (t : KeyedTable)
  | olderVersions (t : KeyedTable)
  deriving DecidableEq

inductive Part
  | head
  | timestamp
  | nextOID
  | pointerList
  | olderVersion (versionOffset : UInt64)

/-- What a one-sided verb reaches: `size` bytes from `offset` bytes behind the start of a region. -/
structure RemoteAccess where
  serverNum : UInt64
  region : Region
  offset : UInt64
  size : UInt32

namespace TableSettings

variable (S : TableSettings)

/-- `Warehouse::getServerNum`. The cast to `int` keeps the quotient, which is below `2 ^ 16`. -/
def getServerNum (wID : UInt16) : UInt64 := wID.toUInt64 / S.WAREHOUSE_PER_SERVER

def getWarehouseOffsetOnServer (wID : UInt16) : UInt16 :=
  (wID.toUInt64 - S.getServerNum wID * S.WAREHOUSE_PER_SERVER).toUInt16

def warehouseIndex (wID : UInt16) : UInt64 := (S.getWarehouseOffsetOnServer wID).toUInt64

def districtIndex (wID : UInt16) (dID : UInt8) : UInt64 :=
  (S.getWarehouseOffsetOnServer wID).toUInt64 * S.DISTRICT_PER_WAREHOUSE + dID.toUInt64

def customerIndex (wID : UInt16) (dID : UInt8) (cID : UInt32) : UInt64 :=
  ((S.getWarehouseOffsetOnServer wID).toUInt64 * S.DISTRICT_PER_WAREHOUSE + dID.toUInt64) *
    S.CUSTOMER_PER_DISTRICT + cID.toUInt64

def stockIndex (wID : UInt16) (iID : UInt32) : UInt64 :=
  (S.getWarehouseOffsetOnServer wID).toUInt64 * S.ITEMS_CNT + iID.toUInt64

/-- The common part of the client's functions: from the index of a row to the bytes reached. -/
def reach (t : KeyedTable) (serverNum tableIndex : UInt64) : Part → RemoteAccess
  | .head => ⟨serverNum, .headVersions t, tableIndex * S.sizeofVersion t,
      (S.sizeofVersion t).toUInt32⟩
  | .timestamp => ⟨serverNum, .headVersions t,
      tableIndex * S.sizeofVersion t + S.getOffsetOfTimestamp t, 8⟩
  | .nextOID => ⟨serverNum, .headVersions t,
      tableIndex * S.sizeofVersion t + S.getOffsetOfDistrict + S.getOffsetOfNextOID, 8⟩
  | .pointerList => ⟨serverNum, .tsList t, tableIndex * S.VERSION_NUM * sizeofTimestamp,
      (S.VERSION_NUM * sizeofTimestamp).toUInt32⟩
  | .olderVersion versionOffset => ⟨serverNum, .olderVersions t,
      (tableIndex * S.VERSION_NUM + versionOffset) * S.sizeofVersion t,
      (S.sizeofVersion t).toUInt32⟩

/-! ### Warehouse -/

def retrieveWarehouse (wID : UInt16) : RemoteAccess :=
  S.reach .warehouse (S.getServerNum wID) (S.warehouseIndex wID) .head

def retrieveWarehouseOlderVersion (wID : UInt16) (versionOffset : UInt64) : RemoteAccess :=
  S.reach .warehouse (S.getServerNum wID) (S.warehouseIndex wID) (.olderVersion versionOffset)

def retrieveWarehousePointerList (wID : UInt16) : RemoteAccess :=
  S.reach .warehouse (S.getServerNum wID) (S.warehouseIndex wID) .pointerList

def lockWarehouse (warehouseV : Version Warehouse) : RemoteAccess :=
  S.reach .warehouse (S.getServerNum warehouseV.body.W_ID) (S.warehouseIndex warehouseV.body.W_ID)
    .timestamp

def revertWarehouseLock (localRegion : Version Warehouse) : RemoteAccess :=
  S.reach .warehouse (S.getServerNum localRegion.body.W_ID)
    (S.warehouseIndex localRegion.body.W_ID) .timestamp

def updateWarehousePointers (oldHead : Version Warehouse) : RemoteAccess :=
  S.reach .warehouse (S.getServerNum oldHead.body.W_ID) (S.warehouseIndex oldHead.body.W_ID)
    .pointerList

def updateWarehouseOlderVersions (oldHead : Version Warehouse) : RemoteAccess :=
  S.reach .warehouse (S.getServerNum oldHead.body.W_ID) (S.warehouseIndex oldHead.body.W_ID)
    (.olderVersion oldHead.writeTimestamp.versionOffset.toUInt64)

def updateWarehouse (localRegion : Version Warehouse) : RemoteAccess :=
  S.reach .warehouse (S.getServerNum localRegion.body.W_ID)
    (S.warehouseIndex localRegion.body.W_ID) .head

/-! ### District -/

def retrieveDistrict (wID : UInt16) (dID : UInt8) : RemoteAccess :=
  S.reach .district (S.getServerNum wID) (S.districtIndex wID dID) .head

def retrieveDistrictOlderVersion (wID : UInt16) (dID : UInt8) (versionOffset : UInt64) :
    RemoteAccess :=
  S.reach .district (S.getServerNum wID) (S.districtIndex wID dID) (.olderVersion versionOffset)

def retrieveDistrictPointerList (wID : UInt16) (dID : UInt8) : RemoteAccess :=
  S.reach .district (S.getServerNum wID) (S.districtIndex wID dID) .pointerList

def retrieveAndIncrementDistrictNextOID (wID : UInt16) (dID : UInt8) : RemoteAccess :=
  S.reach .district (S.getServerNum wID) (S.districtIndex wID dID) .nextOID

def lockDistrict (districtV : Version District) : RemoteAccess :=
  S.reach .district (S.getServerNum districtV.body.D_W_ID)
    (S.districtIndex districtV.body.D_W_ID districtV.body.D_ID) .timestamp

def revertDistrictLock (localRegion : Version District) : RemoteAccess :=
  S.reach .district (S.getServerNum localRegion.body.D_W_ID)
    (S.districtIndex localRegion.body.D_W_ID localRegion.body.D_ID) .timestamp

def updateDistrictPointers (oldHead : Version District) : RemoteAccess :=
  S.reach .district (S.getServerNum oldHead.body.D_W_ID)
    (S.districtIndex oldHead.body.D_W_ID oldHead.body.D_ID) .pointerList

def updateDistrictOlderVersions (oldHead : Version District) : RemoteAccess :=
  S.reach .district (S.getServerNum oldHead.body.D_W_ID)
    (S.districtIndex oldHead.body.D_W_ID oldHead.body.D_ID)
    (.olderVersion oldHead.writeTimestamp.versionOffset.toUInt64)

def updateDistrict (localRegion : Version District) : RemoteAccess :=
  S.reach .district (S.getServerNum localRegion.body.D_W_ID)
    (S.districtIndex localRegion.body.D_W_ID localRegion.body.D_ID) .head

/-! ### Customer -/

def retrieveCustomer (wID : UInt16) (dID : UInt8) (cID : UInt32) : RemoteAccess :=
  S.reach .customer (S.getServerNum wID) (S.customerIndex wID dID cID) .head

def retrieveCustomerOlderVersion (wID : UInt16) (dID : UInt8) (cID : UInt32)
    (versionOffset : UInt64) : RemoteAccess :=
  S.reach .customer (S.getServerNum wID) (S.customerIndex wID dID cID)
    (.olderVersion versionOffset)

def retrieveCustomerPointerList (wID : UInt16) (dID : UInt8) (cID : UInt32) : RemoteAccess :=
  S.reach .customer (S.getServerNum wID) (S.customerIndex wID dID cID) .pointerList

def lockCustomer (customerV : Version Customer) : RemoteAccess :=
  S.reach .customer (S.getServerNum customerV.body.C_W_ID)
    (S.customerIndex customerV.body.C_W_ID customerV.body.C_D_ID customerV.body.C_ID) .timestamp

def revertCustomerLock (localRegion : Version Customer) : RemoteAccess :=
  S.reach .customer (S.getServerNum localRegion.body.C_W_ID)
    (S.customerIndex localRegion.body.C_W_ID localRegion.body.C_D_ID localRegion.body.C_ID)
    .timestamp

def updateCustomerPointers (oldHead : Version Customer) : RemoteAccess :=
  S.reach .customer (S.getServerNum oldHead.body.C_W_ID)
    (S.customerIndex oldHead.body.C_W_ID oldHead.body.C_D_ID oldHead.body.C_ID) .pointerList

def updateCustomerOlderVersions (oldHead : Version Customer) : RemoteAccess :=
  S.reach .customer (S.getServerNum oldHead.body.C_W_ID)
    (S.customerIndex oldHead.body.C_W_ID oldHead.body.C_D_ID oldHead.body.C_ID)
    (.olderVersion oldHead.writeTimestamp.versionOffset.toUInt64)

def updateCustomer (localRegion : Version Customer) : RemoteAccess :=
  S.reach .customer (S.getServerNum localRegion.body.C_W_ID)
    (S.customerIndex localRegion.body.C_W_ID localRegion.body.C_D_ID localRegion.body.C_ID) .head

/-! ### Stock

The functions that write a Stock record take the warehouse as an argument and the item from the
row. -/

def retrieveStock (iID : UInt32) (wID : UInt16) : RemoteAccess :=
  S.reach .stock (S.getServerNum wID) (S.stockIndex wID iID) .head

def retrieveStockOlderVersion (iID : UInt32) (wID : UInt16) (versionOffset : UInt64) :
    RemoteAccess :=
  S.reach .stock (S.getServerNum wID) (S.stockIndex wID iID) (.olderVersion versionOffset)

def retrieveStockPointerList (iID : UInt32) (wID : UInt16) : RemoteAccess :=
  S.reach .stock (S.getServerNum wID) (S.stockIndex wID iID) .pointerList

def lockStock (iID : UInt32) (wID : UInt16) : RemoteAccess :=
  S.reach .stock (S.getServerNum wID) (S.stockIndex wID iID) .timestamp

def revertStockLock (iID : UInt32) (wID : UInt16) : RemoteAccess :=
  S.reach .stock (S.getServerNum wID) (S.stockIndex wID iID) .timestamp

def updateStockPointers (oldHead : Version Stock) (wID : UInt16) : RemoteAccess :=
  S.reach .stock (S.getServerNum wID) (S.stockIndex wID oldHead.body.S_I_ID) .pointerList

def updateStockOlderVersions (oldHead : Version Stock) (wID : UInt16) : RemoteAccess :=
  S.reach .stock (S.getServerNum wID) (S.stockIndex wID oldHead.body.S_I_ID)
    (.olderVersion oldHead.writeTimestamp.versionOffset.toUInt64)

def updateStock (stockV : Version Stock) (wID : UInt16) : RemoteAccess :=
  S.reach .stock (S.getServerNum wID) (S.stockIndex wID stockV.body.S_I_ID) .head

/-- What the functions reach when they are called for a key, or with a version `v` of its row, and
the part of the record each of them is meant to reach. -/
def accesses (versionOffset : UInt64) :
    (k : RowKey) → Version (Row k.toKey.table) → List (Part × RemoteAccess)
  | .warehouse wID, v =>
    [(.head, S.retrieveWarehouse wID),
      (.olderVersion versionOffset, S.retrieveWarehouseOlderVersion wID versionOffset),
      (.pointerList, S.retrieveWarehousePointerList wID),
      (.timestamp, S.lockWarehouse v),
      (.timestamp, S.revertWarehouseLock v),
      (.pointerList, S.updateWarehousePointers v),
      (.olderVersion v.writeTimestamp.versionOffset.toUInt64, S.updateWarehouseOlderVersions v),
      (.head, S.updateWarehouse v)]
  | .district wID dID, v =>
    [(.head, S.retrieveDistrict wID dID),
      (.olderVersion versionOffset, S.retrieveDistrictOlderVersion wID dID versionOffset),
      (.pointerList, S.retrieveDistrictPointerList wID dID),
      (.nextOID, S.retrieveAndIncrementDistrictNextOID wID dID),
      (.timestamp, S.lockDistrict v),
      (.timestamp, S.revertDistrictLock v),
      (.pointerList, S.updateDistrictPointers v),
      (.olderVersion v.writeTimestamp.versionOffset.toUInt64, S.updateDistrictOlderVersions v),
      (.head, S.updateDistrict v)]
  | .customer wID dID cID, v =>
    [(.head, S.retrieveCustomer wID dID cID),
      (.olderVersion versionOffset, S.retrieveCustomerOlderVersion wID dID cID versionOffset),
      (.pointerList, S.retrieveCustomerPointerList wID dID cID),
      (.timestamp, S.lockCustomer v),
      (.timestamp, S.revertCustomerLock v),
      (.pointerList, S.updateCustomerPointers v),
      (.olderVersion v.writeTimestamp.versionOffset.toUInt64, S.updateCustomerOlderVersions v),
      (.head, S.updateCustomer v)]
  | .stock wID iID, v =>
    [(.head, S.retrieveStock iID wID),
      (.olderVersion versionOffset, S.retrieveStockOlderVersion iID wID versionOffset),
      (.pointerList, S.retrieveStockPointerList iID wID),
      (.timestamp, S.lockStock iID wID),
      (.timestamp, S.revertStockLock iID wID),
      (.pointerList, S.updateStockPointers v wID),
      (.olderVersion v.writeTimestamp.versionOffset.toUInt64, S.updateStockOlderVersions v wID),
      (.head, S.updateStock v wID)]

def tableIndex : RowKey → UInt64
  | .warehouse wID => S.warehouseIndex wID
  | .district wID dID => S.districtIndex wID dID
  | .customer wID dID cID => S.customerIndex wID dID cID
  | .stock wID iID => S.stockIndex wID iID

theorem eq_reach_of_mem_accesses {versionOffset : UInt64} {k : RowKey}
    {v : Version (Row k.toKey.table)} (hv : k.toKey.Names v.body) {x : Part × RemoteAccess}
    (hx : x ∈ S.accesses versionOffset k v) :
    x.2 = S.reach k.table (S.getServerNum k.wID) (S.tableIndex k) x.1 := by
  -- The type of `v` mentions the key, so the key fields of the row are substituted for the key only
  -- once `v` is a version of a row of the table.
  cases k with
  | warehouse wID =>
    have h (v : Version Warehouse) (hv : v.body.W_ID = wID)
        (hx : x ∈ S.accesses versionOffset (.warehouse wID) v) :
        x.2 = S.reach .warehouse (S.getServerNum wID) (S.warehouseIndex wID) x.1 := by
      subst hv
      simp only [accesses, List.mem_cons, List.not_mem_nil, or_false] at hx
      rcases hx with rfl | rfl | rfl | rfl | rfl | rfl | rfl | rfl <;> rfl
    exact h v hv hx
  | district wID dID =>
    have h (v : Version District) (hv : v.body.D_W_ID = wID ∧ v.body.D_ID = dID)
        (hx : x ∈ S.accesses versionOffset (.district wID dID) v) :
        x.2 = S.reach .district (S.getServerNum wID) (S.districtIndex wID dID) x.1 := by
      obtain ⟨rfl, rfl⟩ := hv
      simp only [accesses, List.mem_cons, List.not_mem_nil, or_false] at hx
      rcases hx with rfl | rfl | rfl | rfl | rfl | rfl | rfl | rfl | rfl <;> rfl
    exact h v hv hx
  | customer wID dID cID =>
    have h (v : Version Customer)
        (hv : v.body.C_W_ID = wID ∧ v.body.C_D_ID = dID ∧ v.body.C_ID = cID)
        (hx : x ∈ S.accesses versionOffset (.customer wID dID cID) v) :
        x.2 = S.reach .customer (S.getServerNum wID) (S.customerIndex wID dID cID) x.1 := by
      obtain ⟨rfl, rfl, rfl⟩ := hv
      simp only [accesses, List.mem_cons, List.not_mem_nil, or_false] at hx
      rcases hx with rfl | rfl | rfl | rfl | rfl | rfl | rfl | rfl <;> rfl
    exact h v hv hx
  | stock wID iID =>
    have h (v : Version Stock) (hv : v.body.S_I_ID = iID)
        (hx : x ∈ S.accesses versionOffset (.stock wID iID) v) :
        x.2 = S.reach .stock (S.getServerNum wID) (S.stockIndex wID iID) x.1 := by
      subst hv
      simp only [accesses, List.mem_cons, List.not_mem_nil, or_false] at hx
      rcases hx with rfl | rfl | rfl | rfl | rfl | rfl | rfl | rfl <;> rfl
    exact h v hv.2 hx

/-! ## The server's tables -/

def warehouseID (serverNum : UInt64) (i : ℕ) : UInt16 :=
  (serverNum * S.WAREHOUSE_PER_SERVER + UInt64.ofNat i).toUInt16

def districtPosition (warehouseOffset : UInt64) (dID : UInt16) : UInt64 :=
  warehouseOffset * S.DISTRICT_PER_WAREHOUSE + dID.toUInt64

def customerPosition (warehouseOffset : UInt64) (dID : UInt8) (cID : UInt32) : UInt64 :=
  (warehouseOffset * S.DISTRICT_PER_WAREHOUSE + dID.toUInt64) * S.CUSTOMER_PER_DISTRICT +
    cID.toUInt64

def stockPosition (warehouseOffset : UInt64) (itemID : UInt32) : UInt64 :=
  warehouseOffset * S.ITEMS_CNT + itemID.toUInt64

end TableSettings

/-- A row that is stored in its table, with the key fields it is initialised with. -/
structure StoredRow where
  position : UInt64
  key : RowKey

namespace TableSettings

variable (S : TableSettings)

/-- `TPCCDB::populateWarehouse`: the rows of one warehouse, in the order of the loops. -/
def populateWarehouse (warehouseOffset : UInt64) (wID : UInt16) : List StoredRow :=
  (List.range S.ITEMS_CNT.toNat).map (fun i =>
    ⟨S.stockPosition warehouseOffset (UInt32.ofNat i), .stock wID (UInt32.ofNat i)⟩) ++
  [⟨warehouseOffset, .warehouse wID⟩] ++
  (List.range S.DISTRICT_PER_WAREHOUSE.toNat).flatMap (fun d =>
    ⟨S.districtPosition warehouseOffset (UInt8.ofNat d).toUInt16, .district wID (UInt8.ofNat d)⟩ ::
    (List.range S.CUSTOMER_PER_DISTRICT.toNat).map (fun c =>
      ⟨S.customerPosition warehouseOffset (UInt8.ofNat d) (UInt16.ofNat c).toUInt32,
        .customer wID (UInt8.ofNat d) (UInt16.ofNat c).toUInt32⟩))

def populate (serverNum : UInt64) : List StoredRow :=
  (List.range S.WAREHOUSE_PER_SERVER.toNat).flatMap fun i =>
    S.populateWarehouse (UInt64.ofNat i) (S.warehouseID serverNum i)

end TableSettings

def rowAt (rows : List StoredRow) (t : KeyedTable) (position : UInt64) : Option RowKey :=
  (rows.reverse.find? fun r => r.key.table = t ∧ r.position = position).map StoredRow.key

theorem rowAt_eq_some {rows : List StoredRow} {r : StoredRow} (hr : r ∈ rows)
    (huniq : ∀ r' ∈ rows, r'.key.table = r.key.table → r'.position = r.position →
      r'.key = r.key) :
    rowAt rows r.key.table r.position = some r.key := by
  have hsome : (rows.reverse.find? fun r' =>
      r'.key.table = r.key.table ∧ r'.position = r.position).isSome = true := by
    rw [List.find?_isSome]
    exact ⟨r, List.mem_reverse.2 hr, by simp⟩
  obtain ⟨r', hr'⟩ := Option.isSome_iff_exists.1 hsome
  have hprop := List.find?_some hr'
  have hmem := List.mem_reverse.1 (List.mem_of_find?_eq_some hr')
  simp only [decide_eq_true_eq] at hprop
  rw [rowAt, hr', Option.map_some, huniq r' hmem hprop.1 hprop.2]

/-! ## Positions as numbers -/

namespace Layout

variable (L : Layout)

def server (k : RowKey) : ℕ := k.wID.toNat / L.WAREHOUSE_PER_SERVER.toNat

def warehouseOffset (wID : UInt16) : ℕ := wID.toNat % L.WAREHOUSE_PER_SERVER.toNat

/-- The index of a row in its table. -/
def position : RowKey → ℕ
  | .warehouse wID => L.warehouseOffset wID
  | .district wID dID => L.warehouseOffset wID * L.DISTRICT_PER_WAREHOUSE.toNat + dID.toNat
  | .customer wID dID cID =>
    (L.warehouseOffset wID * L.DISTRICT_PER_WAREHOUSE.toNat + dID.toNat) *
      L.CUSTOMER_PER_DISTRICT.toNat + cID.toNat
  | .stock wID iID => L.warehouseOffset wID * L.ITEMS_CNT.toNat + iID.toNat

def InRange : RowKey → Prop
  | .warehouse wID => wID.toNat < L.WAREHOUSE_CNT
  | .district wID dID => wID.toNat < L.WAREHOUSE_CNT ∧ dID.toNat < L.DISTRICT_PER_WAREHOUSE.toNat
  | .customer wID dID cID => wID.toNat < L.WAREHOUSE_CNT ∧
      dID.toNat < L.DISTRICT_PER_WAREHOUSE.toNat ∧ cID.toNat < L.CUSTOMER_PER_DISTRICT.toNat
  | .stock wID iID => wID.toNat < L.WAREHOUSE_CNT ∧ iID.toNat < L.ITEMS_CNT.toNat

variable {L} {k k' : RowKey} {t : KeyedTable}

theorem InRange.wID_lt (h : L.InRange k) : k.wID.toNat < L.WAREHOUSE_CNT := by
  cases k with
  | warehouse => exact h
  | district | customer | stock => exact h.1

theorem InRange.server_lt (h : L.InRange k) : L.server k < L.SERVER_CNT.toNat := by
  rw [server, Nat.div_lt_iff_lt_mul L.warehousePerServer_pos, Nat.mul_comm]
  exact h.wID_lt

theorem warehouseOffset_lt (L : Layout) (wID : UInt16) :
    L.warehouseOffset wID < L.WAREHOUSE_PER_SERVER.toNat :=
  Nat.mod_lt _ L.warehousePerServer_pos

theorem InRange.position_lt (h : L.InRange k) : L.position k < L.rowCnt k.table := by
  cases k with
  | warehouse wID => exact L.warehouseOffset_lt wID
  | district wID dID => exact index_lt (L.warehouseOffset_lt wID) h.2
  | customer wID dID cID => exact index_lt (index_lt (L.warehouseOffset_lt wID) h.2.1) h.2.2
  | stock wID iID => exact index_lt (L.warehouseOffset_lt wID) h.2

theorem wID_inj {wID wID' : UInt16}
    (hs : wID.toNat / L.WAREHOUSE_PER_SERVER.toNat = wID'.toNat / L.WAREHOUSE_PER_SERVER.toNat)
    (ho : L.warehouseOffset wID = L.warehouseOffset wID') : wID = wID' := by
  rw [← UInt16.toNat_inj, ← Nat.div_add_mod wID.toNat L.WAREHOUSE_PER_SERVER.toNat,
    ← Nat.div_add_mod wID'.toNat L.WAREHOUSE_PER_SERVER.toNat, hs]
  exact congrArg _ ho

/-- **Different keys of a table have different places.** -/
theorem InRange.eq_of_position_eq (h : L.InRange k) (h' : L.InRange k') (ht : k.table = k'.table)
    (hs : L.server k = L.server k') (hp : L.position k = L.position k') : k = k' := by
  cases k with
  | warehouse wID =>
    cases k' with
    | warehouse wID' =>
      obtain rfl : wID = wID' := wID_inj hs hp
      rfl
    | district | customer | stock => cases ht
  | district wID dID =>
    cases k' with
    | district wID' dID' =>
      obtain ⟨ho, hd⟩ := index_inj h.2 h'.2 hp
      obtain rfl : wID = wID' := wID_inj hs ho
      rw [UInt8.toNat_inj.1 hd]
    | warehouse | customer | stock => cases ht
  | customer wID dID cID =>
    cases k' with
    | customer wID' dID' cID' =>
      obtain ⟨hod, hc⟩ := index_inj h.2.2 h'.2.2 hp
      obtain ⟨ho, hd⟩ := index_inj h.2.1 h'.2.1 hod
      obtain rfl : wID = wID' := wID_inj hs ho
      rw [UInt8.toNat_inj.1 hd, UInt32.toNat_inj.1 hc]
    | warehouse | district | stock => cases ht
  | stock wID iID =>
    cases k' with
    | stock wID' iID' =>
      obtain ⟨ho, hi⟩ := index_inj h.2 h'.2 hp
      obtain rfl : wID = wID' := wID_inj hs ho
      rw [UInt32.toNat_inj.1 hi]
    | warehouse | district | customer => cases ht

/-! ## No computation wraps around -/

theorem sizeofVersion_pos (L : Layout) (t : KeyedTable) : 0 < (L.sizeofVersion t).toNat := by
  have h := L.timestamp_le t
  have h8 : sizeofTimestamp.toNat = 8 := rfl
  omega

theorem rowCnt_lt (L : Layout) (t : KeyedTable) : L.rowCnt t < 2 ^ 64 :=
  (Nat.le_mul_of_pos_right _ (L.sizeofVersion_pos t)).trans_lt (L.headVersions_fit t)

theorem toNat_tableSize (L : Layout) (t : KeyedTable) : (L.tableSize t).toNat = L.rowCnt t := by
  refine toNat_of_eq_ofNat ?_ (L.rowCnt_lt t)
  cases t with
  | warehouse => simp [TableSettings.tableSize, TableSettings.rowCnt]
  | district => simp [TableSettings.tableSize, TableSettings.rowCnt, UInt64.mul_comm]
  | customer =>
    simp [TableSettings.tableSize, TableSettings.rowCnt]
    ac_rfl
  | stock =>
    simp [TableSettings.tableSize, TableSettings.rowCnt, TableSettings.STOCK_PER_WAREHOUSE,
      UInt64.mul_comm]

theorem toNat_getServerNum (L : Layout) (k : RowKey) :
    (L.getServerNum k.wID).toNat = L.server k := by
  simp [TableSettings.getServerNum, server]

theorem toNat_getWarehouseOffsetOnServer (L : Layout) (wID : UInt16) :
    (L.getWarehouseOffsetOnServer wID).toNat = L.warehouseOffset wID := by
  have hw := wID.toNat_lt
  have hle := Nat.div_mul_le_self wID.toNat L.WAREHOUSE_PER_SERVER.toNat
  have hmul : (L.getServerNum wID * L.WAREHOUSE_PER_SERVER).toNat =
      wID.toNat / L.WAREHOUSE_PER_SERVER.toNat * L.WAREHOUSE_PER_SERVER.toNat := by
    rw [UInt64.toNat_mul, TableSettings.getServerNum, UInt64.toNat_div, UInt16.toNat_toUInt64]
    exact Nat.mod_eq_of_lt (by omega)
  have hsub : L.getServerNum wID * L.WAREHOUSE_PER_SERVER ≤ wID.toUInt64 := by
    rw [UInt64.le_iff_toNat_le, hmul, UInt16.toNat_toUInt64]
    exact hle
  have hmod := Nat.div_add_mod' wID.toNat L.WAREHOUSE_PER_SERVER.toNat
  rw [TableSettings.getWarehouseOffsetOnServer, UInt64.toNat_toUInt16,
    UInt64.toNat_sub_of_le _ _ hsub, hmul, UInt16.toNat_toUInt64, warehouseOffset]
  omega

@[simp] theorem toUInt64_getWarehouseOffsetOnServer (L : Layout) (wID : UInt16) :
    (L.getWarehouseOffsetOnServer wID).toUInt64 = UInt64.ofNat (L.warehouseOffset wID) := by
  rw [← toNat_getWarehouseOffsetOnServer, ← UInt64.toNat_inj]
  simp

theorem tableIndex_eq_ofNat (L : Layout) (k : RowKey) :
    L.tableIndex k = UInt64.ofNat (L.position k) := by
  cases k with
  | warehouse wID => exact L.toUInt64_getWarehouseOffsetOnServer wID
  | district wID dID =>
    simp [TableSettings.tableIndex, TableSettings.districtIndex, position]
  | customer wID dID cID =>
    simp [TableSettings.tableIndex, TableSettings.customerIndex, position]
  | stock wID iID =>
    simp [TableSettings.tableIndex, TableSettings.stockIndex, position]

theorem InRange.toNat_tableIndex (h : L.InRange k) : (L.tableIndex k).toNat = L.position k :=
  toNat_of_eq_ofNat (L.tableIndex_eq_ofNat k) (h.position_lt.trans (L.rowCnt_lt _))

end Layout

namespace Part

variable (L : Layout)

def region (t : KeyedTable) : Part → Region
  | head | timestamp | nextOID => .headVersions t
  | pointerList => .tsList t
  | olderVersion _ => .olderVersions t

/-- The byte offset of a part of the row at index `position`. -/
def offset (t : KeyedTable) (position : ℕ) : Part → ℕ
  | head => position * (L.sizeofVersion t).toNat
  | timestamp => position * (L.sizeofVersion t).toNat + (L.getOffsetOfTimestamp t).toNat
  | nextOID => position * (L.sizeofVersion t).toNat +
      (L.getOffsetOfDistrict.toNat + L.getOffsetOfNextOID.toNat)
  | pointerList => position * L.VERSION_NUM.toNat * sizeofTimestamp.toNat
  | olderVersion versionOffset =>
    (position * L.VERSION_NUM.toNat + versionOffset.toNat) * (L.sizeofVersion t).toNat

/-- The parts a record has: only a district has an order counter, and the ring has `VERSION_NUM`
slots. -/
def Within (t : KeyedTable) : Part → Prop
  | head | timestamp | pointerList => True
  | nextOID => t = .district
  | olderVersion versionOffset => versionOffset.toNat < L.VERSION_NUM.toNat

end Part

def Region.sizeInBytes (L : Layout) : Region → ℕ
  | headVersions t => L.rowCnt t * (L.sizeofVersion t).toNat
  | tsList t => L.rowCnt t * L.VERSION_NUM.toNat * sizeofTimestamp.toNat
  | olderVersions t => L.rowCnt t * L.VERSION_NUM.toNat * (L.sizeofVersion t).toNat

theorem Region.sizeInBytes_lt (L : Layout) (r : Region) : r.sizeInBytes L < 2 ^ 64 := by
  cases r with
  | headVersions t => exact L.headVersions_fit t
  | tsList t => exact L.tsList_fit t
  | olderVersions t => exact L.olderVersions_fit t

namespace Layout

variable {L : Layout} {k k' : RowKey} {t : KeyedTable}

private theorem entry_le {i n size len : ℕ} (hi : i < n) (hlen : len ≤ size) :
    i * size + len ≤ n * size := by
  have h : (i + 1) * size ≤ n * size := Nat.mul_le_mul_right size hi
  rw [Nat.add_mul, Nat.one_mul] at h
  omega

/-- A part of a record lies in its region, whatever the size that is passed to the verb. -/
theorem offset_add_size_le {i : ℕ} (hi : i < L.rowCnt t) (serverNum tableIndex : UInt64) {p : Part}
    (hp : p.Within L t) :
    p.offset L t i + (L.reach t serverNum tableIndex p).size.toNat ≤
      (p.region t).sizeInBytes L := by
  have h8 : sizeofTimestamp.toNat = 8 := rfl
  have hsize : (L.sizeofVersion t).toUInt32.toNat ≤ (L.sizeofVersion t).toNat := by
    rw [UInt64.toNat_toUInt32]
    exact Nat.mod_le _ _
  cases p with
  | head => exact entry_le hi hsize
  | timestamp =>
    rw [Part.offset, Nat.add_assoc]
    exact entry_le hi (L.timestamp_le t)
  | nextOID =>
    obtain rfl : t = .district := hp
    rw [Part.offset, Nat.add_assoc]
    exact entry_le hi L.nextOID_le
  | pointerList =>
    have hlen : (L.VERSION_NUM * sizeofTimestamp).toUInt32.toNat ≤
        L.VERSION_NUM.toNat * sizeofTimestamp.toNat := by
      rw [UInt64.toNat_toUInt32, UInt64.toNat_mul]
      exact (Nat.mod_le _ _).trans (Nat.mod_le _ _)
    simp only [Part.offset, Part.region, Region.sizeInBytes, Nat.mul_assoc]
    exact entry_le hi hlen
  | olderVersion versionOffset => exact entry_le (index_lt hi hp) hsize

/-- The byte offset is the one of the row's position, without wrap-around. -/
theorem InRange.toNat_reach_offset (h : L.InRange k) (serverNum : UInt64) {p : Part}
    (hp : p.Within L k.table) :
    (L.reach k.table serverNum (L.tableIndex k) p).offset.toNat =
      p.offset L k.table (L.position k) := by
  refine toNat_of_eq_ofNat ?_ ?_
  · rw [tableIndex_eq_ofNat]
    cases p with
    | head | timestamp | pointerList | olderVersion =>
      simp [TableSettings.reach, Part.offset]
    | nextOID => simp [TableSettings.reach, Part.offset, UInt64.add_assoc]
  · have hle := offset_add_size_le h.position_lt serverNum (L.tableIndex k) hp
    have hlt := Region.sizeInBytes_lt L (p.region k.table)
    omega

/-! ## The populated tables -/

theorem toNat_warehouseID {serverNum i : ℕ} (hs : serverNum < L.SERVER_CNT.toNat)
    (hi : i < L.WAREHOUSE_PER_SERVER.toNat) :
    (L.warehouseID (UInt64.ofNat serverNum) i).toNat =
      serverNum * L.WAREHOUSE_PER_SERVER.toNat + i := by
  have hlt : serverNum * L.WAREHOUSE_PER_SERVER.toNat + i < L.WAREHOUSE_CNT := by
    rw [TableSettings.WAREHOUSE_CNT, Nat.mul_comm L.WAREHOUSE_PER_SERVER.toNat]
    exact index_lt hs hi
  have hle := L.warehouseCnt_le
  have hval : (UInt64.ofNat serverNum * L.WAREHOUSE_PER_SERVER + UInt64.ofNat i).toNat =
      serverNum * L.WAREHOUSE_PER_SERVER.toNat + i :=
    toNat_of_eq_ofNat (by simp) (by omega)
  rw [TableSettings.warehouseID, UInt64.toNat_toUInt16, hval]
  omega

theorem toNat_loopIndices (L : Layout) :
    (∀ d < L.DISTRICT_PER_WAREHOUSE.toNat, (UInt8.ofNat d).toNat = d) ∧
      (∀ c < L.CUSTOMER_PER_DISTRICT.toNat, (UInt16.ofNat c).toUInt32.toNat = c) ∧
      ∀ i < L.ITEMS_CNT.toNat, (UInt32.ofNat i).toNat = i := by
  have hd255 := L.districtPerWarehouse_le
  have hc65535 := L.customerPerDistrict_le
  have hi32 := L.itemsCnt_lt
  refine ⟨?_, ?_, ?_⟩
  · intro d hd
    exact UInt8.toNat_ofNat_of_lt' (show d < 2 ^ 8 by omega)
  · intro c hc
    rw [UInt16.toNat_toUInt32]
    exact UInt16.toNat_ofNat_of_lt' (show c < 2 ^ 16 by omega)
  · intro i hi
    exact UInt32.toNat_ofNat_of_lt' (show i < 2 ^ 32 by omega)

theorem of_mem_populateWarehouse {wID : UInt16} {r : StoredRow} (hw : wID.toNat < L.WAREHOUSE_CNT)
    (hr : r ∈ L.populateWarehouse (UInt64.ofNat (L.warehouseOffset wID)) wID) :
    L.InRange r.key ∧ r.key.wID = wID ∧ r.position = L.tableIndex r.key := by
  obtain ⟨hdistrict, hcustomer, hitem⟩ := L.toNat_loopIndices
  simp only [TableSettings.populateWarehouse, List.mem_append, List.mem_map, List.mem_range,
    List.mem_flatMap, List.mem_cons, List.not_mem_nil, or_false] at hr
  obtain (⟨i, hi, rfl⟩ | rfl) | ⟨d, hd, rfl | ⟨c, hc, rfl⟩⟩ := hr
  · refine ⟨⟨hw, ?_⟩, rfl, ?_⟩
    · rwa [hitem i hi]
    · simp [TableSettings.stockPosition, TableSettings.tableIndex, TableSettings.stockIndex]
  · refine ⟨hw, rfl, ?_⟩
    simp [TableSettings.tableIndex, TableSettings.warehouseIndex]
  · refine ⟨⟨hw, ?_⟩, rfl, ?_⟩
    · rwa [hdistrict d hd]
    · simp [TableSettings.districtPosition, TableSettings.tableIndex, TableSettings.districtIndex]
  · refine ⟨⟨hw, ?_, ?_⟩, rfl, ?_⟩
    · rwa [hdistrict d hd]
    · rwa [hcustomer c hc]
    · simp [TableSettings.customerPosition, TableSettings.tableIndex, TableSettings.customerIndex]

theorem InRange.mem_populateWarehouse (h : L.InRange k) (warehouseOffset : UInt64) :
    ∃ r ∈ L.populateWarehouse warehouseOffset k.wID, r.key = k := by
  obtain ⟨hdistrict, hcustomer, hitem⟩ := L.toNat_loopIndices
  simp only [TableSettings.populateWarehouse, List.mem_append, List.mem_map, List.mem_range,
    List.mem_flatMap, List.mem_cons, List.not_mem_nil, or_false]
  cases k with
  | warehouse wID => exact ⟨_, .inl (.inr rfl), rfl⟩
  | district wID dID =>
    refine ⟨_, .inr ⟨dID.toNat, h.2, .inl rfl⟩, ?_⟩
    simp [RowKey.wID]
  | customer wID dID cID =>
    refine ⟨_, .inr ⟨dID.toNat, h.2.1, .inr ⟨cID.toNat, h.2.2, rfl⟩⟩, ?_⟩
    have hc : (UInt16.ofNat cID.toNat).toUInt32 = cID := by
      rw [← UInt32.toNat_inj, hcustomer _ h.2.2]
    simp only [hc, UInt8.ofNat_toNat]
    rfl
  | stock wID iID =>
    refine ⟨_, .inl (.inl ⟨iID.toNat, h.2, rfl⟩), ?_⟩
    simp [RowKey.wID]

theorem warehouseID_cases {serverNum i : ℕ} (hs : serverNum < L.SERVER_CNT.toNat)
    (hi : i < L.WAREHOUSE_PER_SERVER.toNat) :
    (L.warehouseID (UInt64.ofNat serverNum) i).toNat < L.WAREHOUSE_CNT ∧
      L.warehouseOffset (L.warehouseID (UInt64.ofNat serverNum) i) = i ∧
      (L.warehouseID (UInt64.ofNat serverNum) i).toNat / L.WAREHOUSE_PER_SERVER.toNat =
        serverNum := by
  rw [warehouseOffset, toNat_warehouseID hs hi]
  refine ⟨?_, Nat.mul_add_mod_of_lt hi, ?_⟩
  · rw [TableSettings.WAREHOUSE_CNT, Nat.mul_comm L.WAREHOUSE_PER_SERVER.toNat]
    exact index_lt hs hi
  · rw [Nat.mul_comm serverNum, Nat.mul_add_div L.warehousePerServer_pos, Nat.div_eq_of_lt hi,
      Nat.add_zero]

theorem of_mem_populate {serverNum : ℕ} {r : StoredRow} (hs : serverNum < L.SERVER_CNT.toNat)
    (hr : r ∈ L.populate (UInt64.ofNat serverNum)) :
    L.InRange r.key ∧ L.server r.key = serverNum ∧ r.position = L.tableIndex r.key := by
  obtain ⟨i, hi, hr⟩ := List.mem_flatMap.1 hr
  obtain ⟨hw, hoff, hserver⟩ := warehouseID_cases hs (List.mem_range.1 hi)
  obtain ⟨hrange, hwID, hpos⟩ := of_mem_populateWarehouse hw (by rwa [hoff])
  exact ⟨hrange, by rw [server, hwID, hserver], hpos⟩

theorem InRange.mem_populate (h : L.InRange k) :
    ∃ r ∈ L.populate (UInt64.ofNat (L.server k)), r.key = k := by
  have hoff := L.warehouseOffset_lt k.wID
  obtain ⟨-, hoff', hserver⟩ := warehouseID_cases h.server_lt hoff
  have hwID : L.warehouseID (UInt64.ofNat (L.server k)) (L.warehouseOffset k.wID) = k.wID :=
    wID_inj hserver hoff'
  obtain ⟨r, hr, hkey⟩ := h.mem_populateWarehouse (UInt64.ofNat (L.warehouseOffset k.wID))
  refine ⟨r, List.mem_flatMap.2 ⟨_, List.mem_range.2 hoff, ?_⟩, hkey⟩
  rwa [hwID]

/-- **A server stores a row where clients look for it.** -/
theorem InRange.rowAt_populate (h : L.InRange k) :
    rowAt (L.populate (L.getServerNum k.wID)) k.table (L.tableIndex k) = some k := by
  have hserver : L.getServerNum k.wID = UInt64.ofNat (L.server k) := by
    rw [← toNat_getServerNum, UInt64.ofNat_toNat]
  obtain ⟨r, hr, rfl⟩ := h.mem_populate
  rw [hserver, ← (of_mem_populate h.server_lt hr).2.2]
  refine rowAt_eq_some hr ?_
  -- Rows of one table at one position have the same key.
  intro r' hr' htable hposition
  obtain ⟨hrange', hserver', hpos'⟩ := of_mem_populate h.server_lt hr'
  refine hrange'.eq_of_position_eq h htable hserver' ?_
  rw [← hrange'.toNat_tableIndex, ← h.toNat_tableIndex, ← hpos', hposition,
    (of_mem_populate h.server_lt hr).2.2]

/-- **Keys and addresses.** For a row of the database, all functions of the client reach the same
server and the same index of its table, the reached bytes lie in the region allocated for them,
this is where the server stored the row, and no other row of the table has the same place or shares
a slot of its pointer list or ring. -/
theorem key_to_address (L : Layout) (k : RowKey) (hk : L.InRange k) :
    (∀ (versionOffset : UInt64) (v : Version (Row k.toKey.table)), k.toKey.Names v.body →
      ∀ x ∈ L.accesses versionOffset k v, x.1.Within L k.table →
        x.2.serverNum.toNat = L.server k ∧ x.2.region = x.1.region k.table ∧
        x.2.offset.toNat = x.1.offset L k.table (L.position k) ∧
        x.2.offset.toNat + x.2.size.toNat ≤ x.2.region.sizeInBytes L) ∧
    L.server k < L.SERVER_CNT.toNat ∧
    L.position k < (L.tableSize k.table).toNat ∧
    rowAt (L.populate (L.getServerNum k.wID)) k.table (UInt64.ofNat (L.position k)) = some k ∧
    ∀ k', L.InRange k' → k'.table = k.table → L.server k' = L.server k → k' ≠ k →
      L.position k' ≠ L.position k ∧
      ∀ slot < L.VERSION_NUM.toNat, ∀ slot' < L.VERSION_NUM.toNat,
        L.position k' * L.VERSION_NUM.toNat + slot' ≠
          L.position k * L.VERSION_NUM.toNat + slot := by
  refine ⟨?_, hk.server_lt, ?_, ?_, ?_⟩
  · intro versionOffset v hv x hx hwithin
    rw [L.eq_reach_of_mem_accesses hv hx]
    have hregion : (L.reach k.table (L.getServerNum k.wID) (L.tableIndex k) x.1).region =
        x.1.region k.table := by
      cases x.1 <;> rfl
    have hserver : (L.reach k.table (L.getServerNum k.wID) (L.tableIndex k) x.1).serverNum =
        L.getServerNum k.wID := by
      cases x.1 <;> rfl
    have hoffset := hk.toNat_reach_offset (L.getServerNum k.wID) hwithin
    refine ⟨?_, hregion, hoffset, ?_⟩
    · rw [hserver, toNat_getServerNum]
    · rw [hoffset, hregion]
      exact offset_add_size_le hk.position_lt _ _ hwithin
  · rw [toNat_tableSize]
    exact hk.position_lt
  · rw [← tableIndex_eq_ofNat]
    exact hk.rowAt_populate
  · intro k' hk' htable hserver hne
    have hposition : L.position k' ≠ L.position k := fun h =>
      hne (hk'.eq_of_position_eq hk htable hserver h)
    refine ⟨hposition, ?_⟩
    intro slot hslot slot' hslot' h
    exact hposition (index_inj hslot' hslot h).1

/-- The settings of `config.hpp`. -/
def config : Layout where
  SERVER_CNT := 3
  WAREHOUSE_PER_SERVER := 50
  DISTRICT_PER_WAREHOUSE := 10
  CUSTOMER_PER_DISTRICT := 3000
  ITEMS_CNT := 100000
  VERSION_NUM := 3
  sizeofVersion
    | .warehouse => 104
    | .district => 120
    | .customer => 672
    | .stock => 304
  getOffsetOfTimestamp _ := 0
  getOffsetOfDistrict := 8
  getOffsetOfNextOID := 8
  serverCnt_pos := by decide
  warehousePerServer_pos := by decide
  warehouseCnt_le := by decide
  districtPerWarehouse_pos := by decide
  districtPerWarehouse_le := by decide
  customerPerDistrict_pos := by decide
  customerPerDistrict_le := by decide
  itemsCnt_pos := by decide
  itemsCnt_lt := by decide
  versionNum_pos := by decide
  headVersions_fit t := by cases t <;> decide
  tsList_fit t := by cases t <;> decide
  olderVersions_fit t := by cases t <;> decide
  timestamp_le t := by cases t <;> decide
  nextOID_le := by decide

/-- A customer of the second server's eighth warehouse. -/
theorem key_to_address_config :
    config.InRange (.customer 57 3 11) ∧
    rowAt (config.populate (config.getServerNum 57)) .customer
      (UInt64.ofNat (config.position (.customer 57 3 11))) = some (.customer 57 3 11) := by
  have hk : config.InRange (.customer 57 3 11) := ⟨by decide, by decide, by decide⟩
  exact ⟨hk, (key_to_address config (.customer 57 3 11) hk).2.2.2.1⟩

end Layout

end RdmaSnapshot
