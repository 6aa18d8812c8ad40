import RdmaSnapshot.Index
import RdmaSnapshot.Populate
import RdmaSnapshot.Lib.MixedRadix
import RdmaSnapshot.Lib.OrderedSet

/-!
# The items of the last orders of a district

`TPCCDB::handleLast20OrdersIndexRequest` answers the index request of a StockLevel: from the index
of order lines it finds the rows of the last twenty orders of a district, and it collects the item
ids of these rows in a `std::set`. An order that is not registered yet ends the loop by an
exception.
-/

namespace RdmaSnapshot

variable {cfg : Config}

instance isTrans_lt : IsTrans UInt32 (· < ·) := ⟨fun _ _ _ => UInt32.lt_trans⟩

instance trichotomous_lt : Std.Trichotomous fun a b : UInt32 => a < b :=
  ⟨fun _ _ hab hba => UInt32.le_antisymm (UInt32.not_lt.1 hba) (UInt32.not_lt.1 hab)⟩

structure Last20OrdersIndexResMsg where
  isSuccessful : Bool
  orderlinesCnt : ℕ
  itemIDs : ℕ → UInt32

def Last20OrdersIndexResMsg.items (res : Last20OrdersIndexResMsg) : List UInt32 :=
  (List.range res.orderlinesCnt).map res.itemIDs

abbrev IDSet := OrderedSet UInt32 (· < ·)

/-- The index and the rows of the order lines of a server. An order has at most
`ORDER_MAX_OL_CNT` lines, and its rows are in the table. The table has
`clientsCnt * ORDER_MAX_OL_CNT * ORDER_BUFFER_PER_CLIENT` rows: with the constants of `config.hpp`
and client ids of 16 bits, fewer than `2 ^ 32`. -/
structure OrderLines (cfg : Config) where
  ix : IndexState
  headVersions : ℕ → Version OrderLine
  size : ℕ
  size_le : size ≤ 2 ^ 32
  orderLineCnt_le : ∀ (d : DistrictID cfg) oID addr,
    OrderLineTable.getOrderLineMemoryAddress ix d oID = some addr →
      addr.orderLineCnt.toNat ≤ cfg.ORDER_MAX_OL_CNT
  row_lt : ∀ (d : DistrictID cfg) oID addr,
    OrderLineTable.getOrderLineMemoryAddress ix d oID = some addr →
      ∀ i < addr.orderLineCnt.toNat,
        DBExecutor.orderLineIndex cfg addr.clientWhoOrdered (addr.clientRegionOffset + i) < size

/-! ## The handler -/

namespace TPCCDB

variable (cfg : Config) (headVersions : ℕ → Version OrderLine)

/-- The index of a row, which the handler casts to `unsigned`. -/
def rowIndex (addr : OrderLineAddressIdentifier) (i : ℕ) : ℕ :=
  DBExecutor.orderLineIndex cfg addr.clientWhoOrdered (addr.clientRegionOffset + i) % 2 ^ 32

def insertItems (addr : OrderLineAddressIdentifier) (distinctIDs : IDSet) : IDSet :=
  (List.range addr.orderLineCnt.toNat).foldl
    (fun ids i => ids.insert (headVersions (rowIndex cfg addr i)).body.OL_I_ID) distinctIDs

/-- The outer loop, `n` orders before its end; `none` is the exception. -/
def collectItems {cfg : Config} (headVersions : ℕ → Version OrderLine) (ix : IndexState)
    (d : DistrictID cfg) : ℕ → UInt32 → IDSet → Option IDSet
  | 0, _, distinctIDs => some distinctIDs
  | n + 1, oID, distinctIDs =>
    match OrderLineTable.getOrderLineMemoryAddress ix d oID with
    | none => none
    | some addr =>
      collectItems headVersions ix d n (oID + 1) (insertItems cfg headVersions addr distinctIDs)

/-- The first order of the window; the subtraction is on `int32_t`. -/
def firstOrder (dNextOID : UInt32) : UInt32 :=
  let oID_s : ℤ := dNextOID.toInt32.toInt - 20
  if oID_s < 0 then 0 else UInt32.ofNat oID_s.toNat

def handleLast20OrdersIndexRequest {cfg : Config} (headVersions : ℕ → Version OrderLine)
    (ix : IndexState) (d : DistrictID cfg) (dNextOID : UInt32) (res : Last20OrdersIndexResMsg) :
    Last20OrdersIndexResMsg :=
  let res := { res with orderlinesCnt := 0 }
  if dNextOID = 0 then { res with isSuccessful := true }
  else
    let oID := firstOrder dNextOID
    match collectItems headVersions ix d (dNextOID.toNat - oID.toNat) oID .empty with
    | none => { res with isSuccessful := false }
    | some distinctIDs =>
      { isSuccessful := true
        -- the elements of the set, in order, over what the array held before
        itemIDs := fun i => distinctIDs.toList.getD i (res.itemIDs i)
        orderlinesCnt := distinctIDs.toList.length }

end TPCCDB

/-! ## What the answer should be -/

namespace OrderLines

open TPCCDB

def Registered (S : OrderLines cfg) (d : DistrictID cfg) (oID : UInt32) : Prop :=
  ∃ addr, OrderLineTable.getOrderLineMemoryAddress S.ix d oID = some addr

def HasItem (S : OrderLines cfg) (d : DistrictID cfg) (oID iID : UInt32) : Prop :=
  ∃ addr, OrderLineTable.getOrderLineMemoryAddress S.ix d oID = some addr ∧
    ∃ i < addr.orderLineCnt.toNat,
      (S.headVersions (DBExecutor.orderLineIndex cfg addr.clientWhoOrdered
        (addr.clientRegionOffset + i))).body.OL_I_ID = iID

/-- The order is one of the last twenty before `dNextOID`. -/
def InWindow (dNextOID oID : UInt32) : Prop :=
  dNextOID.toNat - 20 ≤ oID.toNat ∧ oID.toNat < dNextOID.toNat

/-- The answer to a request about the last twenty orders of a district. -/
structure Last20Orders (S : OrderLines cfg) (d : DistrictID cfg) (dNextOID : UInt32)
    (res : Last20OrdersIndexResMsg) : Prop where
  isSuccessful_iff : res.isSuccessful = true ↔ ∀ oID, InWindow dNextOID oID → S.Registered d oID
  increasing : res.isSuccessful = true → res.items.Pairwise (· < ·)
  mem_items : res.isSuccessful = true → ∀ iID, iID ∈ res.items ↔
    ∃ oID, InWindow dNextOID oID ∧ S.HasItem d oID iID
  orderlinesCnt_le : res.isSuccessful = true → res.orderlinesCnt ≤ 20 * cfg.ORDER_MAX_OL_CNT
  orderlinesCnt_of_failure : res.isSuccessful = false → res.orderlinesCnt = 0

variable (S : OrderLines cfg) {d : DistrictID cfg} {oID : UInt32} {ids ids' : IDSet}
  {addr : OrderLineAddressIdentifier}

/-! ## The loops -/

theorem rowIndex_eq (haddr : OrderLineTable.getOrderLineMemoryAddress S.ix d oID = some addr)
    {i : ℕ} (hi : i < addr.orderLineCnt.toNat) : rowIndex cfg addr i =
      DBExecutor.orderLineIndex cfg addr.clientWhoOrdered (addr.clientRegionOffset + i) :=
  Nat.mod_eq_of_lt (Nat.lt_of_lt_of_le (S.row_lt d oID addr haddr i hi) S.size_le)

theorem mem_insertItems (haddr : OrderLineTable.getOrderLineMemoryAddress S.ix d oID = some addr)
    {iID : UInt32} :
    iID ∈ (insertItems cfg S.headVersions addr ids).toList ↔
      iID ∈ ids.toList ∨ S.HasItem d oID iID := by
  rw [insertItems, OrderedSet.mem_foldl_insert
    (fun i => (S.headVersions (rowIndex cfg addr i)).body.OL_I_ID)]
  refine or_congr Iff.rfl ?_
  constructor
  · rintro ⟨i, hi, hrow⟩
    have hlt := List.mem_range.1 hi
    rw [S.rowIndex_eq haddr hlt] at hrow
    exact ⟨addr, haddr, i, hlt, hrow⟩
  · rintro ⟨addr', haddr', i, hi, hrow⟩
    obtain rfl : addr = addr' := Option.some.inj (haddr.symm.trans haddr')
    exact ⟨i, List.mem_range.2 hi, by rw [S.rowIndex_eq haddr hi]; exact hrow⟩

theorem length_insertItems_le (ids : IDSet)
    (haddr : OrderLineTable.getOrderLineMemoryAddress S.ix d oID = some addr) :
    (insertItems cfg S.headVersions addr ids).toList.length ≤
      ids.toList.length + cfg.ORDER_MAX_OL_CNT := by
  have hinsert := OrderedSet.length_foldl_insert_le
    (fun i => (S.headVersions (rowIndex cfg addr i)).body.OL_I_ID)
    (List.range addr.orderLineCnt.toNat) ids
  have hcnt := S.orderLineCnt_le d oID addr haddr
  rw [List.length_range] at hinsert
  exact Nat.le_trans hinsert (by omega)

theorem add_one_add_ofNat (oID : UInt32) (j : ℕ) :
    oID + 1 + UInt32.ofNat j = oID + UInt32.ofNat (j + 1) := by
  rw [UInt32.add_assoc, UInt32.add_comm 1, UInt32.ofNat_add]
  rfl

theorem add_ofNat_zero (oID : UInt32) : oID + UInt32.ofNat 0 = oID := UInt32.add_zero oID

/-- The outer loop reaches its end exactly if all its orders are registered. -/
theorem isSome_collectItems (n : ℕ) (oID : UInt32) (ids : IDSet) :
    (collectItems S.headVersions S.ix d n oID ids).isSome ↔
      ∀ j < n, S.Registered d (oID + UInt32.ofNat j) := by
  induction n generalizing oID ids with
  | zero => simp [collectItems]
  | succ n ih =>
    rw [Nat.forall_lt_succ_left]
    simp only [← add_one_add_ofNat, add_ofNat_zero]
    rw [collectItems]
    cases haddr : OrderLineTable.getOrderLineMemoryAddress S.ix d oID with
    | none => simp [Registered, haddr]
    | some addr =>
      have hreg : S.Registered d oID := ⟨addr, haddr⟩
      simp only [ih, hreg, true_and]

theorem mem_of_collectItems {n : ℕ} {oID : UInt32} {ids ids' : IDSet}
    (h : collectItems S.headVersions S.ix d n oID ids = some ids') (iID : UInt32) :
    iID ∈ ids'.toList ↔
      iID ∈ ids.toList ∨ ∃ j < n, S.HasItem d (oID + UInt32.ofNat j) iID := by
  induction n generalizing oID ids with
  | zero =>
    obtain rfl : ids = ids' := Option.some.inj h
    simp
  | succ n ih =>
    rw [Nat.exists_lt_succ_left]
    simp only [← add_one_add_ofNat, add_ofNat_zero]
    rw [collectItems] at h
    cases haddr : OrderLineTable.getOrderLineMemoryAddress S.ix d oID with
    | none =>
      rw [haddr] at h
      cases h
    | some addr =>
      rw [haddr] at h
      rw [ih h, S.mem_insertItems haddr, or_assoc]

theorem length_le_of_collectItems {n : ℕ} {oID : UInt32} {ids ids' : IDSet}
    (h : collectItems S.headVersions S.ix d n oID ids = some ids') :
    ids'.toList.length ≤ ids.toList.length + n * cfg.ORDER_MAX_OL_CNT := by
  induction n generalizing oID ids with
  | zero =>
    obtain rfl : ids = ids' := Option.some.inj h
    omega
  | succ n ih =>
    rw [collectItems] at h
    cases haddr : OrderLineTable.getOrderLineMemoryAddress S.ix d oID with
    | none =>
      rw [haddr] at h
      cases h
    | some addr =>
      rw [haddr] at h
      have hrest := ih h
      have horder := S.length_insertItems_le ids haddr
      rw [Nat.succ_mul]
      omega

/-! ## The window -/

theorem toNat_firstOrder {dNextOID : UInt32} (hd : dNextOID.toNat < 2 ^ 31) :
    (firstOrder dNextOID).toNat = dNextOID.toNat - 20 := by
  rw [firstOrder, MixedRadix.toInt_toInt32 hd]
  split
  · simp only [UInt32.toNat_zero]
    omega
  · rw [UInt32.toNat_ofNat_of_lt' (show _ < 2 ^ 32 by omega)]
    omega

theorem inWindow_iff {dNextOID oID : UInt32} (hd : dNextOID.toNat < 2 ^ 31) :
    InWindow dNextOID oID ↔
      ∃ j < dNextOID.toNat - (firstOrder dNextOID).toNat,
        oID = firstOrder dNextOID + UInt32.ofNat j := by
  have hfirst := toNat_firstOrder hd
  constructor
  · rintro ⟨hge, hlt⟩
    refine ⟨oID.toNat - (dNextOID.toNat - 20), by omega, ?_⟩
    rw [← UInt32.toNat_inj, UInt32.toNat_add, hfirst,
      UInt32.toNat_ofNat_of_lt' (show _ < 2 ^ 32 by omega)]
    omega
  · rintro ⟨j, hj, rfl⟩
    unfold InWindow
    rw [UInt32.toNat_add, hfirst, UInt32.toNat_ofNat_of_lt' (show _ < 2 ^ 32 by omega)]
    omega

theorem addr_of_register_empty {req : RegisterOrderRequest cfg} {d : DistrictID cfg} {oID : UInt32}
    {addr : OrderLineAddressIdentifier}
    (h : OrderLineTable.getOrderLineMemoryAddress
      (handleRegisterOrderIndexRequest .empty req) d oID = some addr) :
    addr = ⟨req.clientID, req.orderLineRegionOffset, req.numOfOrderlines⟩ := by
  rw [OrderLineTable.getOrderLineMemoryAddress, register_lines, HashIndex.get] at h
  by_cases hkey : d.ind = req.district.ind ∧ oID = req.oID
  · rw [hkey.1, hkey.2, HashIndex.putAt_self] at h
    exact (Option.some.inj h).symm
  · rw [HashIndex.putAt_of_ne _ (fun hd ho => hkey ⟨hd, ho⟩)] at h
    cases h

theorem map_getD_range (l : List UInt32) (default : ℕ → UInt32) :
    (List.range l.length).map (fun i => l.getD i (default i)) = l := by
  refine List.ext_getElem (by simp) fun i _ hi => ?_
  simp [hi]

/-- **The items of the last orders.** For every index and every table, the handler succeeds exactly
if the last twenty orders are all registered, and then it lists their item ids, each once and in
increasing order. -/
theorem last20Orders_handle (S : OrderLines cfg) (d : DistrictID cfg) (dNextOID : UInt32)
    (res : Last20OrdersIndexResMsg) (hd : dNextOID.toNat < 2 ^ 31) :
    S.Last20Orders d dNextOID
      (handleLast20OrdersIndexRequest S.headVersions S.ix d dNextOID res) := by
  by_cases hzero : dNextOID = 0
  · -- there is no order yet
    have hempty : ∀ oID, ¬ InWindow dNextOID oID := by
      rintro oID ⟨-, hlt⟩
      rw [hzero] at hlt
      exact Nat.not_lt_zero _ hlt
    rw [handleLast20OrdersIndexRequest, if_pos hzero]
    refine ⟨?_, fun _ => .nil, fun _ iID => ?_, fun _ => Nat.zero_le _, fun h => nomatch h⟩
    · simp [hempty]
    · simp [hempty, Last20OrdersIndexResMsg.items]
  · have hcount : dNextOID.toNat - (firstOrder dNextOID).toNat ≤ 20 := by
      rw [toNat_firstOrder hd]
      omega
    have hsome := S.isSome_collectItems (d := d)
      (dNextOID.toNat - (firstOrder dNextOID).toNat) (firstOrder dNextOID) .empty
    have hwindow : (∀ oID, InWindow dNextOID oID → S.Registered d oID) ↔
        ∀ j < dNextOID.toNat - (firstOrder dNextOID).toNat,
          S.Registered d (firstOrder dNextOID + UInt32.ofNat j) := by
      simp only [inWindow_iff hd, forall_exists_index, and_imp]
      exact ⟨fun h j hj => h _ j hj rfl, fun h _ j hj heq => heq ▸ h j hj⟩
    rw [← hwindow] at hsome
    unfold handleLast20OrdersIndexRequest
    simp only [if_neg hzero]
    cases hcollect : collectItems S.headVersions S.ix d
        (dNextOID.toNat - (firstOrder dNextOID).toNat) (firstOrder dNextOID)
        .empty with
    | none =>
      rw [hcollect] at hsome
      exact ⟨hsome, nofun, nofun, nofun, fun _ => rfl⟩
    | some distinctIDs =>
      rw [hcollect] at hsome
      have hitems := map_getD_range distinctIDs.toList res.itemIDs
      refine ⟨hsome, fun _ => ?_, fun _ iID => ?_, fun _ => ?_, fun h => nomatch h⟩
      · rw [Last20OrdersIndexResMsg.items, hitems]
        exact distinctIDs.sorted
      · rw [Last20OrdersIndexResMsg.items, hitems, S.mem_of_collectItems hcollect]
        simp only [inWindow_iff hd, OrderedSet.empty, List.not_mem_nil, false_or]
        exact ⟨fun ⟨j, hj, h⟩ => ⟨_, ⟨j, hj, rfl⟩, h⟩, fun ⟨_, ⟨j, hj, heq⟩, h⟩ => ⟨j, hj, heq ▸ h⟩⟩
      · have hle := S.length_le_of_collectItems hcollect
        have hmul := Nat.mul_le_mul_right cfg.ORDER_MAX_OL_CNT hcount
        simp only [OrderedSet.empty, List.length_nil] at hle
        exact Nat.le_trans hle (by omega)

def firstDistrict : DistrictID (.shipped 2) := ⟨0, 0, zero_lt_warehouses, zero_lt_districts⟩

def oneOrder : OrderLines (.shipped 2) where
  ix := handleRegisterOrderIndexRequest .empty ⟨1, firstDistrict, 3, 0, 0, 0, 0, 2⟩
  headVersions _ := ⟨initialTS, ⟨0, 0, 0, 0, 7, 0, 0, 1, 0, ""⟩⟩
  size := 2 * 15 * 1000
  size_le := by decide
  orderLineCnt_le d oID addr h := by
    rw [addr_of_register_empty h]
    decide
  row_lt d oID addr h := by
    rw [addr_of_register_empty h]
    decide

theorem last20Orders_oneOrder :
    oneOrder.Last20Orders firstDistrict 1
        (handleLast20OrdersIndexRequest oneOrder.headVersions oneOrder.ix firstDistrict 1
          ⟨false, 9, fun _ => 0⟩) ∧
      (handleLast20OrdersIndexRequest oneOrder.headVersions oneOrder.ix firstDistrict 1
        ⟨false, 9, fun _ => 0⟩).items = [7] :=
  ⟨last20Orders_handle oneOrder firstDistrict 1 ⟨false, 9, fun _ => 0⟩ (by decide), by decide⟩

end OrderLines

end RdmaSnapshot
