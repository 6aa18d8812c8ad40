import RdmaSnapshot.Verbs
import Mathlib.Data.List.Sort

/-!
# The index of a server

The hash indexes and priority queues that `OrderTable`, `NewOrderTable` and `OrderLineTable` keep
for every district of a server, and the handlers of `TPCCDB` that answer the index requests of the
clients. Here the handlers run one at a time.

A priority queue is kept as a list in the order in which its elements are popped. Elements are
compared by order id only; which of two elements with the same order id is on top is left open by
the source, and nothing below depends on it.
-/

namespace RdmaSnapshot

variable {cfg : Config}

/-! ## Hash indexes -/

abbrev HashIndex (K V : Type) := K → Option V

namespace HashIndex

variable {K V : Type} [DecidableEq K]

def put (index : HashIndex K V) (k : K) (v : V) : HashIndex K V :=
  Function.update index k (some v)

/-- `none` is the exception `std::out_of_range`. -/
def get (index : HashIndex K V) (k : K) : Option V := index k

def hasKey (index : HashIndex K V) (k : K) : Bool := (index k).isSome

def putAt (indexes : ℕ → HashIndex K V) (ind : ℕ) (k : K) (v : V) : ℕ → HashIndex K V :=
  Function.update indexes ind ((indexes ind).put k v)

@[simp] theorem putAt_self (indexes : ℕ → HashIndex K V) (ind : ℕ) (k : K) (v : V) :
    putAt indexes ind k v ind k = some v := by
  simp [putAt, put]

theorem putAt_of_ne {indexes : ℕ → HashIndex K V} {ind ind' : ℕ} {k k' : K} (v : V)
    (h : ind' = ind → k' ≠ k) : putAt indexes ind k v ind' k' = indexes ind' k' := by
  by_cases hind : ind' = ind
  · subst hind
    simp [putAt, put, h rfl]
  · simp [putAt, hind]

end HashIndex

/-! ## The indexes of a server -/

/-- A district of a warehouse of the server, as an index request names it. The vectors of indexes
have an element for every district; the handlers do not check the bounds. -/
structure DistrictID (cfg : Config) where
  warehouseOffset : UInt16
  dID : UInt8
  warehouseOffset_lt : warehouseOffset.toNat < cfg.WAREHOUSE_PER_SERVER
  dID_lt : dID.toNat < cfg.DISTRICT_PER_WAREHOUSE
  deriving DecidableEq

/-- The element of the vectors of indexes that belongs to a district. -/
def DistrictID.ind (d : DistrictID cfg) : ℕ :=
  d.warehouseOffset.toNat * cfg.DISTRICT_PER_WAREHOUSE + d.dID.toNat

theorem DistrictID.eq_of_ind {d d' : DistrictID cfg} (h : d.ind = d'.ind) : d = d' := by
  obtain ⟨w, i, hw, hi⟩ := d
  obtain ⟨w', i', hw', hi'⟩ := d'
  simp only [ind] at h
  have hlt : ∀ {a b x y : ℕ}, a < b → x < cfg.DISTRICT_PER_WAREHOUSE →
      a * cfg.DISTRICT_PER_WAREHOUSE + x ≠ b * cfg.DISTRICT_PER_WAREHOUSE + y := by
    intro a b x y hab hx heq
    have hle := Nat.mul_le_mul_right cfg.DISTRICT_PER_WAREHOUSE (Nat.succ_le_of_lt hab)
    rw [Nat.succ_mul] at hle
    omega
  rcases Nat.lt_trichotomy w.toNat w'.toNat with hww | hww | hww
  · exact absurd h (hlt hww hi)
  · obtain rfl := UInt16.toNat_inj.1 hww
    obtain rfl := UInt8.toNat_inj.1 (Nat.add_left_cancel h)
    rfl
  · exact absurd h.symm (hlt hww hi')

structure OrderAddressIdentifier where
  clientWhoOrdered : ClientID
  clientRegionOffset : ℕ
  deriving DecidableEq

structure NewOrderAddressIdentifier where
  oID : UInt32
  clientWhoOrdered : ClientID
  clientRegionOffset : ℕ
  deriving DecidableEq

structure OrderLineAddressIdentifier where
  clientWhoOrdered : ClientID
  clientRegionOffset : ℕ
  orderLineCnt : UInt8
  deriving DecidableEq

/-- The indexes of `OrderTable`, `NewOrderTable` and `OrderLineTable`. -/
structure IndexState where
  /-- The key is `cID`. -/
  largestOrderForCustomer_Index : ℕ → HashIndex UInt32 UInt32
  /-- The key is `oID`, here and below. -/
  orderToMemoryAddress_Index : ℕ → HashIndex UInt32 OrderAddressIdentifier
  newOrderToMemoryAddress_Index : ℕ → HashIndex UInt32 NewOrderAddressIdentifier
  oldestNewOrderInDistrict_Index : ℕ → List NewOrderAddressIdentifier
  orderLineToMemoryAddress_Index : ℕ → HashIndex UInt32 OrderLineAddressIdentifier

def IndexState.empty : IndexState where
  largestOrderForCustomer_Index _ _ := none
  orderToMemoryAddress_Index _ _ := none
  newOrderToMemoryAddress_Index _ _ := none
  oldestNewOrderInDistrict_Index _ := []
  orderLineToMemoryAddress_Index _ _ := none

/-- The parameters of a request that registers an order; `clientID` is the client that sends it. -/
structure RegisterOrderRequest (cfg : Config) where
  clientID : ClientID
  district : DistrictID cfg
  cID : UInt32
  oID : UInt32
  orderRegionOffset : ℕ
  newOrderRegionOffset : ℕ
  orderLineRegionOffset : ℕ
  numOfOrderlines : UInt8
  deriving DecidableEq

/-- The element of the priority queue that a registration pushes. -/
def RegisterOrderRequest.newOrderAddress (req : RegisterOrderRequest cfg) :
    NewOrderAddressIdentifier :=
  ⟨req.oID, req.clientID, req.newOrderRegionOffset⟩

structure LargestOrderForCustomerIndexRespMsg where
  isSuccessful : Bool
  oID : UInt32
  clientWhoOrdered : ClientID
  orderRegionOffset : ℕ
  orderLineRegionOffset : ℕ
  numOfOrderlines : UInt8
  deriving DecidableEq

/-! ## The operations on one index

Each of them runs under one mutex. -/

namespace IndexState

variable (ix : IndexState) (req : RegisterOrderRequest cfg)

def putOrderAddress : IndexState :=
  { ix with
    orderToMemoryAddress_Index :=
      HashIndex.putAt ix.orderToMemoryAddress_Index req.district.ind req.oID
        ⟨req.clientID, req.orderRegionOffset⟩ }

def putLargest : IndexState :=
  { ix with
    largestOrderForCustomer_Index :=
      HashIndex.putAt ix.largestOrderForCustomer_Index req.district.ind req.cID req.oID }

def putNewOrderAddress : IndexState :=
  { ix with
    newOrderToMemoryAddress_Index :=
      HashIndex.putAt ix.newOrderToMemoryAddress_Index req.district.ind req.oID
        req.newOrderAddress }

def pushNewOrder : IndexState :=
  { ix with
    oldestNewOrderInDistrict_Index :=
      Function.update ix.oldestNewOrderInDistrict_Index req.district.ind
        ((ix.oldestNewOrderInDistrict_Index req.district.ind).orderedInsert
          (fun a b => a.oID ≤ b.oID) req.newOrderAddress) }

def putOrderLineAddress : IndexState :=
  { ix with
    orderLineToMemoryAddress_Index :=
      HashIndex.putAt ix.orderLineToMemoryAddress_Index req.district.ind req.oID
        ⟨req.clientID, req.orderLineRegionOffset, req.numOfOrderlines⟩ }

/-- `pop` of the queue of a district; on an empty queue it is undefined behaviour. -/
def popNewOrder (d : DistrictID cfg) : IndexState :=
  { ix with
    oldestNewOrderInDistrict_Index :=
      Function.update ix.oldestNewOrderInDistrict_Index d.ind
        (ix.oldestNewOrderInDistrict_Index d.ind).tail }

end IndexState

/-! ## The functions of the tables -/

def OrderTable.registerOrderInIndex (ix : IndexState) (req : RegisterOrderRequest cfg) :
    IndexState :=
  let ix := ix.putOrderAddress req
  if (ix.largestOrderForCustomer_Index req.district.ind).hasKey req.cID then
    match (ix.largestOrderForCustomer_Index req.district.ind).get req.cID with
    | some existingOID => if existingOID < req.oID then ix.putLargest req else ix
    | none => ix -- not after `hasKey`
  else ix.putLargest req

def OrderTable.getBiggestOrderIDForCustomer (ix : IndexState) (d : DistrictID cfg)
    (cID : UInt32) : Option UInt32 :=
  (ix.largestOrderForCustomer_Index d.ind).get cID

def OrderTable.getOrderMemoryAddress (ix : IndexState) (d : DistrictID cfg) (oID : UInt32) :
    Option OrderAddressIdentifier :=
  (ix.orderToMemoryAddress_Index d.ind).get oID

def NewOrderTable.registerNewOrderInIndex (ix : IndexState) (req : RegisterOrderRequest cfg) :
    IndexState :=
  (ix.putNewOrderAddress req).pushNewOrder req

/-- `NewOrderTable::getOldestNewOrder`; it throws if the queue is empty. -/
def NewOrderTable.getOldestNewOrder (ix : IndexState) (d : DistrictID cfg) :
    Option NewOrderAddressIdentifier :=
  (ix.oldestNewOrderInDistrict_Index d.ind).head?

/-- `NewOrderTable::registerDelivery`; it does not look at `oID`. -/
def NewOrderTable.registerDelivery (ix : IndexState) (d : DistrictID cfg) (_oID : UInt32) :
    IndexState :=
  ix.popNewOrder d

def OrderLineTable.registerOrderLineInIndex (ix : IndexState) (req : RegisterOrderRequest cfg) :
    IndexState :=
  ix.putOrderLineAddress req

def OrderLineTable.getOrderLineMemoryAddress (ix : IndexState) (d : DistrictID cfg)
    (oID : UInt32) : Option OrderLineAddressIdentifier :=
  (ix.orderLineToMemoryAddress_Index d.ind).get oID

/-! ## The handlers -/

namespace TPCCDB

open OrderTable NewOrderTable OrderLineTable

/-- `TPCCDB::handleRegisterOrderIndexRequest`; its answer is always successful. -/
def handleRegisterOrderIndexRequest (ix : IndexState) (req : RegisterOrderRequest cfg) :
    IndexState :=
  registerOrderLineInIndex (registerNewOrderInIndex (registerOrderInIndex ix req) req) req

/-- `TPCCDB::handleLargestOrderIndexRequest`. The fields of the response that were set before an
exception stay set. -/
def handleLargestOrderIndexRequest (ix : IndexState) (d : DistrictID cfg) (cID : UInt32)
    (res : LargestOrderForCustomerIndexRespMsg) : LargestOrderForCustomerIndexRespMsg :=
  match getBiggestOrderIDForCustomer ix d cID with
  | none => { res with isSuccessful := false }
  | some oID =>
    match getOrderMemoryAddress ix d oID with
    | none => { res with oID := oID, isSuccessful := false }
    | some order =>
      match getOrderLineMemoryAddress ix d oID with
      | none =>
        { res with
          oID := oID
          clientWhoOrdered := order.clientWhoOrdered
          orderRegionOffset := order.clientRegionOffset
          isSuccessful := false }
      | some lines =>
        { oID := oID
          clientWhoOrdered := lines.clientWhoOrdered
          orderRegionOffset := order.clientRegionOffset
          orderLineRegionOffset := lines.clientRegionOffset
          numOfOrderlines := lines.orderLineCnt
          isSuccessful := true }

/-- `TPCCDB::handleOldestUndeliveredOrderIndexRequest`. Any missing key is taken for an empty
queue. -/
def handleOldestUndeliveredOrderIndexRequest (ix : IndexState) (d : DistrictID cfg)
    (res : OldestUndeliveredOrderIndexResMsg) : OldestUndeliveredOrderIndexResMsg :=
  match getOldestNewOrder ix d with
  | none => { res with isSuccessful := true, existUndeliveredOrder := false }
  | some newOrder =>
    match getOrderMemoryAddress ix d newOrder.oID with
    | none =>
      { res with
        oID := newOrder.oID
        clientWhoOrdered := newOrder.clientWhoOrdered
        newOrderRegionOffset := newOrder.clientRegionOffset
        isSuccessful := true
        existUndeliveredOrder := false }
    | some order =>
      match getOrderLineMemoryAddress ix d newOrder.oID with
      | none =>
        { res with
          oID := newOrder.oID
          clientWhoOrdered := order.clientWhoOrdered
          newOrderRegionOffset := newOrder.clientRegionOffset
          orderRegionOffset := order.clientRegionOffset
          isSuccessful := true
          existUndeliveredOrder := false }
      | some lines =>
        { oID := newOrder.oID
          clientWhoOrdered := lines.clientWhoOrdered
          newOrderRegionOffset := newOrder.clientRegionOffset
          orderRegionOffset := order.clientRegionOffset
          orderLineRegionOffset := lines.clientRegionOffset
          numOfOrderlines := lines.orderLineCnt
          isSuccessful := true
          existUndeliveredOrder := true }

def handleRegisterDeliveryIndexRequest (ix : IndexState) (d : DistrictID cfg) (oID : UInt32) :
    IndexState :=
  registerDelivery ix d oID

end TPCCDB

/-! ## Sequences of calls -/

inductive IndexCall (cfg : Config)
  | registerOrder (req : RegisterOrderRequest cfg)
  | largestOrder (d : DistrictID cfg) (cID : UInt32)
  | oldestUndeliveredOrder (d : DistrictID cfg)
  | registerDelivery (d : DistrictID cfg) (oID : UInt32)
  deriving DecidableEq

def IndexCall.apply (ix : IndexState) : IndexCall cfg → IndexState
  | registerOrder req => TPCCDB.handleRegisterOrderIndexRequest ix req
  | largestOrder _ _ | oldestUndeliveredOrder _ => ix
  | registerDelivery d oID => TPCCDB.handleRegisterDeliveryIndexRequest ix d oID

/-- The indexes after calls that were executed one at a time, newest first. -/
def IndexState.after : List (IndexCall cfg) → IndexState
  | [] => .empty
  | call :: calls => call.apply (IndexState.after calls)

def IndexCall.registration : IndexCall cfg → Option (RegisterOrderRequest cfg)
  | .registerOrder req => some req
  | _ => none

def registrations (calls : List (IndexCall cfg)) : List (RegisterOrderRequest cfg) :=
  calls.filterMap IndexCall.registration

def DistinctOrders (reqs : List (RegisterOrderRequest cfg)) : Prop :=
  reqs.Pairwise fun a b => a.district = b.district → a.oID ≠ b.oID

/-! ## What a registration changes -/

open OrderTable in
theorem registerOrderInIndex_fields (ix : IndexState) (req : RegisterOrderRequest cfg) :
    (registerOrderInIndex ix req).orderToMemoryAddress_Index =
        (ix.putOrderAddress req).orderToMemoryAddress_Index ∧
      (registerOrderInIndex ix req).oldestNewOrderInDistrict_Index =
        ix.oldestNewOrderInDistrict_Index ∧
      (registerOrderInIndex ix req).orderLineToMemoryAddress_Index =
        ix.orderLineToMemoryAddress_Index := by
  unfold registerOrderInIndex
  simp only
  split
  · split
    · split <;> exact ⟨rfl, rfl, rfl⟩
    · exact ⟨rfl, rfl, rfl⟩
  · exact ⟨rfl, rfl, rfl⟩

namespace TPCCDB

variable (ix : IndexState) (req : RegisterOrderRequest cfg)

theorem register_order :
    (handleRegisterOrderIndexRequest ix req).orderToMemoryAddress_Index =
      HashIndex.putAt ix.orderToMemoryAddress_Index req.district.ind req.oID
        ⟨req.clientID, req.orderRegionOffset⟩ :=
  (registerOrderInIndex_fields ix req).1

theorem register_lines :
    (handleRegisterOrderIndexRequest ix req).orderLineToMemoryAddress_Index =
      HashIndex.putAt ix.orderLineToMemoryAddress_Index req.district.ind req.oID
        ⟨req.clientID, req.orderLineRegionOffset, req.numOfOrderlines⟩ :=
  congrArg (fun indexes => HashIndex.putAt indexes req.district.ind req.oID _)
    (registerOrderInIndex_fields ix req).2.2

theorem register_queue :
    (handleRegisterOrderIndexRequest ix req).oldestNewOrderInDistrict_Index =
      Function.update ix.oldestNewOrderInDistrict_Index req.district.ind
        ((ix.oldestNewOrderInDistrict_Index req.district.ind).orderedInsert
          (fun a b => a.oID ≤ b.oID) req.newOrderAddress) := by
  have h := (registerOrderInIndex_fields ix req).2.1
  simp only [handleRegisterOrderIndexRequest, OrderLineTable.registerOrderLineInIndex,
    NewOrderTable.registerNewOrderInIndex, IndexState.putOrderLineAddress,
    IndexState.pushNewOrder, IndexState.putNewOrderAddress, h]

end TPCCDB

/-! ## The hash indexes -/

/-- The hash indexes `largest` hold, for every customer, the largest order id among `reqs`. -/
structure LargestOf (largest : ℕ → HashIndex UInt32 UInt32)
    (reqs : List (RegisterOrderRequest cfg)) : Prop where
  absent : ∀ (d : DistrictID cfg) cID, largest d.ind cID = none →
    ∀ req ∈ reqs, ¬ (req.district = d ∧ req.cID = cID)
  found : ∀ (d : DistrictID cfg) cID oID, largest d.ind cID = some oID →
    (∃ req ∈ reqs, req.district = d ∧ req.cID = cID ∧ req.oID = oID) ∧
      ∀ req ∈ reqs, req.district = d ∧ req.cID = cID → req.oID ≤ oID

section Largest

variable {largest : ℕ → HashIndex UInt32 UInt32} {reqs : List (RegisterOrderRequest cfg)}
  {req : RegisterOrderRequest cfg} {oID : UInt32}

theorem LargestOf.put (h : LargestOf largest reqs)
    (hlt : ∀ oID, largest req.district.ind req.cID = some oID → oID < req.oID) :
    LargestOf (HashIndex.putAt largest req.district.ind req.cID req.oID) (req :: reqs) := by
  have hself := HashIndex.putAt_self largest req.district.ind req.cID req.oID
  have hother : ∀ {d : DistrictID cfg} {cID}, ¬ (req.district = d ∧ req.cID = cID) →
      HashIndex.putAt largest req.district.ind req.cID req.oID d.ind cID = largest d.ind cID :=
    fun hne => HashIndex.putAt_of_ne _ fun hd hc => hne ⟨(DistrictID.eq_of_ind hd).symm, hc.symm⟩
  constructor
  · intro d cID hnone r hr hrd
    by_cases heq : req.district = d ∧ req.cID = cID
    · obtain ⟨rfl, rfl⟩ := heq
      rw [hself] at hnone
      cases hnone
    · rw [hother heq] at hnone
      rcases List.mem_cons.1 hr with rfl | hr
      · exact heq hrd
      · exact h.absent d cID hnone r hr hrd
  · intro d cID oID hsome
    by_cases heq : req.district = d ∧ req.cID = cID
    · obtain ⟨rfl, rfl⟩ := heq
      obtain rfl : req.oID = oID := Option.some.inj (hself.symm.trans hsome)
      refine ⟨⟨req, List.mem_cons_self, rfl, rfl, rfl⟩, fun r hr hrd => ?_⟩
      rcases List.mem_cons.1 hr with rfl | hr
      · exact UInt32.le_refl _
      · cases hold : largest req.district.ind req.cID with
        | none => exact absurd hrd (h.absent _ _ hold r hr)
        | some oID' =>
          exact UInt32.le_trans ((h.found _ _ _ hold).2 r hr hrd) (UInt32.le_of_lt (hlt _ hold))
    · rw [hother heq] at hsome
      obtain ⟨⟨r, hr, hrd⟩, hmax⟩ := h.found d cID oID hsome
      refine ⟨⟨r, List.mem_cons_of_mem _ hr, hrd⟩, fun r' hr' hrd' => ?_⟩
      rcases List.mem_cons.1 hr' with rfl | hr'
      · exact absurd hrd' heq
      · exact hmax r' hr' hrd'

theorem LargestOf.keep (h : LargestOf largest reqs)
    (hget : largest req.district.ind req.cID = some oID) (hle : req.oID ≤ oID) :
    LargestOf largest (req :: reqs) where
  absent := by
    intro d cID hnone r hr hrd
    rcases List.mem_cons.1 hr with rfl | hr
    · obtain ⟨rfl, rfl⟩ := hrd
      simp [hget] at hnone
    · exact h.absent d cID hnone r hr hrd
  found := by
    intro d cID oID' hsome
    obtain ⟨⟨r, hr, hrd⟩, hmax⟩ := h.found d cID oID' hsome
    refine ⟨⟨r, List.mem_cons_of_mem _ hr, hrd⟩, fun r' hr' hrd' => ?_⟩
    rcases List.mem_cons.1 hr' with rfl | hr'
    · obtain ⟨rfl, rfl⟩ := hrd'
      obtain rfl : oID = oID' := Option.some.inj (hget.symm.trans hsome)
      exact hle
    · exact hmax r' hr' hrd'

theorem LargestOf.eq_none_iff {d : DistrictID cfg} {cID : UInt32} (h : LargestOf largest reqs) :
    largest d.ind cID = none ↔ ∀ req ∈ reqs, ¬ (req.district = d ∧ req.cID = cID) := by
  refine ⟨h.absent d cID, fun hno => Option.eq_none_iff_forall_ne_some.2 fun oID hsome => ?_⟩
  obtain ⟨⟨req, hreq, hd, hc, -⟩, -⟩ := h.found d cID oID hsome
  exact hno req hreq ⟨hd, hc⟩

theorem LargestOf.eq_some_iff {d : DistrictID cfg} {cID : UInt32} (h : LargestOf largest reqs) :
    largest d.ind cID = some oID ↔
      (∃ req ∈ reqs, req.district = d ∧ req.cID = cID ∧ req.oID = oID) ∧
        ∀ req ∈ reqs, req.district = d ∧ req.cID = cID → req.oID ≤ oID := by
  refine ⟨h.found d cID oID, fun ⟨⟨req, hreq, hd, hc, hid⟩, hmax⟩ => ?_⟩
  obtain hnone | ⟨oID', hsome⟩ := Option.eq_none_or_eq_some (largest d.ind cID)
  · exact absurd ⟨hd, hc⟩ (h.absent d cID hnone req hreq)
  · obtain ⟨⟨req', hreq', hd', hc', rfl⟩, hmax'⟩ := h.found d cID oID' hsome
    subst hid
    rw [hsome, UInt32.le_antisymm (hmax req' hreq' ⟨hd', hc'⟩) (hmax' req hreq ⟨hd, hc⟩)]

end Largest

/-- What the hash indexes say about the orders `reqs`: the addresses of every one, and the largest
order id of every customer. -/
structure Registered (ix : IndexState) (reqs : List (RegisterOrderRequest cfg)) : Prop where
  order : ∀ req ∈ reqs, ix.orderToMemoryAddress_Index req.district.ind req.oID =
    some ⟨req.clientID, req.orderRegionOffset⟩
  lines : ∀ req ∈ reqs, ix.orderLineToMemoryAddress_Index req.district.ind req.oID =
    some ⟨req.clientID, req.orderLineRegionOffset, req.numOfOrderlines⟩
  largest : LargestOf ix.largestOrderForCustomer_Index reqs

theorem largestOf_empty :
    LargestOf (fun _ _ => none) ([] : List (RegisterOrderRequest cfg)) :=
  ⟨by simp, by simp⟩

section Registered

variable {ix : IndexState} {reqs : List (RegisterOrderRequest cfg)}
  {req : RegisterOrderRequest cfg}

theorem registerOrderInIndex_largest (ix : IndexState) (req : RegisterOrderRequest cfg) :
    ((∀ oID, ix.largestOrderForCustomer_Index req.district.ind req.cID = some oID →
        oID < req.oID) ∧
      (OrderTable.registerOrderInIndex ix req).largestOrderForCustomer_Index =
        HashIndex.putAt ix.largestOrderForCustomer_Index req.district.ind req.cID req.oID) ∨
    ∃ oID, ix.largestOrderForCustomer_Index req.district.ind req.cID = some oID ∧
      req.oID ≤ oID ∧ (OrderTable.registerOrderInIndex ix req).largestOrderForCustomer_Index =
        ix.largestOrderForCustomer_Index := by
  obtain hget | ⟨oID, hget⟩ :=
    Option.eq_none_or_eq_some (ix.largestOrderForCustomer_Index req.district.ind req.cID)
  · refine .inl ⟨by simp [hget], ?_⟩
    simp [OrderTable.registerOrderInIndex, HashIndex.hasKey, IndexState.putOrderAddress,
      IndexState.putLargest, hget]
  · by_cases hlt : oID < req.oID
    · refine .inl ⟨by simpa [hget] using hlt, ?_⟩
      simp [OrderTable.registerOrderInIndex, HashIndex.hasKey, HashIndex.get,
        IndexState.putOrderAddress, IndexState.putLargest, hget, hlt]
    · refine .inr ⟨oID, hget, UInt32.not_lt.1 hlt, ?_⟩
      simp [OrderTable.registerOrderInIndex, HashIndex.hasKey, HashIndex.get,
        IndexState.putOrderAddress, hget, hlt]

theorem Registered.register (h : Registered ix reqs)
    (hnew : ∀ r ∈ reqs, r.district = req.district → r.oID ≠ req.oID) :
    Registered (TPCCDB.handleRegisterOrderIndexRequest ix req) (req :: reqs) where
  order := by
    intro r hr
    rw [TPCCDB.register_order]
    rcases List.mem_cons.1 hr with rfl | hr
    · exact HashIndex.putAt_self ..
    · rw [HashIndex.putAt_of_ne _ fun hd => hnew r hr (DistrictID.eq_of_ind hd)]
      exact h.order r hr
  lines := by
    intro r hr
    rw [TPCCDB.register_lines]
    rcases List.mem_cons.1 hr with rfl | hr
    · exact HashIndex.putAt_self ..
    · rw [HashIndex.putAt_of_ne _ fun hd => hnew r hr (DistrictID.eq_of_ind hd)]
      exact h.lines r hr
  largest := by
    change LargestOf (OrderTable.registerOrderInIndex ix req).largestOrderForCustomer_Index _
    rcases registerOrderInIndex_largest ix req with ⟨hlt, heq⟩ | ⟨oID, hget, hle, heq⟩ <;> rw [heq]
    · exact h.largest.put hlt
    · exact h.largest.keep hget hle

end Registered

theorem registered_after {calls : List (IndexCall cfg)} (h : DistinctOrders (registrations calls)) :
    Registered (IndexState.after calls) (registrations calls) := by
  induction calls with
  | nil => exact ⟨by simp [registrations], by simp [registrations], largestOf_empty⟩
  | cons call calls ih =>
    cases call with
    | registerOrder req =>
      obtain ⟨hnew, hrest⟩ := List.pairwise_cons.1 h
      exact (ih hrest).register fun r hr hd => (hnew r hr hd.symm).symm
    | largestOrder d cID | oldestUndeliveredOrder d => exact ih h
    | registerDelivery d oID => exact ⟨(ih h).order, (ih h).lines, (ih h).largest⟩

/-! ## The priority queues -/

/-- The elements of a queue are in the order of their ids. -/
def QueueSorted (queue : List NewOrderAddressIdentifier) : Prop :=
  queue.Pairwise fun a b => a.oID ≤ b.oID

theorem queueSorted_orderedInsert {queue : List NewOrderAddressIdentifier} (h : QueueSorted queue)
    (addr : NewOrderAddressIdentifier) :
    QueueSorted (queue.orderedInsert (fun a b => a.oID ≤ b.oID) addr) := by
  have htotal : Std.Total fun a b : NewOrderAddressIdentifier => a.oID ≤ b.oID :=
    ⟨fun a b => UInt32.le_total a.oID b.oID⟩
  have htrans : IsTrans NewOrderAddressIdentifier fun a b => a.oID ≤ b.oID :=
    ⟨fun _ _ _ => UInt32.le_trans⟩
  exact h.orderedInsert addr queue

theorem queueSorted_after (calls : List (IndexCall cfg)) (d : DistrictID cfg) :
    QueueSorted ((IndexState.after calls).oldestNewOrderInDistrict_Index d.ind) := by
  induction calls with
  | nil => exact .nil
  | cons call calls ih =>
    cases call with
    | registerOrder req =>
      simp only [IndexState.after, IndexCall.apply, TPCCDB.register_queue]
      by_cases hd : d = req.district
      · subst hd
        rw [Function.update_self]
        exact queueSorted_orderedInsert ih _
      · rw [Function.update_of_ne fun hind => hd (DistrictID.eq_of_ind hind)]
        exact ih
    | largestOrder | oldestUndeliveredOrder => exact ih
    | registerDelivery d' oID =>
      simp only [IndexState.after, IndexCall.apply, TPCCDB.handleRegisterDeliveryIndexRequest,
        NewOrderTable.registerDelivery, IndexState.popNewOrder]
      by_cases hd : d = d'
      · subst hd
        rw [Function.update_self]
        exact ih.tail
      · rw [Function.update_of_ne fun hind => hd (DistrictID.eq_of_ind hind)]
        exact ih

def undelivered (d : DistrictID cfg) : List (IndexCall cfg) → List (RegisterOrderRequest cfg)
  | [] => []
  | .registerOrder req :: calls =>
    if req.district = d then req :: undelivered d calls else undelivered d calls
  | .registerDelivery d' oID :: calls =>
    if d' = d then (undelivered d calls).filter (·.oID ≠ oID) else undelivered d calls
  | .largestOrder .. :: calls | .oldestUndeliveredOrder _ :: calls => undelivered d calls

theorem of_mem_undelivered {d : DistrictID cfg} {calls : List (IndexCall cfg)}
    {req : RegisterOrderRequest cfg} (h : req ∈ undelivered d calls) :
    req ∈ registrations calls ∧ req.district = d := by
  induction calls with
  | nil => cases h
  | cons call calls ih =>
    cases call with
    | registerOrder r =>
      simp only [undelivered] at h
      split at h
      · rename_i hd
        rcases List.mem_cons.1 h with rfl | h
        · exact ⟨List.mem_cons_self, hd⟩
        · exact ⟨List.mem_cons_of_mem _ (ih h).1, (ih h).2⟩
      · exact ⟨List.mem_cons_of_mem _ (ih h).1, (ih h).2⟩
    | largestOrder | oldestUndeliveredOrder => exact ih h
    | registerDelivery d' oID =>
      simp only [undelivered] at h
      split at h
      · exact ih (List.mem_of_mem_filter h)
      · exact ih h

theorem undelivered_eq_filter {d : DistrictID cfg} {calls : List (IndexCall cfg)}
    (h : ∀ oID, .registerDelivery d oID ∉ calls) :
    undelivered d calls = (registrations calls).filter (·.district = d) := by
  induction calls with
  | nil => rfl
  | cons call calls ih =>
    have ih := ih fun oID hmem => h oID (List.mem_cons_of_mem _ hmem)
    cases call with
    | registerOrder r =>
      simp only [undelivered, ih]
      by_cases hd : r.district = d <;> simp [registrations, IndexCall.registration, hd]
    | largestOrder | oldestUndeliveredOrder => exact ih
    | registerDelivery d' oID =>
      have hd : d' ≠ d := by
        rintro rfl
        exact h oID List.mem_cons_self
      simp only [undelivered, if_neg hd]
      exact ih

/-! ## Answers -/

def RegisterOrderRequest.largestOrderResponse (req : RegisterOrderRequest cfg) :
    LargestOrderForCustomerIndexRespMsg :=
  ⟨true, req.oID, req.clientID, req.orderRegionOffset, req.orderLineRegionOffset,
    req.numOfOrderlines⟩

/-- The answer that describes an order as the oldest one of its district. -/
def RegisterOrderRequest.oldestUndeliveredOrderResponse (req : RegisterOrderRequest cfg) :
    OldestUndeliveredOrderIndexResMsg :=
  ⟨true, true, req.oID, req.clientID, req.orderRegionOffset, req.newOrderRegionOffset,
    req.orderLineRegionOffset, req.numOfOrderlines⟩

section Answers

variable {ix : IndexState} {reqs : List (RegisterOrderRequest cfg)} {d : DistrictID cfg}

theorem Registered.largestOrder (h : Registered ix reqs) (d : DistrictID cfg) (cID : UInt32)
    (res : LargestOrderForCustomerIndexRespMsg) :
    ((∀ req ∈ reqs, ¬ (req.district = d ∧ req.cID = cID)) ∧
        (TPCCDB.handleLargestOrderIndexRequest ix d cID res).isSuccessful = false) ∨
      ∃ req ∈ reqs, (req.district = d ∧ req.cID = cID) ∧
        (∀ r ∈ reqs, r.district = d ∧ r.cID = cID → r.oID ≤ req.oID) ∧
        TPCCDB.handleLargestOrderIndexRequest ix d cID res = req.largestOrderResponse := by
  obtain hget | ⟨oID, hget⟩ :=
    Option.eq_none_or_eq_some (ix.largestOrderForCustomer_Index d.ind cID)
  · refine .inl ⟨h.largest.absent d cID hget, ?_⟩
    simp [TPCCDB.handleLargestOrderIndexRequest, OrderTable.getBiggestOrderIDForCustomer,
      HashIndex.get, hget]
  · obtain ⟨⟨req, hreq, rfl, rfl, rfl⟩, hmax⟩ := h.largest.found d cID oID hget
    refine .inr ⟨req, hreq, ⟨rfl, rfl⟩, hmax, ?_⟩
    simp [TPCCDB.handleLargestOrderIndexRequest, OrderTable.getBiggestOrderIDForCustomer,
      OrderTable.getOrderMemoryAddress, OrderLineTable.getOrderLineMemoryAddress, HashIndex.get,
      hget, h.order req hreq, h.lines req hreq, RegisterOrderRequest.largestOrderResponse]

theorem Registered.oldestUndeliveredOrder (h : Registered ix reqs)
    {us : List (RegisterOrderRequest cfg)} (hus : ∀ r ∈ us, r ∈ reqs ∧ r.district = d)
    (hperm : (ix.oldestNewOrderInDistrict_Index d.ind).Perm (us.map (·.newOrderAddress)))
    (hsorted : QueueSorted (ix.oldestNewOrderInDistrict_Index d.ind))
    (res : OldestUndeliveredOrderIndexResMsg) :
    (us = [] ∧ (TPCCDB.handleOldestUndeliveredOrderIndexRequest ix d res).existUndeliveredOrder =
        false) ∨
      ∃ req ∈ us, (∀ r ∈ us, req.oID ≤ r.oID) ∧
        TPCCDB.handleOldestUndeliveredOrderIndexRequest ix d res =
          req.oldestUndeliveredOrderResponse := by
  cases hqueue : ix.oldestNewOrderInDistrict_Index d.ind with
  | nil =>
    rw [hqueue] at hperm
    refine .inl ⟨by simpa using hperm.symm.eq_nil, ?_⟩
    simp [TPCCDB.handleOldestUndeliveredOrderIndexRequest, NewOrderTable.getOldestNewOrder,
      hqueue]
  | cons addr queue =>
    rw [hqueue] at hperm hsorted
    obtain ⟨req, hreq, rfl⟩ := List.mem_map.1 (hperm.subset List.mem_cons_self)
    obtain ⟨hmem, rfl⟩ := hus req hreq
    refine .inr ⟨req, hreq, fun r hr => ?_, ?_⟩
    · have hr' := hperm.symm.subset (List.mem_map_of_mem hr)
      rcases List.mem_cons.1 hr' with heq | hr'
      · have hid : r.oID = req.oID := congrArg NewOrderAddressIdentifier.oID heq
        rw [hid]
        exact UInt32.le_refl _
      · exact (List.pairwise_cons.1 hsorted).1 _ hr'
    · simp [TPCCDB.handleOldestUndeliveredOrderIndexRequest, NewOrderTable.getOldestNewOrder,
        OrderTable.getOrderMemoryAddress, OrderLineTable.getOrderLineMemoryAddress,
        HashIndex.get, hqueue, RegisterOrderRequest.newOrderAddress, h.order req hmem,
        h.lines req hmem, RegisterOrderRequest.oldestUndeliveredOrderResponse]

end Answers

end RdmaSnapshot
