import RdmaSnapshot.Index
import RdmaSnapshot.Populate

/-!
# OrderStatus

A client that executes `OrderStatusTransaction::doOne` against servers on which other clients insert
the rows of their orders and register the orders. The transaction asks the index of a server for the
largest order of a customer and fetches the lines of that order in one READ. Orders and order lines
are stored at different offsets of a client's slices; the answer of the index has both.
-/

namespace RdmaSnapshot

variable {cfg : Config}

structure OrderStatusCart where
  wID : UInt16
  dID : UInt8
  customerSelectionMode : CustomerSelectionMode
  cLastName : String
  cID : UInt32
  deriving DecidableEq

/-- The district an index request for `(wID, dID)` names. -/
def Config.districtID (cfg : Config) (wID : UInt16) (dID : UInt8) : Option (DistrictID cfg) :=
  if h : (cfg.getWarehouseOffsetOnServer wID).toNat < cfg.WAREHOUSE_PER_SERVER ∧
      dID.toNat < cfg.DISTRICT_PER_WAREHOUSE then
    some ⟨cfg.getWarehouseOffsetOnServer wID, dID, h.1, h.2⟩
  else none

/-! ## An answer of the index -/

section Pairing

/-- Every order id has an address in both indexes or in none, and the two addresses are those of
one registered order. Order ids need not be distinct. -/
structure Paired (ix : IndexState) (reqs : List (RegisterOrderRequest cfg)) : Prop where
  lines : ∀ (d : DistrictID cfg) oID addr, ix.orderToMemoryAddress_Index d.ind oID = some addr →
    ∃ req ∈ reqs, req.district = d ∧ req.oID = oID ∧
      addr = ⟨req.clientID, req.orderRegionOffset⟩ ∧
      ix.orderLineToMemoryAddress_Index d.ind oID =
        some ⟨req.clientID, req.orderLineRegionOffset, req.numOfOrderlines⟩

variable {ix : IndexState} {reqs : List (RegisterOrderRequest cfg)}

theorem paired_empty : Paired .empty ([] : List (RegisterOrderRequest cfg)) where
  lines := by
    intro d oID addr h
    cases h

theorem Paired.register (h : Paired ix reqs) (req : RegisterOrderRequest cfg) :
    Paired (TPCCDB.handleRegisterOrderIndexRequest ix req) (req :: reqs) where
  lines := by
    intro d oID addr haddr
    rw [TPCCDB.register_order] at haddr
    rw [TPCCDB.register_lines]
    by_cases heq : d = req.district ∧ oID = req.oID
    · obtain ⟨rfl, rfl⟩ := heq
      rw [HashIndex.putAt_self] at haddr ⊢
      exact ⟨req, List.mem_cons_self, rfl, rfl, (Option.some.inj haddr).symm, rfl⟩
    · have hne : d.ind = req.district.ind → oID ≠ req.oID :=
        fun hd ho => heq ⟨DistrictID.eq_of_ind hd, ho⟩
      rw [HashIndex.putAt_of_ne _ hne] at haddr ⊢
      obtain ⟨r, hr, hrest⟩ := h.lines d oID addr haddr
      exact ⟨r, List.mem_cons_of_mem _ hr, hrest⟩

/-- A successful answer describes a registered order of the district. -/
theorem Paired.largestOrder (h : Paired ix reqs) {d : DistrictID cfg} {cID : UInt32}
    {res : LargestOrderForCustomerIndexRespMsg}
    (hsucc : (TPCCDB.handleLargestOrderIndexRequest ix d cID res).isSuccessful = true) :
    ∃ req ∈ reqs, req.district = d ∧
      TPCCDB.handleLargestOrderIndexRequest ix d cID res = req.largestOrderResponse := by
  simp only [TPCCDB.handleLargestOrderIndexRequest] at hsucc ⊢
  split at hsucc
  · cases hsucc
  · split at hsucc
    · cases hsucc
    · rename_i oID _ _ order horder
      obtain ⟨req, hreq, hd, rfl, rfl, hlines⟩ := h.lines d oID order horder
      have hlines' : OrderLineTable.getOrderLineMemoryAddress ix d req.oID = _ := hlines
      refine ⟨req, hreq, hd, ?_⟩
      simp [hlines', RegisterOrderRequest.largestOrderResponse]

end Pairing

/-! ## The machine -/

namespace OrderStatus

/-- The poll loops of `OrderStatusTransaction::doOne`; `cart.cID` is overwritten by the answer to
the lookup by last name. -/
inductive Phase
  | idle (result : Option Outcome)
  | lookup (cart : OrderStatusCart)
  | largestOrder (cart : OrderStatusCart)
  | orderLines (cart : OrderStatusCart)
  | snapshot (cart : OrderStatusCart)
  deriving DecidableEq

/-- The servers, as far as an OrderStatus sees them, and one client. The index and the rows of a
server are named by its number. -/
structure State (cfg : Config) where
  mem : Memory
  index : ℕ → IndexState
  phase : Phase
  localTimestampVector : ClientID → UInt32
  customerNameResp : ℕ → CustomerNameIndexRespMsg
  largestOrderResp : ℕ → LargestOrderForCustomerIndexRespMsg
  /-- `localMemory_->getOrderLineHead()`. -/
  orderLineHead : ℕ → Version OrderLine
  /-- The orders registered on a server, newest first. -/
  registered : ℕ → List (RegisterOrderRequest cfg)
  /-- The order whose row was inserted last in a place of the OrderLine table, and the number of
  the row in the order. -/
  inserted : ℕ → ℕ → Option (RegisterOrderRequest cfg × ℕ)

/-- What happens: a client inserts the Order row or an OrderLine row of an order, or registers it;
an OrderStatus is started with a copy of the oracle's vector, or what its poll loop waits for
arrives and it runs to the next one. -/
inductive Action (cfg : Config)
  | insertIntoOrder (serverNum : ℕ) (req : RegisterOrderRequest cfg) (orderV : Version Order)
  | insertIntoOrderLine (serverNum : ℕ) (req : RegisterOrderRequest cfg) (j : ℕ)
      (orderLineV : Version OrderLine)
  | registerOrder (serverNum : ℕ) (req : RegisterOrderRequest cfg)
  | start (cart : OrderStatusCart) (vec : ClientID → UInt32)
  | customerName (answer : CustomerNameIndexRespMsg)
  | largestOrder
  | orderLines
  | snapshot (vec : ClientID → UInt32)

def lineIndex (req : RegisterOrderRequest cfg) (j : ℕ) : ℕ :=
  DBExecutor.orderLineIndex cfg req.clientID (req.orderLineRegionOffset + j)

/-- The READ of the order lines; it is posted with the offset of the Order row. -/
def retrieveLines (cfg : Config) (cart : OrderStatusCart)
    (largestOrderRes : LargestOrderForCustomerIndexRespMsg) : Post :=
  DBExecutor.retrieveOrderLines cfg largestOrderRes.clientWhoOrdered cart.wID
    largestOrderRes.orderRegionOffset largestOrderRes.numOfOrderlines true

/-- The row that a READ of order lines brings to entry `j` of the local buffer. -/
def Verb.fetches : Verb → ℕ → Option Key
  | .readOrderLines serverNum tableIndex count, j =>
    if j < count then some (.orderLine serverNum (tableIndex + j)) else none
  | _, _ => none

namespace State

variable (s : State cfg)

/-- An OrderLine row of an order is stored; the row carries the id of the order. -/
def insertIntoOrderLine (serverNum : ℕ) (req : RegisterOrderRequest cfg) (j : ℕ)
    (orderLineV : Version OrderLine) : State cfg :=
  { s with
    mem := Function.update s.mem (.orderLine serverNum (lineIndex req j))
      { s.mem (.orderLine serverNum (lineIndex req j)) with head := orderLineV }
    inserted := Function.update s.inserted serverNum
      (Function.update (s.inserted serverNum) (lineIndex req j) (some (req, j))) }

def insertIntoOrder (serverNum : ℕ) (req : RegisterOrderRequest cfg) (orderV : Version Order) :
    State cfg :=
  let k : Key := .order serverNum
    (req.clientID.toNat * cfg.ORDER_BUFFER_PER_CLIENT + req.orderRegionOffset)
  { s with mem := Function.update s.mem k { s.mem k with head := orderV } }

def registerOrder (serverNum : ℕ) (req : RegisterOrderRequest cfg) : State cfg :=
  { s with
    index := Function.update s.index serverNum
      (TPCCDB.handleRegisterOrderIndexRequest (s.index serverNum) req)
    registered := Function.update s.registered serverNum (req :: s.registered serverNum) }

/-- `doOne` up to its first poll loop. In `COMPLETE` mode the vector is read first. -/
def start (cart : OrderStatusCart) (vec : ClientID → UInt32) : State cfg :=
  { s with
    localTimestampVector :=
      if cfg.SNAPSHOT_ACQUISITION_TYPE = .COMPLETE then vec else s.localTimestampVector
    phase := match cart.customerSelectionMode with
      | .LAST_NAME => .lookup cart
      | .ID => .largestOrder cart }

/-- The answer to the lookup arrives; an unsuccessful one fails an assertion. -/
def customerName (cart : OrderStatusCart) (answer : CustomerNameIndexRespMsg) :
    Option (State cfg) :=
  if answer.isSuccessful then
    some { s with
      customerNameResp := Function.update s.customerNameResp (cfg.getServerNum cart.wID) answer
      phase := .largestOrder { cart with cID := answer.cID } }
  else none

/-- The answer about the largest order arrives; without one the transaction commits, otherwise it
posts the READ of the order lines. -/
def largestOrder (cart : OrderStatusCart) (d : DistrictID cfg) : State cfg :=
  let serverNum := cfg.getServerNum cart.wID
  let largestOrderRes := TPCCDB.handleLargestOrderIndexRequest (s.index serverNum) d cart.cID
    (s.largestOrderResp serverNum)
  { s with
    largestOrderResp := Function.update s.largestOrderResp serverNum largestOrderRes
    phase := if largestOrderRes.isSuccessful then .orderLines cart else .idle (some .COMMITTED) }

def check (c : ClientID) (cart : OrderStatusCart) (vec : ClientID → UInt32) : Outcome :=
  if (List.range (s.largestOrderResp (cfg.getServerNum cart.wID)).numOfOrderlines.toNat).all
      fun olNumber =>
        BaseTransaction.isRecordAccessible c vec (s.orderLineHead olNumber).writeTimestamp
  then .COMMITTED
  else .ABORTED .INCONSISTENT_SNAPSHOT

def landLines (cart : OrderStatusCart) : ℕ → Version OrderLine :=
  match (retrieveLines cfg cart (s.largestOrderResp (cfg.getServerNum cart.wID))).verb with
  | .readOrderLines serverNum tableIndex count => fun j =>
    if j < count then (s.mem (.orderLine serverNum (tableIndex + j))).head
    else s.orderLineHead j
  | _ => s.orderLineHead

/-- The order lines arrive: they are checked, in `ONLY_READ_SET` mode only after the entries of the
vector were read. -/
def orderLines (c : ClientID) (cart : OrderStatusCart) : State cfg :=
  let fetched := { s with orderLineHead := s.landLines cart }
  { fetched with
    phase := match cfg.SNAPSHOT_ACQUISITION_TYPE with
      | .COMPLETE => .idle (some (fetched.check c cart s.localTimestampVector))
      | .ONLY_READ_SET => .snapshot cart }

def snapshot (c : ClientID) (cart : OrderStatusCart) (vec : ClientID → UInt32) : State cfg :=
  { s with
    localTimestampVector := vec
    phase := .idle (some (s.check c cart vec)) }

end State

/-- The transition function; `c` is the client that executes the OrderStatus transactions. -/
def step (c : ClientID) (s : State cfg) : Action cfg → Option (State cfg)
  | .insertIntoOrder serverNum req orderV => some (s.insertIntoOrder serverNum req orderV)
  | .insertIntoOrderLine serverNum req j orderLineV =>
    if orderLineV.body.OL_O_ID = req.oID then
      some (s.insertIntoOrderLine serverNum req j orderLineV)
    else none
  | .registerOrder serverNum req => some (s.registerOrder serverNum req)
  | .start cart vec =>
    match s.phase with
    | .idle _ => some (s.start cart vec)
    | _ => none
  | .customerName answer =>
    match s.phase with
    | .lookup cart => s.customerName cart answer
    | _ => none
  | .largestOrder =>
    match s.phase with
    | .largestOrder cart =>
      -- the server does not check the bounds; `buildCart` keeps them
      (cfg.districtID cart.wID cart.dID).map (s.largestOrder cart)
    | _ => none
  | .orderLines =>
    match s.phase with
    | .orderLines cart => some (s.orderLines c cart)
    | _ => none
  | .snapshot vec =>
    match s.phase with
    | .snapshot cart => some (s.snapshot c cart vec)
    | _ => none

/-- Initially nothing is registered or inserted; the buffers hold anything. -/
structure Init (s : State cfg) : Prop where
  index : ∀ serverNum, s.index serverNum = .empty
  registered : ∀ serverNum, s.registered serverNum = []
  inserted : ∀ serverNum tableIndex, s.inserted serverNum tableIndex = none
  phase : s.phase = .idle none

abbrev Reachable (c : ClientID) : State cfg → Prop := Transition.Reachable Init (step c)

/-! ## Invariants -/

def State.RowsNamed (s : State cfg) : Prop :=
  ∀ serverNum tableIndex req j, s.inserted serverNum tableIndex = some (req, j) →
    (s.mem (.orderLine serverNum tableIndex)).head.body.OL_O_ID = req.oID

def State.Answered (s : State cfg) : Prop :=
  ∀ cart, s.phase = .orderLines cart →
    ∃ req ∈ s.registered (cfg.getServerNum cart.wID),
      cfg.districtID cart.wID cart.dID = some req.district ∧
      s.largestOrderResp (cfg.getServerNum cart.wID) = req.largestOrderResponse

structure Inv (s : State cfg) : Prop where
  paired : ∀ serverNum, Paired (s.index serverNum) (s.registered serverNum)
  named : s.RowsNamed
  answered : s.Answered

variable {c : ClientID} {s s' : State cfg}

theorem Inv.keep (h : Inv s) (hindex : s'.index = s.index) (hreg : s'.registered = s.registered)
    (hmem : s'.mem = s.mem) (hins : s'.inserted = s.inserted)
    (hphase : ∀ cart, s'.phase ≠ .orderLines cart) : Inv s' where
  paired := by
    rw [hindex, hreg]
    exact h.paired
  named := by
    intro serverNum tableIndex req j hi
    rw [hins] at hi
    rw [hmem]
    exact h.named serverNum tableIndex req j hi
  answered cart hcart := absurd hcart (hphase cart)

theorem Inv.insertIntoOrder (h : Inv s) (serverNum : ℕ) (req : RegisterOrderRequest cfg)
    (orderV : Version Order) : Inv (s.insertIntoOrder serverNum req orderV) where
  paired := h.paired
  named := by
    intro n tableIndex r j hi
    have hmem : (s.insertIntoOrder serverNum req orderV).mem (.orderLine n tableIndex) =
        s.mem (.orderLine n tableIndex) := by
      simp [State.insertIntoOrder]
    rw [hmem]
    exact h.named n tableIndex r j hi
  answered := h.answered

theorem Inv.insertIntoOrderLine (h : Inv s) {serverNum j : ℕ} {req : RegisterOrderRequest cfg}
    {orderLineV : Version OrderLine} (hid : orderLineV.body.OL_O_ID = req.oID) :
    Inv (s.insertIntoOrderLine serverNum req j orderLineV) where
  paired := h.paired
  named := by
    intro n tableIndex r i hi
    by_cases heq : n = serverNum ∧ tableIndex = lineIndex req j
    · obtain ⟨rfl, rfl⟩ := heq
      have hmem : ((s.insertIntoOrderLine n req j orderLineV).mem
          (.orderLine n (lineIndex req j))).head = orderLineV := by
        simp [State.insertIntoOrderLine]
      simp only [State.insertIntoOrderLine, Function.update_self, Option.some.injEq,
        Prod.mk.injEq] at hi
      rw [hmem, hid, hi.1]
    · have hmem : (s.insertIntoOrderLine serverNum req j orderLineV).mem
          (.orderLine n tableIndex) = s.mem (.orderLine n tableIndex) :=
        Function.update_of_ne (fun hk => heq ⟨(Key.orderLine.inj hk).1, (Key.orderLine.inj hk).2⟩)
          _ _
      have hins : (s.insertIntoOrderLine serverNum req j orderLineV).inserted n tableIndex =
          s.inserted n tableIndex := by
        by_cases hn : n = serverNum
        · subst hn
          simp [State.insertIntoOrderLine,
            Function.update_of_ne (fun ht => heq ⟨rfl, ht⟩ : tableIndex ≠ lineIndex req j)]
        · simp [State.insertIntoOrderLine, hn]
      rw [hmem]
      rw [hins] at hi
      exact h.named n tableIndex r i hi
  answered := h.answered

theorem Inv.registerOrder (h : Inv s) (serverNum : ℕ) (req : RegisterOrderRequest cfg) :
    Inv (s.registerOrder serverNum req) where
  paired := by
    intro n
    by_cases hn : n = serverNum
    · subst hn
      simpa [State.registerOrder] using (h.paired n).register req
    · simpa [State.registerOrder, hn] using h.paired n
  named := h.named
  answered := by
    intro cart hcart
    obtain ⟨r, hr, hrest⟩ := h.answered cart hcart
    refine ⟨r, ?_, hrest⟩
    by_cases hn : cfg.getServerNum cart.wID = serverNum
    · simp only [State.registerOrder, hn, Function.update_self]
      exact List.mem_cons_of_mem _ (hn ▸ hr)
    · simpa [State.registerOrder, hn] using hr

theorem Inv.largestOrder (h : Inv s) {cart : OrderStatusCart} {d : DistrictID cfg}
    (hd : cfg.districtID cart.wID cart.dID = some d) : Inv (s.largestOrder cart d) where
  paired := h.paired
  named := h.named
  answered := by
    intro cart' hcart'
    simp only [State.largestOrder] at hcart'
    split at hcart'
    · rename_i hsucc
      obtain rfl := Phase.orderLines.inj hcart'
      obtain ⟨req, hreq, rfl, hres⟩ := (h.paired _).largestOrder hsucc
      exact ⟨req, hreq, hd, by simp only [State.largestOrder, Function.update_self, hres]⟩
    · cases hcart'

theorem Inv.step {a : Action cfg} (h : Inv s) (hs : step c s a = some s') : Inv s' := by
  cases a with
  | insertIntoOrder serverNum req orderV =>
    cases hs
    exact h.insertIntoOrder serverNum req orderV
  | insertIntoOrderLine serverNum req j orderLineV =>
    obtain ⟨hid, hs⟩ := Option.ite_none_right_eq_some.1 hs
    cases hs
    exact h.insertIntoOrderLine hid
  | registerOrder serverNum req =>
    cases hs
    exact h.registerOrder serverNum req
  | start cart vec =>
    simp only [OrderStatus.step] at hs
    split at hs
    · cases hs
      refine h.keep rfl rfl rfl rfl fun cart' => ?_
      simp only [State.start]
      split <;> simp
    · cases hs
  | customerName answer =>
    simp only [OrderStatus.step] at hs
    split at hs
    · obtain ⟨-, hs⟩ := Option.ite_none_right_eq_some.1 hs
      cases hs
      exact h.keep rfl rfl rfl rfl (by simp)
    · cases hs
  | largestOrder =>
    simp only [OrderStatus.step] at hs
    split at hs
    · obtain ⟨d, hd, rfl⟩ := Option.map_eq_some_iff.1 hs
      exact h.largestOrder hd
    · cases hs
  | orderLines =>
    simp only [OrderStatus.step] at hs
    split at hs
    · cases hs
      refine h.keep rfl rfl rfl rfl fun cart' => ?_
      simp only [State.orderLines]
      split <;> simp
    · cases hs
  | snapshot vec =>
    simp only [OrderStatus.step] at hs
    split at hs
    · cases hs
      exact h.keep rfl rfl rfl rfl (by simp [State.snapshot])
    · cases hs

theorem inv_of_reachable (h : Reachable c s) : Inv s := by
  refine h.invariant (fun s hs => ?_) fun s a s' _ hinv _ hstep => hinv.step hstep
  refine ⟨fun serverNum => ?_, fun serverNum tableIndex req j hi => ?_, fun cart hcart => ?_⟩
  · rw [hs.index, hs.registered]
    exact paired_empty
  · rw [hs.inserted] at hi
    cases hi
  · rw [hs.phase] at hcart
    cases hcart

/-- An answer that is in use describes a registered order. -/
theorem answer_of_reachable (h : Reachable c s) : s.Answered := (inv_of_reachable h).answered

/-! ## The rows that are fetched -/

/-- The places of the lines of the order that an answer describes still hold these lines. -/
def State.Intact (s : State cfg) (serverNum : ℕ) (res : LargestOrderForCustomerIndexRespMsg) :
    Prop :=
  ∀ j < res.numOfOrderlines.toNat, ∃ req,
    s.inserted serverNum (DBExecutor.orderLineIndex cfg res.clientWhoOrdered
      (res.orderLineRegionOffset + j)) = some (req, j) ∧ req.largestOrderResponse = res

/-- The READ brought exactly the lines of the order that `res` describes: row `j` is the one at
`(clientWhoOrdered, orderLineRegionOffset + j)`, and it has the id of the order. -/
structure FetchedOrder (cfg : Config) (cart : OrderStatusCart)
    (res : LargestOrderForCustomerIndexRespMsg) (orderLineHead : ℕ → Version OrderLine) :
    Prop where
  rows : ∀ j, Verb.fetches (retrieveLines cfg cart res).verb j =
    if j < res.numOfOrderlines.toNat then
      some (DBExecutor.orderLineKey cfg res.clientWhoOrdered (res.orderLineRegionOffset + j)
        cart.wID)
    else none
  ids : ∀ j < res.numOfOrderlines.toNat, (orderLineHead j).body.OL_O_ID = res.oID

/-- The READ addresses the lines of the order iff the two offsets agree. -/
theorem rows_iff (cart : OrderStatusCart) (res : LargestOrderForCustomerIndexRespMsg) :
    (∀ j, Verb.fetches (retrieveLines cfg cart res).verb j =
      if j < res.numOfOrderlines.toNat then
        some (DBExecutor.orderLineKey cfg res.clientWhoOrdered (res.orderLineRegionOffset + j)
          cart.wID)
      else none) ↔
      res.numOfOrderlines = 0 ∨ res.orderRegionOffset = res.orderLineRegionOffset := by
  simp only [retrieveLines, DBExecutor.retrieveOrderLines, Verb.fetches, DBExecutor.orderLineKey,
    DBExecutor.orderLineIndex]
  constructor
  · intro h
    rcases Nat.eq_zero_or_pos res.numOfOrderlines.toNat with h0 | hpos
    · exact .inl (UInt8.toNat_inj.1 h0)
    · have hrow := h 0
      simp only [if_pos hpos, Option.some.injEq, Key.orderLine.injEq] at hrow
      exact .inr (by omega)
  · rintro (h0 | hoff) j
    · simp [h0]
    · rw [hoff, Nat.add_assoc]

/-- With equal offsets the rows that arrive are those of the order. -/
theorem ids_of_offset (hinv : Inv s) {cart : OrderStatusCart}
    {res : LargestOrderForCustomerIndexRespMsg}
    (hres : s.largestOrderResp (cfg.getServerNum cart.wID) = res)
    (hintact : s.Intact (cfg.getServerNum cart.wID) res)
    (hoff : res.orderRegionOffset = res.orderLineRegionOffset) {j : ℕ}
    (hj : j < res.numOfOrderlines.toNat) : (s.landLines cart j).body.OL_O_ID = res.oID := by
  obtain ⟨req, hins, rfl⟩ := hintact j hj
  have hrow := hinv.named _ _ _ _ hins
  have hindex : DBExecutor.orderLineIndex cfg req.largestOrderResponse.clientWhoOrdered
      (req.largestOrderResponse.orderLineRegionOffset + j) =
      DBExecutor.orderLineIndex cfg req.largestOrderResponse.clientWhoOrdered
        req.largestOrderResponse.orderRegionOffset + j := by
    rw [hoff]
    exact (Nat.add_assoc ..).symm
  rw [hindex] at hrow
  simp only [State.landLines, hres, retrieveLines, DBExecutor.retrieveOrderLines, if_pos hj]
  exact hrow

/-- **The lines an OrderStatus fetches.** In every reachable state in which the READ of the order
lines is outstanding, the answer describes a registered order of the district; and if the lines of
that order were not overwritten, the rows the READ brings are exactly these lines iff the order has
no line or is stored at the same offset in the client's slices of both tables. -/
theorem fetchedOrder_iff {cart : OrderStatusCart} (h : Reachable c s)
    (hphase : s.phase = .orderLines cart)
    (hintact : s.Intact (cfg.getServerNum cart.wID)
      (s.largestOrderResp (cfg.getServerNum cart.wID)))
    (hstep : step c s .orderLines = some s') :
    ∃ req ∈ s.registered (cfg.getServerNum cart.wID),
      cfg.districtID cart.wID cart.dID = some req.district ∧
      s.largestOrderResp (cfg.getServerNum cart.wID) = req.largestOrderResponse ∧
      (FetchedOrder cfg cart req.largestOrderResponse s'.orderLineHead ↔
        req.numOfOrderlines = 0 ∨ req.orderRegionOffset = req.orderLineRegionOffset) := by
  obtain ⟨req, hreq, hd, hres⟩ := answer_of_reachable h cart hphase
  have hhead : s'.orderLineHead = s.landLines cart := by
    simp only [step, hphase] at hstep
    cases hstep
    rfl
  refine ⟨req, hreq, hd, hres, ?_⟩
  rw [hres] at hintact
  have hiff := @rows_iff cfg cart req.largestOrderResponse
  refine ⟨fun hf => hiff.1 hf.rows, fun hoff => ⟨hiff.2 hoff, fun j hj => ?_⟩⟩
  rcases hoff with h0 | hoff
  · -- no line: there is no such `j`
    have hj' : j < req.numOfOrderlines.toNat := hj
    simp [h0] at hj'
  · rw [hhead]
    exact ids_of_offset (inv_of_reachable h) hres hintact hoff hj

/-! ## Two orders of one client -/

def noOrders : State (.shipped 2) where
  mem := (plain (.shipped 2)).mem
  index _ := .empty
  phase := .idle none
  localTimestampVector _ := 0
  customerNameResp _ := ⟨false, 0⟩
  largestOrderResp _ := ⟨false, 0, 0, 0, 0, 0⟩
  orderLineHead _ := ⟨.empty, ⟨0, 0, 0, 0, 0, 0, 0, 0, 0, ""⟩⟩
  registered _ := []
  inserted _ _ := none

theorem init_noOrders : Init noOrders := ⟨fun _ => rfl, fun _ => rfl, fun _ _ => rfl, rfl⟩

def someDistrict : DistrictID (.shipped 2) := ⟨0, 0, zero_lt_warehouses, zero_lt_districts⟩

def firstOrder : RegisterOrderRequest (.shipped 2) := ⟨1, someDistrict, 3, 0, 0, 0, 0, 2⟩

/-- Its second order; the first one has taken two places of the OrderLine slice. -/
def secondOrder : RegisterOrderRequest (.shipped 2) := ⟨1, someDistrict, 3, 1, 1, 1, 2, 2⟩

def place (req : RegisterOrderRequest (.shipped 2)) : List (Action (.shipped 2)) :=
  [.insertIntoOrderLine 0 req 0 ⟨initialTS, ⟨req.oID, 0, 0, 0, 7, 0, 0, 1, 0, ""⟩⟩,
    .insertIntoOrderLine 0 req 1 ⟨initialTS, ⟨req.oID, 0, 0, 1, 8, 0, 0, 1, 0, ""⟩⟩,
    .registerOrder 0 req]

def customerCart : OrderStatusCart := ⟨0, 0, .ID, "", 3⟩

/-- An OrderStatus up to the READ of the order lines. -/
def askLargest : List (Action (.shipped 2)) := [.start customerCart fun _ => 0, .largestOrder]

/-- The READ of the lines of `req` is outstanding, and they are in their places. -/
def AtLines (req : RegisterOrderRequest (.shipped 2)) (s : State (.shipped 2)) : Prop :=
  s.phase = .orderLines customerCart ∧
    s.largestOrderResp 0 = req.largestOrderResponse ∧
    ∀ j < req.numOfOrderlines.toNat, s.inserted 0 (lineIndex req j) = some (req, j)

instance (req : RegisterOrderRequest (.shipped 2)) : DecidablePred (AtLines req) := fun _ =>
  inferInstanceAs (Decidable (_ ∧ _ ∧ ∀ j < req.numOfOrderlines.toNat, _))

theorem AtLines.intact {req : RegisterOrderRequest (.shipped 2)} {s : State (.shipped 2)}
    (h : AtLines req s) : s.Intact 0 (s.largestOrderResp 0) := by
  intro j hj
  rw [h.2.1] at hj ⊢
  exact ⟨req, h.2.2 j hj, rfl⟩

theorem fetchedOrder_firstOrder : ∃ s s' : State (.shipped 2), Reachable 0 s ∧
    step 0 s .orderLines = some s' ∧ ∃ req ∈ s.registered 0,
      Config.districtID (.shipped 2) 0 0 = some req.district ∧
      s.largestOrderResp 0 = req.largestOrderResponse ∧
      (FetchedOrder (.shipped 2) customerCart req.largestOrderResponse s'.orderLineHead ↔
        req.numOfOrderlines = 0 ∨ req.orderRegionOffset = req.orderLineRegionOffset) := by
  obtain ⟨s, hs, hlines⟩ := Transition.exists_reachableBy (step 0) (fun _ _ => True) init_noOrders
    (place firstOrder ++ askLargest) (AtLines firstOrder) (by decide +kernel)
  have hstep : step 0 s .orderLines = some (s.orderLines 0 customerCart) := by
    simp only [step, hlines.1]
  exact ⟨s, _, hs, hstep, fetchedOrder_iff hs hlines.1 hlines.intact hstep⟩

/-- Of a client's second order, which is stored at offset 1 of the Order slice and at offset 2 of
the OrderLine slice, other rows are fetched than its lines: the first of them is a line of the first
order. -/
theorem not_fetchedOrder_secondOrder : ∃ s s' : State (.shipped 2), Reachable 0 s ∧
    s.phase = .orderLines customerCart ∧ s.Intact 0 (s.largestOrderResp 0) ∧
    step 0 s .orderLines = some s' ∧
    ¬ FetchedOrder (.shipped 2) customerCart (s.largestOrderResp 0) s'.orderLineHead ∧
    (s'.orderLineHead 0).body.OL_O_ID = firstOrder.oID := by
  obtain ⟨s, hs, hlines, hid⟩ := Transition.exists_reachableBy (step 0) (fun _ _ => True)
    init_noOrders (place firstOrder ++ place secondOrder ++ askLargest)
    (fun s => AtLines secondOrder s ∧
      (s.landLines customerCart 0).body.OL_O_ID = firstOrder.oID) (by decide +kernel)
  have hstep : step 0 s .orderLines = some (s.orderLines 0 customerCart) := by
    simp only [step, hlines.1]
  refine ⟨s, _, hs, hlines.1, hlines.intact, hstep, fun hf => ?_, hid⟩
  have hids := hf.ids 0 (by rw [hlines.2.1]; decide)
  rw [hlines.2.1] at hids
  exact absurd (hid.symm.trans hids) (by decide)

end OrderStatus

end RdmaSnapshot
