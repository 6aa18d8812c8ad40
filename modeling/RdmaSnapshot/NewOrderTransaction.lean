import RdmaSnapshot.Executor

/-!
# `NewOrderTransaction::doOne`

One definition for each stretch of code between two poll loops. A stretch takes the client as the
poll loop leaves it and returns it as the next poll loop finds it, with the work requests it has
posted in between.
-/

namespace RdmaSnapshot

open DBExecutor

/-- `OracleContext::insertClientIDIntoSnapshot`: insertion into a `std::set`. -/
def insertClientIDIntoSnapshot (c : ClientID) : List ClientID → List ClientID
  | [] => [c]
  | x :: xs =>
    if c < x then c :: x :: xs
    else if c = x then x :: xs
    else x :: insertClientIDIntoSnapshot c xs

/-- The snapshot of `ONLY_READ_SET` mode: the entries of the clients whose ids were met in the
read set, or the whole vector when there are many of them. -/
def acquireSnapshot (cfg : Config) (readerVector : ClientID → UInt32) (cl : Client) (trx : Trx)
    (clientIDs : List ClientID) : Client :=
  let clientIDsInSnapshot := clientIDs.foldr insertClientIDIntoSnapshot []
  if clientIDsInSnapshot.length > cfg.clientCnt / 10 then
    getReadTimestamp cfg readerVector cl trx true
  else cl.post trx (getPartialSnapshot clientIDsInSnapshot true)

/-- The READs posted for a version that failed `isRecordAccessible`: none if it passed; the
selected older version otherwise; `none` if no listed version is accessible either. -/
def fetchOlderVersion (c : ClientID) (cl : Client) (ts : Timestamp) (tsList : List Timestamp)
    (retrieve : ℕ → Timestamp → Post) : Option (List Post) :=
  if cl.isRecordAccessible c ts then some []
  else (cl.findValidVersion c tsList).map fun ind => [retrieve ind (tsList.getD ind .empty)]

namespace NewOrderTransaction

variable (cfg : Config) (c : ClientID) (cl : Client) (cart : NewOrderCart)

def buffers : LocalMemory := cl.localMemory .newOrder

def warehouseV : Version Warehouse := (buffers cl).head .warehouse 0

def districtV : Version District := (buffers cl).head .district 0

def customerV : Version Customer := (buffers cl).head .customer 0

def itemV (olNumber : ℕ) : Version Item := (buffers cl).head .item olNumber

def stockV (olNumber : ℕ) : Version Stock := (buffers cl).head .stock olNumber

/-! ## Read set -/

def readSetPosts : List Post :=
  [retrieveWarehouse cart.wID false,
    retrieveWarehousePointerList cart.wID .warehouseTS false,
    retrieveDistrict cart.wID cart.dID false,
    retrieveDistrictPointerList cart.wID cart.dID .districtTS false,
    retrieveCustomer cart.wID cart.dID cart.cID false,
    retrieveCustomerPointerList cart.wID cart.dID cart.cID .customerTS false] ++
  cart.items.zipIdx.flatMap fun (item, olNumber) =>
    [retrieveItem cfg olNumber item.I_ID cart.wID (olNumber == cart.items.length - 1),
      retrieveStock olNumber item.I_ID item.OL_SUPPLY_W_ID false,
      retrieveStockPointerList olNumber item.I_ID item.OL_SUPPLY_W_ID true]

def start (readerVector : ClientID → UInt32) : Client :=
  let cl := { cl with phase := .newOrder cart .readSet }
  let cl :=
    if cfg.SNAPSHOT_ACQUISITION_TYPE = .COMPLETE then
      getReadTimestamp cfg readerVector cl (.newOrder cart) true
    else cl
  cl.post (.newOrder cart) (readSetPosts cfg cart)

def clientIDsInReadSet : List ClientID :=
  [(warehouseV cl).writeTimestamp.clientID, (districtV cl).writeTimestamp.clientID,
    (customerV cl).writeTimestamp.clientID] ++
  ((buffers cl).pointerList .warehouseTS ++ (buffers cl).pointerList .districtTS ++
    (buffers cl).pointerList .customerTS).map (·.clientID) ++
  cart.items.zipIdx.flatMap fun (_, olNumber) =>
    [(itemV cl olNumber).writeTimestamp.clientID, (stockV cl olNumber).writeTimestamp.clientID]

/-! ## Version check -/

def checkVersions : List Post × Bool :=
  match fetchOlderVersion c cl (warehouseV cl).writeTimestamp
      ((buffers cl).pointerList .warehouseTS)
      fun ind ts => retrieveWarehouseOlderVersion cfg cart.wID ind ts true with
  | none => ([], true)
  | some ws =>
    match fetchOlderVersion c cl (districtV cl).writeTimestamp
        ((buffers cl).pointerList .districtTS)
        fun ind ts => retrieveDistrictOlderVersion cfg cart.wID cart.dID ind ts true with
    | none => (ws, true)
    | some ds =>
      match fetchOlderVersion c cl (customerV cl).writeTimestamp
          ((buffers cl).pointerList .customerTS)
          fun ind ts =>
            retrieveCustomerOlderVersion cfg cart.wID cart.dID cart.cID ind ts true with
      | none => (ws ++ ds, true)
      | some cs =>
        (ws ++ ds ++ cs, cart.items.zipIdx.any fun (_, olNumber) =>
          !cl.isRecordAccessible c (itemV cl olNumber).writeTimestamp ||
            !cl.isRecordAccessible c (stockV cl olNumber).writeTimestamp)

def checkStep : Client × CpuLabel :=
  (({ cl with
      phase := .newOrder cart (.olderVersions (checkVersions cfg c cl cart).2) } : Client).post
    (.newOrder cart) (checkVersions cfg c cl cart).1, .resume)

def afterReadSet (readerVector : ClientID → UInt32) : Client × CpuLabel :=
  match cfg.SNAPSHOT_ACQUISITION_TYPE with
  | .COMPLETE => checkStep cfg c cl cart
  | .ONLY_READ_SET =>
    (acquireSnapshot cfg readerVector { cl with phase := .newOrder cart .snapshot }
      (.newOrder cart) (clientIDsInReadSet cl cart), .resume)

/-! ## Locks -/

def lockPosts (cts : UInt32) : List Post :=
  (if cfg.APPLY_COMMUTATIVE_UPDATES then []
    else [lockDistrict (districtV cl) (lockTimestamp (districtV cl).writeTimestamp c cts) true]) ++
  cart.items.zipIdx.map fun (item, olNumber) =>
    lockStock olNumber item.I_ID item.OL_SUPPLY_W_ID (stockV cl olNumber).writeTimestamp
      (lockTimestamp (stockV cl olNumber).writeTimestamp c cts) true

/-- After the poll loop of the older versions: abort, or acquire a commit timestamp and lock. -/
def afterOlderVersions (abortFlag : Bool) : Client × CpuLabel :=
  if abortFlag || !cl.isRecordAccessible c (warehouseV cl).writeTimestamp ||
      !cl.isRecordAccessible c (districtV cl).writeTimestamp ||
      !cl.isRecordAccessible c (customerV cl).writeTimestamp then
    ({ cl with phase := .idle }, .finish (.ABORTED .INCONSISTENT_SNAPSHOT))
  else
    let cts := cl.newCommitTimestamp cfg c
    (({ cl.advanceEpoch with phase := .newOrder cart (.locks cts) } : Client).post
      (.newOrder cart) (lockPosts cfg c cl cart cts), .acquire cts)

/-- The CAS on the district word swapped it, or none was posted. -/
def districtLocked : Bool :=
  cfg.APPLY_COMMUTATIVE_UPDATES ||
    ((buffers cl).lockRegion .district 0).isEqual (districtV cl).writeTimestamp

def stockLocked (olNumber : ℕ) : Bool :=
  ((buffers cl).lockRegion .stock olNumber).isEqual (stockV cl olNumber).writeTimestamp

def revertPosts : List Post :=
  (if !cfg.APPLY_COMMUTATIVE_UPDATES && districtLocked cfg cl then
    [revertDistrictLock (districtV cl) true] else []) ++
  (cart.items.zipIdx.filter fun (_, olNumber) => stockLocked cl olNumber).map
    fun (item, olNumber) =>
      revertStockLock item.I_ID item.OL_SUPPLY_W_ID (stockV cl olNumber) true

/-! ## Install -/

def pushedLists : ListBuffer → List Timestamp
  | .districtTS =>
    if cfg.APPLY_COMMUTATIVE_UPDATES then (buffers cl).pointerList .districtTS
    else pushPointer cfg (districtV cl).writeTimestamp ((buffers cl).pointerList .districtTS)
  | .stockTS olNumber =>
    if olNumber < cart.items.length then
      pushPointer cfg (stockV cl olNumber).writeTimestamp
        ((buffers cl).pointerList (.stockTS olNumber))
    else (buffers cl).pointerList (.stockTS olNumber)
  | b => (buffers cl).pointerList b

def appendPosts : List Post :=
  (if cfg.APPLY_COMMUTATIVE_UPDATES then []
    else [updateDistrictPointers (districtV cl) (pushedLists cfg cl cart .districtTS) false,
      updateDistrictOlderVersions (districtV cl) false]) ++
  cart.items.zipIdx.flatMap fun (item, olNumber) =>
    [updateStockPointers (stockV cl olNumber) item.OL_SUPPLY_W_ID
        (pushedLists cfg cl cart (.stockTS olNumber)) false,
      updateStockOlderVersions (stockV cl olNumber) item.OL_SUPPLY_W_ID false]

def reserveOrderLineRID (orderLineCnt : ℕ) : ℕ :=
  if cl.nextOrderLineID + orderLineCnt < cfg.ORDER_BUFFER_PER_CLIENT * cfg.ORDER_MAX_OL_CNT then
    cl.nextOrderLineID
  else 0

def newStock (item : NewOrderItem) (stock : Stock) : Stock :=
  { stock with
    S_QUANTITY :=
      -- the comparison is made on int
      if item.OL_QUANTITY.toNat + 10 ≤ stock.S_QUANTITY.toNat then
        stock.S_QUANTITY - item.OL_QUANTITY.toUInt16
      else stock.S_QUANTITY - item.OL_QUANTITY.toUInt16 + 91
    S_YTD := stock.S_YTD + item.OL_QUANTITY.toUInt32
    S_ORDER_CNT := stock.S_ORDER_CNT + 1
    S_REMOTE_CNT := if item.OL_SUPPLY_W_ID = 0 then stock.S_REMOTE_CNT + 1 else stock.S_REMOTE_CNT }

def newStockV (cts : UInt32) (item : NewOrderItem) (v : Version Stock) : Version Stock :=
  ⟨newTimestamp cfg v.writeTimestamp c cts, newStock item v.body⟩

/-- The district version installed when updates are not commutative. -/
def newDistrictV (cts : UInt32) (v : Version District) : Version District :=
  ⟨newTimestamp cfg v.writeTimestamp c cts,
    { v.body with D_NEXT_O_ID := v.body.D_NEXT_O_ID + 1 }⟩

def orderV (cts assignedOID : UInt32) : Version Order where
  writeTimestamp := .setAll false false 0 c cts
  body :=
    { O_ID := assignedOID, O_D_ID := cart.dID, O_W_ID := cart.wID, O_C_ID := cart.cID,
      O_CARRIER_ID := 0, O_OL_CNT := UInt8.ofNat cart.items.length, O_ALL_LOCAL := 1 }

def newOrderV (cts assignedOID : UInt32) : Version NewOrder where
  writeTimestamp := .setAll false false 0 c cts
  body := { NO_O_ID := assignedOID, NO_D_ID := cart.dID, NO_W_ID := cart.wID }

def orderLineV (cts assignedOID : UInt32) (item : NewOrderItem) (olNumber : ℕ) :
    Version OrderLine where
  writeTimestamp := .setAll false false 0 c cts
  body :=
    { OL_O_ID := assignedOID, OL_D_ID := cart.dID, OL_W_ID := cart.wID,
      OL_NUMBER := UInt8.ofNat olNumber, OL_I_ID := (itemV cl olNumber).body.I_ID,
      OL_SUPPLY_W_ID := item.OL_SUPPLY_W_ID.toUInt32, OL_DELIVERY_D := 0,
      OL_QUANTITY := item.OL_QUANTITY,
      OL_AMOUNT := item.OL_QUANTITY.toFloat32 * (itemV cl olNumber).body.I_PRICE,
      OL_DIST_INFO := (stockV cl olNumber).body.S_DIST cart.dID.toNat }

def installPosts (cts assignedOID : UInt32) : List Post :=
  [insertIntoOrder cfg c cl.nextOrderID cart.wID (orderV c cart cts assignedOID) false,
    insertIntoNewOrder cfg c cl.nextNewOrderID cart.wID (newOrderV c cart cts assignedOID)
      false] ++
  cart.items.zipIdx.flatMap fun (item, olNumber) =>
    [updateStock (newStockV cfg c cts item (stockV cl olNumber)) item.OL_SUPPLY_W_ID true,
      insertIntoOrderLine cfg c (cl.nextOrderLineID + olNumber) cart.wID
        (orderLineV c cl cart cts assignedOID item olNumber) (olNumber == cart.items.length - 1)]

def installedHeads (cts assignedOID : UInt32) : (t : Table) → ℕ → Version (Row t)
  | .order, 0 => orderV c cart cts assignedOID
  | .newOrder, 0 => newOrderV c cart cts assignedOID
  | .stock, olNumber =>
    match cart.items[olNumber]? with
    | some item => newStockV cfg c cts item (stockV cl olNumber)
    | none => stockV cl olNumber
  | .orderLine, olNumber =>
    match cart.items[olNumber]? with
    | some item => orderLineV c cl cart cts assignedOID item olNumber
    | none => (buffers cl).head .orderLine olNumber
  | t, i => (buffers cl).head t i

def installStep (cts assignedOID : UInt32) : Client :=
  ({ cl.setLocal .newOrder
        { buffers cl with head := installedHeads cfg c cl cart cts assignedOID } with
      phase := .newOrder cart (.install cts assignedOID) } : Client).post (.newOrder cart)
    (installPosts cfg c cl cart cts assignedOID)

/-- The CPU's part of appending the old versions: the shifted lists and the reserved rows. -/
def appended : Client :=
  { cl.setLocal .newOrder { buffers cl with pointerList := pushedLists cfg cl cart } with
    nextOrderLineID := reserveOrderLineRID cfg cl cart.items.length }

/-- From the end of the log to the next poll loop: the one of the FAA, or, when updates are not
commutative, the one of the new rows. -/
def appendStep (cts : UInt32) : Client × CpuLabel :=
  let posted := (appended cfg cl cart).post (.newOrder cart) (appendPosts cfg cl cart)
  if cfg.APPLY_COMMUTATIVE_UPDATES then
    (({ posted with phase := .newOrder cart (.nextOID cts) } : Client).post (.newOrder cart)
      [retrieveAndIncrementDistrictNextOID cart.wID cart.dID true], .resume)
  else
    let district := newDistrictV cfg c cts (districtV cl)
    let updated := (posted.setLocal .newOrder ((buffers posted).setHead .district 0 district)).post
      (.newOrder cart) [updateDistrict district true]
    (installStep cfg c updated cart cts (districtV cl).body.D_NEXT_O_ID.toUInt32, .resume)

def afterLocks (cts : UInt32) : Client × CpuLabel :=
  if districtLocked cfg cl && cart.items.zipIdx.all fun (_, olNumber) => stockLocked cl olNumber
  then
    let cl := { cl with localTimestampVector := Function.update cl.localTimestampVector c cts }
    if cfg.RECOVERY_ENABLED then
      (({ cl with phase := .newOrder cart (.log cts) } : Client).postLog (.newOrder cart)
        (logServers cfg c), .resume)
    else appendStep cfg c cl cart cts
  else
    (({ cl with phase := .newOrder cart .reverts } : Client).post (.newOrder cart)
      (revertPosts cfg cl cart), .resume)

/-- After the poll loop of the FAA: its result is the order id, cut to 32 bits. -/
def afterNextOID (cts : UInt32) : Client × CpuLabel :=
  (installStep cfg c cl cart cts (districtV cl).body.D_NEXT_O_ID.toUInt32, .resume)

def afterInstall (assignedOID : UInt32) : Client × CpuLabel :=
  (({ cl with phase := .newOrder cart .register } : Client).post (.newOrder cart)
    [registerOrder cfg cart.wID cart.dID cart.cID assignedOID cl.nextOrderID cl.nextNewOrderID
      cl.nextOrderLineID (UInt8.ofNat cart.items.length) true], .resume)

def afterRegister : Client × CpuLabel :=
  (({ cl with phase := .newOrder cart .publish } : Client).post (.newOrder cart)
    [submitResult c cl.localTimestampVector true], .resume)

def afterPublish : Client × CpuLabel :=
  ({ cl with
      nextOrderID := (cl.nextOrderID + 1) % cfg.ORDER_BUFFER_PER_CLIENT
      nextNewOrderID := (cl.nextNewOrderID + 1) % cfg.ORDER_BUFFER_PER_CLIENT
      nextOrderLineID := (cl.nextOrderLineID + cart.items.length) %
        (cfg.ORDER_BUFFER_PER_CLIENT * cfg.ORDER_MAX_OL_CNT)
      phase := .idle }, .finish .COMMITTED)

def resume (readerVector : ClientID → UInt32) : NewOrderPC → Client × CpuLabel
  | .readSet => afterReadSet cfg c cl cart readerVector
  | .snapshot => checkStep cfg c cl cart
  | .olderVersions abortFlag => afterOlderVersions cfg c cl cart abortFlag
  | .locks cts => afterLocks cfg c cl cart cts
  | .reverts => ({ cl with phase := .idle }, .finish (.ABORTED .UNSUCCESSFUL_LOCK))
  | .log cts => appendStep cfg c cl cart cts
  | .nextOID cts => afterNextOID cfg c cl cart cts
  | .install _ assignedOID => afterInstall cfg cl cart assignedOID
  | .register => afterRegister c cl cart
  | .publish => afterPublish cfg cl cart

end NewOrderTransaction

end RdmaSnapshot
