import RdmaSnapshot.PaymentTransaction

/-!
# `DeliveryTransaction::doOne`

One iteration of the loop over districts, which the source treats as an independent transaction.
The order, its NewOrder row and its lines are found through the index; their rows are locked where
the index says they are. The deleted NewOrder row, however, is written at `(clientID_,
getNewOrderRID())`, and `getNewOrderRID` of this transaction object is always zero.
-/

namespace RdmaSnapshot.DeliveryTransaction

open DBExecutor

variable (cfg : Config) (c : ClientID) (cl : Client) (cart : DeliveryCart) (dID : UInt8)

def buffers : LocalMemory := cl.localMemory .delivery

def orderV : Version Order := (buffers cl).head .order 0

def newOrderV : Version NewOrder := (buffers cl).head .newOrder 0

def orderLineV (olNumber : ℕ) : Version OrderLine := (buffers cl).head .orderLine olNumber

def customerV : Version Customer := (buffers cl).head .customer 0

def oldest : OldestUndeliveredOrderIndexResMsg :=
  cl.oldestUndeliveredOrderResp (cfg.getServerNum cart.wID)

def getNewOrderRID : ℕ := 0

/-- The iteration ends: `continue`, or the return after the last district. -/
def next (outcome : Outcome) : Client × CpuLabel :=
  ({ cl with
      phase :=
        if (dID + 1).toNat < cfg.DISTRICT_PER_WAREHOUSE then .delivery cart (dID + 1) .begin
        else .idle }, .finish outcome)

/-! ## Read set -/

def beginStep (readerVector : ClientID → UInt32) : Client × CpuLabel :=
  let cl := { cl with t := cl.t + 1, phase := .delivery cart dID .oldest }
  let cl :=
    if cfg.SNAPSHOT_ACQUISITION_TYPE = .COMPLETE then
      getReadTimestamp cfg readerVector cl (.delivery cart dID) true
    else cl
  (cl.post (.delivery cart dID) [getOldestUndeliveredOrder cfg cart.wID dID true], .begin)

def orderRowsPosts : List Post :=
  [retrieveOrder cfg (oldest cfg cl cart).clientWhoOrdered (oldest cfg cl cart).orderRegionOffset
      cart.wID false,
    retrieveNewOrder cfg (oldest cfg cl cart).clientWhoOrdered
      (oldest cfg cl cart).newOrderRegionOffset cart.wID false,
    retrieveOrderLines cfg (oldest cfg cl cart).clientWhoOrdered cart.wID
      (oldest cfg cl cart).orderLineRegionOffset (oldest cfg cl cart).numOfOrderlines true]

def afterOldest : Client × CpuLabel :=
  if (oldest cfg cl cart).isSuccessful && (oldest cfg cl cart).existUndeliveredOrder then
    (({ cl with phase := .delivery cart dID .orderRows } : Client).post (.delivery cart dID)
      (orderRowsPosts cfg cl cart), .resume)
  else next cfg cl cart dID .SKIPPED

def customerPosts (cID : UInt32) : List Post :=
  [retrieveCustomer cart.wID dID cID false,
    retrieveCustomerPointerList cart.wID dID cID .customerTS true]

def afterOrderRows : Client × CpuLabel :=
  let cID := (orderV cl).body.O_C_ID
  (({ cl with phase := .delivery cart dID (.customer cID) } : Client).post (.delivery cart dID)
    (customerPosts cart dID cID), .resume)

def clientIDsInReadSet : List ClientID :=
  [(orderV cl).writeTimestamp.clientID, (newOrderV cl).writeTimestamp.clientID,
    (customerV cl).writeTimestamp.clientID] ++
  (List.range (oldest cfg cl cart).numOfOrderlines.toNat).map
    (fun olNumber => (orderLineV cl olNumber).writeTimestamp.clientID) ++
  ((buffers cl).pointerList .customerTS).map (·.clientID)

/-! ## Version check and locks -/

/-- The order rows are accessible and belong to the order the index named. -/
def orderRowsConsistent : Bool :=
  (cl.isRecordAccessible c (orderV cl).writeTimestamp &&
      (orderV cl).body.O_ID == (oldest cfg cl cart).oID) &&
    (cl.isRecordAccessible c (newOrderV cl).writeTimestamp &&
      (newOrderV cl).body.NO_O_ID == (oldest cfg cl cart).oID) &&
    (List.range (oldest cfg cl cart).numOfOrderlines.toNat).all fun olNumber =>
      cl.isRecordAccessible c (orderLineV cl olNumber).writeTimestamp &&
        (orderLineV cl olNumber).body.OL_O_ID == (oldest cfg cl cart).oID

/-- The CASes on the rows of the order. -/
def rowLocks (cts : UInt32) : List Post :=
  [lockOrder cfg (orderV cl) (oldest cfg cl cart).clientWhoOrdered
      (oldest cfg cl cart).orderRegionOffset cart.wID
      (lockTimestamp (orderV cl).writeTimestamp c cts) false,
    lockNewOrder cfg (newOrderV cl) (oldest cfg cl cart).clientWhoOrdered
      (oldest cfg cl cart).newOrderRegionOffset cart.wID
      (lockTimestamp (newOrderV cl).writeTimestamp c cts) false] ++
  (List.range (oldest cfg cl cart).numOfOrderlines.toNat).map fun olNumber =>
    lockOrderLine cfg olNumber (orderLineV cl olNumber) (oldest cfg cl cart).clientWhoOrdered
      ((oldest cfg cl cart).orderLineRegionOffset + olNumber) cart.wID
      (lockTimestamp (orderLineV cl olNumber).writeTimestamp c cts) false

/-- The CASes of the write set; only the last one, on the customer, is signaled. -/
def lockPosts (cts : UInt32) : List Post :=
  rowLocks cfg c cl cart cts ++
  [lockCustomer (customerV cl) (lockTimestamp (customerV cl).writeTimestamp c cts) true]

def lockStep (cID : UInt32) : Client × CpuLabel :=
  let cts := cl.newCommitTimestamp cfg c
  (({ cl.advanceEpoch with phase := .delivery cart dID (.locks cID cts) } : Client).post
    (.delivery cart dID) (lockPosts cfg c cl cart cts), .acquire cts)

/-- The version check; for a customer head that is not accessible an older version is fetched. -/
def checkStep (cID : UInt32) : Client × CpuLabel :=
  if orderRowsConsistent cfg c cl cart then
    match fetchOlderVersion c cl (customerV cl).writeTimestamp
        ((buffers cl).pointerList .customerTS)
        fun ind ts => retrieveCustomerOlderVersion cfg cart.wID dID cID ind ts true with
    | none => next cfg cl cart dID (.ABORTED .INCONSISTENT_SNAPSHOT)
    | some [] => lockStep cfg c cl cart dID cID
    | some posts =>
      (({ cl with phase := .delivery cart dID (.olderVersion cID) } : Client).post
        (.delivery cart dID) posts, .resume)
  else next cfg cl cart dID (.ABORTED .INCONSISTENT_SNAPSHOT)

def afterCustomer (readerVector : ClientID → UInt32) (cID : UInt32) : Client × CpuLabel :=
  match cfg.SNAPSHOT_ACQUISITION_TYPE with
  | .COMPLETE => checkStep cfg c cl cart dID cID
  | .ONLY_READ_SET =>
    (acquireSnapshot cfg readerVector { cl with phase := .delivery cart dID (.snapshot cID) }
      (.delivery cart dID) (clientIDsInReadSet cfg cl cart), .resume)

def afterOlderVersion (cID : UInt32) : Client × CpuLabel :=
  if cl.isRecordAccessible c (customerV cl).writeTimestamp then lockStep cfg c cl cart dID cID
  else next cfg cl cart dID (.ABORTED .INCONSISTENT_SNAPSHOT)

def orderLocked : Bool :=
  ((buffers cl).lockRegion .order 0).isEqual (orderV cl).writeTimestamp

def newOrderLocked : Bool :=
  ((buffers cl).lockRegion .newOrder 0).isEqual (newOrderV cl).writeTimestamp

def orderLineLocked (olNumber : ℕ) : Bool :=
  ((buffers cl).lockRegion .orderLine olNumber).isEqual (orderLineV cl olNumber).writeTimestamp

def customerLocked : Bool :=
  ((buffers cl).lockRegion .customer 0).isEqual (customerV cl).writeTimestamp

def lockedOrderLines : List ℕ :=
  (List.range (oldest cfg cl cart).numOfOrderlines.toNat).filter (orderLineLocked cl)

/-- The WRITEs that release the locks that were acquired on rows of the order. -/
def rowReverts : List Post :=
  (if orderLocked cl then
    [revertOrderLock cfg (oldest cfg cl cart).clientWhoOrdered
      (oldest cfg cl cart).orderRegionOffset cart.wID (orderV cl)
      (!(newOrderLocked cl || (lockedOrderLines cfg cl cart).length != 0 || customerLocked cl))]
    else []) ++
  (if newOrderLocked cl then
    [revertNewOrderLock cfg (oldest cfg cl cart).clientWhoOrdered
      (oldest cfg cl cart).newOrderRegionOffset cart.wID (newOrderV cl)
      (!((lockedOrderLines cfg cl cart).length != 0 || customerLocked cl))]
    else []) ++
  (lockedOrderLines cfg cl cart).map fun olNumber =>
    revertOrderLineLock cfg (oldest cfg cl cart).clientWhoOrdered
      ((oldest cfg cl cart).orderLineRegionOffset + olNumber) cart.wID (orderLineV cl olNumber)
      (some olNumber == (lockedOrderLines cfg cl cart).getLast? && !customerLocked cl)

/-- The WRITEs that release the locks that were acquired; the last one posted is signaled. -/
def revertPosts : List Post :=
  rowReverts cfg cl cart ++
  (if customerLocked cl then [revertCustomerLock (customerV cl) true] else [])

/-! ## Install -/

def pushedLists : ListBuffer → List Timestamp
  | .customerTS =>
    pushPointer cfg (customerV cl).writeTimestamp ((buffers cl).pointerList .customerTS)
  | b => (buffers cl).pointerList b

def newOrderRowV (cts : UInt32) : Version Order :=
  ⟨.setAll false false (orderV cl).writeTimestamp.versionOffset c cts,
    { (orderV cl).body with O_CARRIER_ID := cart.oCarrierID }⟩

def deletedNewOrderV (cts : UInt32) : Version NewOrder :=
  ⟨(Timestamp.setAll true false (newOrderV cl).writeTimestamp.versionOffset c cts).markDeleted,
    (newOrderV cl).body⟩

def newOrderLineV (cts : UInt32) (olNumber : ℕ) : Version OrderLine :=
  ⟨.setAll false false (orderLineV cl olNumber).writeTimestamp.versionOffset c cts,
    { (orderLineV cl olNumber).body with OL_DELIVERY_D := cart.olDeliveryD }⟩

def sumOfOrderLinesAmount : Float32 :=
  (List.range (oldest cfg cl cart).numOfOrderlines.toNat).foldl
    (fun sum olNumber => sum + (orderLineV cl olNumber).body.OL_AMOUNT) 0

def newCustomerV (cts : UInt32) (amount : Float32) (v : Version Customer) : Version Customer :=
  ⟨.setAll false false v.writeTimestamp.versionOffset c cts,
    { v.body with
      C_BALANCE := v.body.C_BALANCE + amount
      C_DELIVERY_CNT := v.body.C_DELIVERY_CNT + 1 }⟩

def appendPosts : List Post :=
  [updateCustomerPointers (customerV cl) (pushedLists cfg cl .customerTS) false,
    updateCustomerOlderVersions (customerV cl) false]

def rowPosts (cts : UInt32) : List Post :=
  [insertIntoOrder cfg (oldest cfg cl cart).clientWhoOrdered
      (oldest cfg cl cart).orderRegionOffset cart.wID (newOrderRowV c cl cart cts) false,
    insertIntoNewOrder cfg c getNewOrderRID cart.wID (deletedNewOrderV c cl cts) false] ++
  (List.range (oldest cfg cl cart).numOfOrderlines.toNat).map fun olNumber =>
    insertIntoOrderLine cfg (oldest cfg cl cart).clientWhoOrdered
      ((oldest cfg cl cart).orderLineRegionOffset + olNumber) cart.wID
      (newOrderLineV c cl cart cts olNumber) false

def headPost (cts : UInt32) : Post :=
  updateCustomer (newCustomerV c cts (sumOfOrderLinesAmount cfg cl cart) (customerV cl)) true

/-- The WRITEs of the customer's list and ring, of the order rows and of the customer's head. -/
def installPosts (cts : UInt32) : List Post :=
  appendPosts cfg cl ++ rowPosts cfg c cl cart cts ++ [headPost cfg c cl cart cts]

def installedHeads (cts : UInt32) : (t : Table) → ℕ → Version (Row t)
  | .order, 0 => newOrderRowV c cl cart cts
  | .newOrder, 0 => deletedNewOrderV c cl cts
  | .orderLine, olNumber =>
    if olNumber < (oldest cfg cl cart).numOfOrderlines.toNat then
      newOrderLineV c cl cart cts olNumber
    else orderLineV cl olNumber
  | .customer, 0 => newCustomerV c cts (sumOfOrderLinesAmount cfg cl cart) (customerV cl)
  | t, i => (buffers cl).head t i

/-- From the end of the log to the poll loop of the customer's head. -/
def installStep (cts : UInt32) : Client × CpuLabel :=
  (({ cl.setLocal .delivery
        { buffers cl with
          head := installedHeads cfg c cl cart cts
          pointerList := pushedLists cfg cl } with
      phase := .delivery cart dID .install } : Client).post (.delivery cart dID)
    (installPosts cfg c cl cart cts), .resume)

def afterLocks (cID cts : UInt32) : Client × CpuLabel :=
  if orderLocked cl && newOrderLocked cl &&
      (List.range (oldest cfg cl cart).numOfOrderlines.toNat).all (orderLineLocked cl) &&
      customerLocked cl then
    let cl := { cl with localTimestampVector := Function.update cl.localTimestampVector c cts }
    if cfg.RECOVERY_ENABLED then
      (({ cl with phase := .delivery cart dID (.log cID cts) } : Client).postLog
        (.delivery cart dID) (logServers cfg c), .resume)
    else installStep cfg c cl cart dID cts
  else
    (({ cl with phase := .delivery cart dID .reverts } : Client).post (.delivery cart dID)
      (revertPosts cfg cl cart), .resume)

def afterInstall : Client × CpuLabel :=
  (({ cl with phase := .delivery cart dID .register } : Client).post (.delivery cart dID)
    [registerDelivery cfg cart.wID dID (orderV cl).body.O_ID true], .resume)

def afterRegister : Client × CpuLabel :=
  (({ cl with phase := .delivery cart dID .publish } : Client).post (.delivery cart dID)
    [submitResult c cl.localTimestampVector true], .resume)

def resume (readerVector : ClientID → UInt32) : DeliveryPC → Client × CpuLabel
  | .begin => beginStep cfg cl cart dID readerVector
  | .oldest => afterOldest cfg cl cart dID
  | .orderRows => afterOrderRows cl cart dID
  | .customer cID => afterCustomer cfg c cl cart dID readerVector cID
  | .snapshot cID => checkStep cfg c cl cart dID cID
  | .olderVersion cID => afterOlderVersion cfg c cl cart dID cID
  | .locks cID cts => afterLocks cfg c cl cart dID cID cts
  | .reverts => next cfg cl cart dID (.ABORTED .UNSUCCESSFUL_LOCK)
  | .log _ cts => installStep cfg c cl cart dID cts
  | .install => afterInstall cfg cl cart dID
  | .register => afterRegister c cl cart dID
  | .publish => next cfg cl cart dID .COMMITTED

end RdmaSnapshot.DeliveryTransaction
