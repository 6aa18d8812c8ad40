import RdmaSnapshot.NewOrderTransaction

/-!
# `PaymentTransaction::doOne`

One definition for each stretch of code between two poll loops.

Two details of the source matter later. The pointer list of the customer is read into the buffer of
the district's list, and the buffer of the customer's list is never filled by a READ: it holds what
earlier Payments of the client left in it. The field `H_W_ID` of the history buffer is never set.
-/

namespace RdmaSnapshot.PaymentTransaction

open DBExecutor

variable (cfg : Config) (c : ClientID) (cl : Client) (cart : PaymentCart)

def buffers : LocalMemory := cl.localMemory .payment

def warehouseV : Version Warehouse := (buffers cl).head .warehouse 0

def districtV : Version District := (buffers cl).head .district 0

def customerV : Version Customer := (buffers cl).head .customer 0

/-! ## Read set -/

def readSetPosts : List Post :=
  [retrieveWarehouse cart.wID false,
    retrieveWarehousePointerList cart.wID .warehouseTS false,
    retrieveDistrict cart.wID cart.dID false,
    retrieveDistrictPointerList cart.wID cart.dID .districtTS true]

def start (readerVector : ClientID → UInt32) : Client :=
  let cl := { cl with phase := .payment cart .readSet }
  let cl :=
    if cfg.SNAPSHOT_ACQUISITION_TYPE = .COMPLETE then
      getReadTimestamp cfg readerVector cl (.payment cart) true
    else cl
  cl.post (.payment cart) (readSetPosts cart)

/-- The READs of the customer; its pointer list goes to the buffer of the district's list. -/
def customerPosts (cID : UInt32) : List Post :=
  [retrieveCustomer cart.residentWarehouseID cart.dID cID false,
    retrieveCustomerPointerList cart.residentWarehouseID cart.dID cID .districtTS true]

def customerStep (cID : UInt32) : Client × CpuLabel :=
  (({ cl with phase := .payment cart (.customer cID) } : Client).post (.payment cart)
    (customerPosts cart cID), .resume)

def afterReadSet : Client × CpuLabel :=
  match cart.customerSelectionMode with
  | .LAST_NAME =>
    (({ cl with phase := .payment cart .lookup } : Client).post (.payment cart)
      [lookupCustomerByLastName cfg cart.residentWarehouseID cart.dID cart.cLastName true],
      .resume)
  | .ID => customerStep cl cart cart.cID

/-- After the answer of the index. The request went to the server of the resident warehouse; the
answer is taken from the buffer of the server of the home warehouse. -/
def afterLookup : Client × CpuLabel :=
  let resp := cl.customerNameResp (cfg.getServerNum cart.wID)
  if resp.isSuccessful then customerStep cl cart resp.cID
  else ({ cl with phase := .idle }, .finish .COMMITTED)

def clientIDsInReadSet : List ClientID :=
  [(warehouseV cl).writeTimestamp.clientID, (districtV cl).writeTimestamp.clientID,
    (customerV cl).writeTimestamp.clientID]

/-! ## Version check and locks -/

/-- The CASes of the write set; the one on the warehouse is not signaled. -/
def lockPosts (cts : UInt32) : List Post :=
  [lockWarehouse (warehouseV cl) (lockTimestamp (warehouseV cl).writeTimestamp c cts) false,
    lockDistrict (districtV cl) (lockTimestamp (districtV cl).writeTimestamp c cts) true,
    lockCustomer (customerV cl) (lockTimestamp (customerV cl).writeTimestamp c cts) true]

def checkStep (cID : UInt32) : Client × CpuLabel :=
  if cl.isRecordAccessible c (warehouseV cl).writeTimestamp &&
      cl.isRecordAccessible c (districtV cl).writeTimestamp &&
      cl.isRecordAccessible c (customerV cl).writeTimestamp then
    let cts := cl.newCommitTimestamp cfg c
    (({ cl.advanceEpoch with phase := .payment cart (.locks cID cts) } : Client).post
      (.payment cart) (lockPosts c cl cts), .acquire cts)
  else ({ cl with phase := .idle }, .finish (.ABORTED .INCONSISTENT_SNAPSHOT))

def afterCustomer (readerVector : ClientID → UInt32) (cID : UInt32) : Client × CpuLabel :=
  match cfg.SNAPSHOT_ACQUISITION_TYPE with
  | .COMPLETE => checkStep cfg c cl cart cID
  | .ONLY_READ_SET =>
    (acquireSnapshot cfg readerVector { cl with phase := .payment cart (.snapshot cID) }
      (.payment cart) (clientIDsInReadSet cl), .resume)

def warehouseLocked : Bool :=
  ((buffers cl).lockRegion .warehouse 0).isEqual (warehouseV cl).writeTimestamp

def districtLocked : Bool :=
  ((buffers cl).lockRegion .district 0).isEqual (districtV cl).writeTimestamp

def customerLocked : Bool :=
  ((buffers cl).lockRegion .customer 0).isEqual (customerV cl).writeTimestamp

def revertPosts : List Post :=
  (if warehouseLocked cl then [revertWarehouseLock (warehouseV cl) true] else []) ++
  (if districtLocked cl then [revertDistrictLock (districtV cl) true] else []) ++
  (if customerLocked cl then [revertCustomerLock (customerV cl) true] else [])

/-! ## Install -/

/-- The pointer lists after `updateWarehousePointers`, `updateDistrictPointers` and
`updateCustomerPointers`. -/
def pushedLists : ListBuffer → List Timestamp
  | .warehouseTS =>
    pushPointer cfg (warehouseV cl).writeTimestamp ((buffers cl).pointerList .warehouseTS)
  | .districtTS =>
    pushPointer cfg (districtV cl).writeTimestamp ((buffers cl).pointerList .districtTS)
  | .customerTS =>
    pushPointer cfg (customerV cl).writeTimestamp ((buffers cl).pointerList .customerTS)
  | b => (buffers cl).pointerList b

def appendPosts : List Post :=
  [updateWarehousePointers (warehouseV cl) (pushedLists cfg cl .warehouseTS) false,
    updateWarehouseOlderVersions (warehouseV cl) false,
    updateDistrictPointers (districtV cl) (pushedLists cfg cl .districtTS) false,
    updateDistrictOlderVersions (districtV cl) false,
    updateCustomerPointers (customerV cl) (pushedLists cfg cl .customerTS) false,
    updateCustomerOlderVersions (customerV cl) false]

def newWarehouseV (cts : UInt32) (v : Version Warehouse) : Version Warehouse :=
  ⟨newTimestamp cfg v.writeTimestamp c cts,
    { v.body with W_YTD := v.body.W_YTD + cart.hAmount }⟩

/-- The district version a Payment installs: the whole record it read, `D_NEXT_O_ID` included. -/
def newDistrictV (cts : UInt32) (v : Version District) : Version District :=
  ⟨newTimestamp cfg v.writeTimestamp c cts,
    { v.body with D_YTD := v.body.D_YTD + cart.hAmount }⟩

def historyText (cID : UInt32) : List UInt8 :=
  (s!"({cID.toInt32}, {cart.dID}, {cart.residentWarehouseID}, {cart.dID}, {cart.wID}, " ++
    cfg.formatAmount cart.hAmount ++ ")\n").toUTF8.toList

/-- The insertion into `C_DATA` by `memmove` and `memcpy`, on the array as a list of bytes. -/
def insertHistory (history data : List UInt8) : List UInt8 :=
  let characters := history.length
  let strlen := (data.takeWhile (· ≠ 0)).length
  let current_keep := if strlen + characters > 500 then 500 - characters else strlen
  history ++ data.take current_keep ++ 0 :: data.drop (characters + current_keep + 1)

def newCustomer (cID : UInt32) (customer : Customer) : Customer :=
  { customer with
    C_BALANCE := customer.C_BALANCE - cart.hAmount
    C_YTD_PAYMENT := customer.C_YTD_PAYMENT + cart.hAmount
    C_PAYMENT_CNT := customer.C_PAYMENT_CNT + 1
    C_DATA :=
      -- `strcmp` is not zero exactly when the credit is not bad
      if customer.C_CREDIT ≠ "BC" then insertHistory (historyText cfg cart cID) customer.C_DATA
      else customer.C_DATA }

def newCustomerV (cID cts : UInt32) (v : Version Customer) : Version Customer :=
  ⟨newTimestamp cfg v.writeTimestamp c cts, newCustomer cfg cart cID v.body⟩

/-- The history row. `H_C_ID` is set twice, the second time to `wID`; `H_W_ID` is whatever the
buffer held. -/
def newHistoryV (cts : UInt32) : Version History where
  writeTimestamp := .setAll false false 0 c cts
  body :=
    { H_C_ID := cart.wID.toUInt32, H_C_D_ID := cart.dID, H_C_W_ID := cart.residentWarehouseID,
      H_D_ID := cart.dID, H_W_ID := ((buffers cl).head .history 0).body.H_W_ID,
      H_AMOUNT := cart.hAmount,
      H_DATA := (warehouseV cl).body.W_NAME ++ "    " ++ (districtV cl).body.D_NAME }

/-- The WRITEs of the three heads and of the history row, the only signaled one. -/
def installPosts (cID cts : UInt32) : List Post :=
  [updateWarehouse (newWarehouseV cfg c cart cts (warehouseV cl)) false,
    updateDistrict (newDistrictV cfg c cart cts (districtV cl)) false,
    updateCustomer (newCustomerV cfg c cart cID cts (customerV cl)) false,
    insertIntoHistory cfg c cl.nextHistoryID (newHistoryV c cl cart cts) true]

/-- The buffers once the lists were shifted and the new versions built in them. -/
def installed (cID cts : UInt32) : LocalMemory :=
  let m : LocalMemory := { buffers cl with pointerList := pushedLists cfg cl }
  (((m.setHead .warehouse 0 (newWarehouseV cfg c cart cts (warehouseV cl))).setHead .district 0
    (newDistrictV cfg c cart cts (districtV cl))).setHead .customer 0
      (newCustomerV cfg c cart cID cts (customerV cl))).setHead .history 0
        (newHistoryV c cl cart cts)

def installStep (cID cts : UInt32) : Client × CpuLabel :=
  (({ cl.setLocal .payment (installed cfg c cl cart cID cts) with
      phase := .payment cart .install } : Client).post (.payment cart)
    (appendPosts cfg cl ++ installPosts cfg c cl cart cID cts), .resume)

def afterLocks (cID cts : UInt32) : Client × CpuLabel :=
  if warehouseLocked cl && districtLocked cl && customerLocked cl then
    let cl := { cl with localTimestampVector := Function.update cl.localTimestampVector c cts }
    if cfg.RECOVERY_ENABLED then
      (({ cl with phase := .payment cart (.log cID cts) } : Client).postLog (.payment cart)
        (logServers cfg c), .resume)
    else installStep cfg c cl cart cID cts
  else
    (({ cl with phase := .payment cart .reverts } : Client).post (.payment cart)
      (revertPosts cl), .resume)

def afterInstall : Client × CpuLabel :=
  (({ cl with
      nextHistoryID := (cl.nextHistoryID + 1) % cfg.HISTORY_BUFFER_PER_CLIENT
      phase := .payment cart .publish } : Client).post (.payment cart)
    [submitResult c cl.localTimestampVector true], .resume)

def resume (readerVector : ClientID → UInt32) : PaymentPC → Client × CpuLabel
  | .readSet => afterReadSet cfg cl cart
  | .lookup => afterLookup cfg cl cart
  | .customer cID => afterCustomer cfg c cl cart readerVector cID
  | .snapshot cID => checkStep cfg c cl cart cID
  | .locks cID cts => afterLocks cfg c cl cart cID cts
  | .reverts => ({ cl with phase := .idle }, .finish (.ABORTED .UNSUCCESSFUL_LOCK))
  | .log cID cts => installStep cfg c cl cart cID cts
  | .install => afterInstall cfg c cl cart
  | .publish => ({ cl with phase := .idle }, .finish .COMMITTED)

end RdmaSnapshot.PaymentTransaction
