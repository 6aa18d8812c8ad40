import RdmaSnapshot.Client

/-!
# `DBExecutor`

The functions through which transactions post verbs. Those of one kind differ in the record they
address and in the buffer they use: the address is either an argument or is taken from the key
fields of a row in a local buffer.
-/

namespace RdmaSnapshot.DBExecutor

/-! ## The kinds of posts -/

/-- The loop that shifts a pointer list one place to the right, dropping its last entry, from
index `n - 1` down to `0`. -/
def shiftRight : ℕ → List Timestamp → List Timestamp
  | 0, versionArray => versionArray
  | n + 1, versionArray => shiftRight n (versionArray.set (n + 1) (versionArray.getD n .empty))

/-- The common part of the `update…Pointers` functions: shift, then put the replaced head in
front. -/
def pushPointer (cfg : Config) (oldHead : Timestamp) (versionArray : List Timestamp) :
    List Timestamp :=
  (shiftRight (cfg.VERSION_NUM - 1) versionArray).set 0 oldHead

/-- READ of the version selected by `findValidVersion`: list entry `ind`, whose timestamp is
`ts`. -/
def retrieveOlderVersion (cfg : Config) (k : Key) (ind : ℕ) (ts : Timestamp) (signaled : Bool) :
    Post :=
  if cfg.idealOlderVersions then ⟨.readVersion k ts, signaled⟩
  else ⟨.readOlderVersion k ind, signaled⟩

/-- CAS of a head from the word in a local buffer to `newTS`. -/
def lock (k : Key) (oldTS newTS : Timestamp) (buf : ℕ) (signaled : Bool) : Post :=
  ⟨.compareAndSwap k oldTS newTS buf, signaled⟩

/-- WRITE of the replaced head into the ring slot named by its own timestamp. -/
def updateOlderVersions (k : Key) (oldHead : Version (Row k.table)) (signaled : Bool) : Post :=
  ⟨.writeOlderVersion k oldHead.writeTimestamp.versionOffset.toNat oldHead, signaled⟩

/-! ## Warehouse -/

def retrieveWarehouse (wID : UInt16) (signaled : Bool) : Post :=
  ⟨.readHead (.warehouse wID) 0, signaled⟩

def retrieveWarehousePointerList (wID : UInt16) (buf : ListBuffer) (signaled : Bool) : Post :=
  ⟨.readPointerList (.warehouse wID) buf, signaled⟩

def retrieveWarehouseOlderVersion (cfg : Config) (wID : UInt16) (ind : ℕ) (ts : Timestamp)
    (signaled : Bool) : Post :=
  retrieveOlderVersion cfg (.warehouse wID) ind ts signaled

def lockWarehouse (warehouseV : Version Warehouse) (newTS : Timestamp) (signaled : Bool) : Post :=
  lock (.warehouse warehouseV.body.W_ID) warehouseV.writeTimestamp newTS 0 signaled

def revertWarehouseLock (warehouseV : Version Warehouse) (signaled : Bool) : Post :=
  ⟨.writeTimestamp (.warehouse warehouseV.body.W_ID) warehouseV.writeTimestamp, signaled⟩

def updateWarehousePointers (oldHead : Version Warehouse) (versionArray : List Timestamp)
    (signaled : Bool) : Post :=
  ⟨.writePointerList (.warehouse oldHead.body.W_ID) versionArray, signaled⟩

def updateWarehouseOlderVersions (oldHead : Version Warehouse) (signaled : Bool) : Post :=
  updateOlderVersions (.warehouse oldHead.body.W_ID) oldHead signaled

def updateWarehouse (warehouseV : Version Warehouse) (signaled : Bool) : Post :=
  ⟨.writeHead (.warehouse warehouseV.body.W_ID) warehouseV, signaled⟩

/-! ## District -/

def retrieveDistrict (wID : UInt16) (dID : UInt8) (signaled : Bool) : Post :=
  ⟨.readHead (.district wID dID) 0, signaled⟩

def retrieveDistrictPointerList (wID : UInt16) (dID : UInt8) (buf : ListBuffer)
    (signaled : Bool) : Post :=
  ⟨.readPointerList (.district wID dID) buf, signaled⟩

def retrieveDistrictOlderVersion (cfg : Config) (wID : UInt16) (dID : UInt8) (ind : ℕ)
    (ts : Timestamp) (signaled : Bool) : Post :=
  retrieveOlderVersion cfg (.district wID dID) ind ts signaled

def retrieveAndIncrementDistrictNextOID (wID : UInt16) (dID : UInt8) (signaled : Bool) : Post :=
  ⟨.fetchAndAdd wID dID, signaled⟩

def lockDistrict (districtV : Version District) (newTS : Timestamp) (signaled : Bool) : Post :=
  lock (.district districtV.body.D_W_ID districtV.body.D_ID) districtV.writeTimestamp newTS 0
    signaled

def revertDistrictLock (districtV : Version District) (signaled : Bool) : Post :=
  ⟨.writeTimestamp (.district districtV.body.D_W_ID districtV.body.D_ID)
    districtV.writeTimestamp, signaled⟩

def updateDistrictPointers (oldHead : Version District) (versionArray : List Timestamp)
    (signaled : Bool) : Post :=
  ⟨.writePointerList (.district oldHead.body.D_W_ID oldHead.body.D_ID) versionArray, signaled⟩

def updateDistrictOlderVersions (oldHead : Version District) (signaled : Bool) : Post :=
  updateOlderVersions (.district oldHead.body.D_W_ID oldHead.body.D_ID) oldHead signaled

def updateDistrict (districtV : Version District) (signaled : Bool) : Post :=
  ⟨.writeHead (.district districtV.body.D_W_ID districtV.body.D_ID) districtV, signaled⟩

/-! ## Customer -/

def retrieveCustomer (wID : UInt16) (dID : UInt8) (cID : UInt32) (signaled : Bool) : Post :=
  ⟨.readHead (.customer wID dID cID) 0, signaled⟩

def retrieveCustomerPointerList (wID : UInt16) (dID : UInt8) (cID : UInt32) (buf : ListBuffer)
    (signaled : Bool) : Post :=
  ⟨.readPointerList (.customer wID dID cID) buf, signaled⟩

def retrieveCustomerOlderVersion (cfg : Config) (wID : UInt16) (dID : UInt8) (cID : UInt32)
    (ind : ℕ) (ts : Timestamp) (signaled : Bool) : Post :=
  retrieveOlderVersion cfg (.customer wID dID cID) ind ts signaled

def customerKey (customer : Customer) : Key :=
  .customer customer.C_W_ID customer.C_D_ID customer.C_ID

def lockCustomer (customerV : Version Customer) (newTS : Timestamp) (signaled : Bool) : Post :=
  lock (customerKey customerV.body) customerV.writeTimestamp newTS 0 signaled

def revertCustomerLock (customerV : Version Customer) (signaled : Bool) : Post :=
  ⟨.writeTimestamp (customerKey customerV.body) customerV.writeTimestamp, signaled⟩

def updateCustomerPointers (oldHead : Version Customer) (versionArray : List Timestamp)
    (signaled : Bool) : Post :=
  ⟨.writePointerList (customerKey oldHead.body) versionArray, signaled⟩

def updateCustomerOlderVersions (oldHead : Version Customer) (signaled : Bool) : Post :=
  updateOlderVersions (customerKey oldHead.body) oldHead signaled

def updateCustomer (customerV : Version Customer) (signaled : Bool) : Post :=
  ⟨.writeHead (customerKey customerV.body) customerV, signaled⟩

/-! ## Item and Stock -/

def retrieveItem (cfg : Config) (olNumber : ℕ) (iID : UInt32) (wID : UInt16) (signaled : Bool) :
    Post :=
  ⟨.readHead (.item (cfg.getServerNum wID) iID) olNumber, signaled⟩

def retrieveStock (olNumber : ℕ) (iID : UInt32) (wID : UInt16) (signaled : Bool) : Post :=
  ⟨.readHead (.stock wID iID) olNumber, signaled⟩

def retrieveStockPointerList (olNumber : ℕ) (iID : UInt32) (wID : UInt16) (signaled : Bool) :
    Post :=
  ⟨.readPointerList (.stock wID iID) (.stockTS olNumber), signaled⟩

def lockStock (olNumber : ℕ) (iID : UInt32) (wID : UInt16) (oldTS newTS : Timestamp)
    (signaled : Bool) : Post :=
  lock (.stock wID iID) oldTS newTS olNumber signaled

def revertStockLock (iID : UInt32) (wID : UInt16) (stockV : Version Stock) (signaled : Bool) :
    Post :=
  ⟨.writeTimestamp (.stock wID iID) stockV.writeTimestamp, signaled⟩

def updateStockPointers (oldHead : Version Stock) (wID : UInt16) (versionArray : List Timestamp)
    (signaled : Bool) : Post :=
  ⟨.writePointerList (.stock wID oldHead.body.S_I_ID) versionArray, signaled⟩

def updateStockOlderVersions (oldHead : Version Stock) (wID : UInt16) (signaled : Bool) : Post :=
  updateOlderVersions (.stock wID oldHead.body.S_I_ID) oldHead signaled

def updateStock (stockV : Version Stock) (wID : UInt16) (signaled : Bool) : Post :=
  ⟨.writeHead (.stock wID stockV.body.S_I_ID) stockV, signaled⟩

/-! ## Order, NewOrder, OrderLine and History

A row is found at an offset in the slice of a client, on the server of a warehouse. -/

def orderKey (cfg : Config) (clientID : ClientID) (clientRegionOffset : ℕ) (wID : UInt16) : Key :=
  .order (cfg.getServerNum wID)
    (clientID.toNat * cfg.ORDER_BUFFER_PER_CLIENT + clientRegionOffset)

def newOrderKey (cfg : Config) (clientID : ClientID) (clientRegionOffset : ℕ) (wID : UInt16) :
    Key :=
  .newOrder (cfg.getServerNum wID)
    (clientID.toNat * cfg.ORDER_BUFFER_PER_CLIENT + clientRegionOffset)

def orderLineIndex (cfg : Config) (clientID : ClientID) (clientRegionOffset : ℕ) : ℕ :=
  clientID.toNat * cfg.ORDER_BUFFER_PER_CLIENT * cfg.ORDER_MAX_OL_CNT + clientRegionOffset

def orderLineKey (cfg : Config) (clientID : ClientID) (clientRegionOffset : ℕ) (wID : UInt16) :
    Key :=
  .orderLine (cfg.getServerNum wID) (orderLineIndex cfg clientID clientRegionOffset)

/-- The server of a History row is that of the `H_W_ID` in the local buffer. -/
def historyKey (cfg : Config) (clientID : ClientID) (hID : ℕ) (history : History) : Key :=
  .history (cfg.getServerNum history.H_W_ID)
    (clientID.toNat * cfg.HISTORY_BUFFER_PER_CLIENT + hID)

def retrieveOrder (cfg : Config) (clientID : ClientID) (clientRegionOffset : ℕ) (wID : UInt16)
    (signaled : Bool) : Post :=
  ⟨.readHead (orderKey cfg clientID clientRegionOffset wID) 0, signaled⟩

def insertIntoOrder (cfg : Config) (clientID : ClientID) (clientRegionOffset : ℕ) (wID : UInt16)
    (orderV : Version Order) (signaled : Bool) : Post :=
  ⟨.writeHead (orderKey cfg clientID clientRegionOffset wID) orderV, signaled⟩

def lockOrder (cfg : Config) (orderV : Version Order) (clientID : ClientID)
    (clientRegionOffset : ℕ) (wID : UInt16) (newTS : Timestamp) (signaled : Bool) : Post :=
  lock (orderKey cfg clientID clientRegionOffset wID) orderV.writeTimestamp newTS 0 signaled

def revertOrderLock (cfg : Config) (clientID : ClientID) (clientRegionOffset : ℕ) (wID : UInt16)
    (orderV : Version Order) (signaled : Bool) : Post :=
  ⟨.writeTimestamp (orderKey cfg clientID clientRegionOffset wID) orderV.writeTimestamp,
    signaled⟩

def retrieveNewOrder (cfg : Config) (clientID : ClientID) (clientRegionOffset : ℕ) (wID : UInt16)
    (signaled : Bool) : Post :=
  ⟨.readHead (newOrderKey cfg clientID clientRegionOffset wID) 0, signaled⟩

def insertIntoNewOrder (cfg : Config) (clientID : ClientID) (clientRegionOffset : ℕ)
    (wID : UInt16) (newOrderV : Version NewOrder) (signaled : Bool) : Post :=
  ⟨.writeHead (newOrderKey cfg clientID clientRegionOffset wID) newOrderV, signaled⟩

def lockNewOrder (cfg : Config) (newOrderV : Version NewOrder) (clientID : ClientID)
    (clientRegionOffset : ℕ) (wID : UInt16) (newTS : Timestamp) (signaled : Bool) : Post :=
  lock (newOrderKey cfg clientID clientRegionOffset wID) newOrderV.writeTimestamp newTS 0 signaled

def revertNewOrderLock (cfg : Config) (clientID : ClientID) (clientRegionOffset : ℕ)
    (wID : UInt16) (newOrderV : Version NewOrder) (signaled : Bool) : Post :=
  ⟨.writeTimestamp (newOrderKey cfg clientID clientRegionOffset wID) newOrderV.writeTimestamp,
    signaled⟩

def insertIntoOrderLine (cfg : Config) (clientID : ClientID) (clientRegionOffset : ℕ)
    (wID : UInt16) (orderLineV : Version OrderLine) (signaled : Bool) : Post :=
  ⟨.writeHead (orderLineKey cfg clientID clientRegionOffset wID) orderLineV, signaled⟩

def retrieveOrderLines (cfg : Config) (clientID : ClientID) (wID : UInt16)
    (clientRegionOffset : ℕ) (numOfOrderlines : UInt8) (signaled : Bool) : Post :=
  ⟨.readOrderLines (cfg.getServerNum wID) (orderLineIndex cfg clientID clientRegionOffset)
    numOfOrderlines.toNat, signaled⟩

def lockOrderLine (cfg : Config) (olNumber : ℕ) (orderLineV : Version OrderLine)
    (clientID : ClientID) (clientRegionOffset : ℕ) (wID : UInt16) (newTS : Timestamp)
    (signaled : Bool) : Post :=
  lock (orderLineKey cfg clientID clientRegionOffset wID) orderLineV.writeTimestamp newTS olNumber
    signaled

def revertOrderLineLock (cfg : Config) (clientID : ClientID) (clientRegionOffset : ℕ)
    (wID : UInt16) (orderLineV : Version OrderLine) (signaled : Bool) : Post :=
  ⟨.writeTimestamp (orderLineKey cfg clientID clientRegionOffset wID) orderLineV.writeTimestamp,
    signaled⟩

def insertIntoHistory (cfg : Config) (clientID : ClientID) (hID : ℕ) (historyV : Version History)
    (signaled : Bool) : Post :=
  ⟨.writeHead (historyKey cfg clientID hID historyV.body) historyV, signaled⟩

/-! ## The oracle and the index -/

/-- `getReadTimestamp`: in cluster mode a copy of the vector held by the `OracleReader`, else a
READ of the oracle's vector. -/
def getReadTimestamp (cfg : Config) (readerVector : ClientID → UInt32) (cl : Client) (trx : Trx)
    (signaled : Bool) : Client :=
  if cfg.SNAPSHOT_CLUSTER_MODE then { cl with localTimestampVector := readerVector }
  else cl.post trx [⟨.readVector, signaled⟩]

def getPartialSnapshot : List ClientID → Bool → List Post
  | [], _ => []
  | [c], signaled => [⟨.readVectorEntry c, signaled⟩]
  | c :: cs, signaled => ⟨.readVectorEntry c, false⟩ :: getPartialSnapshot cs signaled

def submitResult (clientID : ClientID) (localTimestampVector : ClientID → UInt32)
    (signaled : Bool) : Post :=
  ⟨.writeVectorEntry clientID (localTimestampVector clientID), signaled⟩

def lookupCustomerByLastName (cfg : Config) (wID : UInt16) (dID : UInt8) (cLastName : String)
    (signaled : Bool) : Post :=
  ⟨.send (cfg.getServerNum wID) (.lookupCustomerByLastName wID dID cLastName), signaled⟩

def registerOrder (cfg : Config) (wID : UInt16) (dID : UInt8) (cID oID : UInt32)
    (orderRegionOffset newOrderRegionOffset orderLineRegionOffset : ℕ) (numOfOrderlines : UInt8)
    (signaled : Bool) : Post :=
  ⟨.send (cfg.getServerNum wID) (.registerOrder wID dID cID oID orderRegionOffset
    newOrderRegionOffset orderLineRegionOffset numOfOrderlines), signaled⟩

def getOldestUndeliveredOrder (cfg : Config) (wID : UInt16) (dID : UInt8) (signaled : Bool) :
    Post :=
  ⟨.send (cfg.getServerNum wID) (.getOldestUndeliveredOrder wID dID), signaled⟩

def registerDelivery (cfg : Config) (wID : UInt16) (dID : UInt8) (oID : UInt32)
    (signaled : Bool) : Post :=
  ⟨.send (cfg.getServerNum wID) (.registerDelivery wID dID oID), signaled⟩

/-- The log servers of a client, as `TPCCClient` hands them to its `RecoveryClient`. -/
def logServers (cfg : Config) (c : ClientID) : List ℕ :=
  (List.range cfg.LOG_REPLICATION_DEGREE).map fun i =>
    (c.toNat % cfg.SERVER_CNT + i) % cfg.SERVER_CNT

end RdmaSnapshot.DBExecutor
