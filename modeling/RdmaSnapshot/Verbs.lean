import RdmaSnapshot.Tables

/-!
# Configuration, carts and work requests

What a client can ask of the network interface: one-sided verbs on the servers' memory and on the
oracle's vector, and messages to the index of a server. A work request is posted on the queue pair
of one server or of the oracle; requests on one queue pair take effect in posting order, and only
signaled requests leave a completion.

A `WRITE` carries the bytes its source buffer held when it was posted, so the verb holds the
value it writes.
-/

namespace RdmaSnapshot

inductive SnapshotAcquisitionType
  | COMPLETE | ONLY_READ_SET
  deriving DecidableEq

/-- The compile-time configuration, the number of clients and the placement of clients in
groups. -/
structure Config where
  VERSION_NUM : ℕ
  SERVER_CNT : ℕ
  WAREHOUSE_PER_SERVER : ℕ
  DISTRICT_PER_WAREHOUSE : ℕ
  ORDER_BUFFER_PER_CLIENT : ℕ
  HISTORY_BUFFER_PER_CLIENT : ℕ
  ORDER_MAX_OL_CNT : ℕ
  LOG_REPLICATION_DEGREE : ℕ
  SNAPSHOT_ACQUISITION_TYPE : SnapshotAcquisitionType
  SNAPSHOT_CLUSTER_MODE : Bool
  APPLY_COMMUTATIVE_UPDATES : Bool
  RECOVERY_ENABLED : Bool
  clientCnt : ℕ
  /-- The `ClientGroup`, and so the `OracleReader`, a client belongs to. -/
  instanceNum : ClientID → ℕ
  /-- What `printf` prints for `%.2f`. -/
  formatAmount : Float32 → String
  /-- `false` is the code: an older version is fetched from the ring slot whose number is the
  index of the selected list entry. `true` idealises the fetch: it returns the version whose
  timestamp is that entry. -/
  idealOlderVersions : Bool

def Config.getServerNum (cfg : Config) (wID : UInt16) : ℕ := wID.toNat / cfg.WAREHOUSE_PER_SERVER

def Config.getWarehouseOffsetOnServer (cfg : Config) (wID : UInt16) : UInt16 :=
  UInt16.ofNat (wID.toNat - cfg.getServerNum wID * cfg.WAREHOUSE_PER_SERVER)

structure NewOrderItem where
  I_ID : UInt32
  OL_SUPPLY_W_ID : UInt16
  OL_QUANTITY : UInt8

/-- `NewOrderCart`; `buildCart` puts at least `ORDER_MIN_OL_CNT` items in it, whose ids it takes
from a `std::set`. -/
structure NewOrderCart where
  wID : UInt16
  dID : UInt8
  cID : UInt32
  items : List NewOrderItem
  items_ne_nil : items ≠ []
  items_nodup : (items.map (·.I_ID)).Nodup

inductive CustomerSelectionMode
  | LAST_NAME | ID
  deriving DecidableEq

structure PaymentCart where
  wID : UInt16
  dID : UInt8
  residentWarehouseID : UInt16
  customerSelectionMode : CustomerSelectionMode
  cLastName : String
  cID : UInt32
  hAmount : Float32

structure DeliveryCart where
  wID : UInt16
  oCarrierID : UInt8
  olDeliveryD : Int
  deriving DecidableEq

/-- What a client executes: a NewOrder, a Payment, or the iteration of a Delivery for one
district, which is a transaction of its own. -/
inductive Trx
  | newOrder (cart : NewOrderCart)
  | payment (cart : PaymentCart)
  | delivery (cart : DeliveryCart) (dID : UInt8)

/-- The transaction objects of a client; each owns its local buffers. -/
inductive TrxClass
  | newOrder | payment | delivery
  deriving DecidableEq

/-- The object that executes a transaction. -/
def Trx.cls : Trx → TrxClass
  | .newOrder _ => .newOrder
  | .payment _ => .payment
  | .delivery _ _ => .delivery

/-- A transaction of a client: its number `t` among the transactions of the client and what it
executes. -/
structure Owner where
  t : ℕ
  trx : Trx

/-- The local buffers a pointer list is read into. -/
inductive ListBuffer
  | warehouseTS | districtTS | customerTS | stockTS (olNumber : ℕ)
  deriving DecidableEq

/-- The messages to the index of a server (`IndexRequestMessage`). -/
inductive IndexRequest
  | lookupCustomerByLastName (wID : UInt16) (dID : UInt8) (cLastName : String)
  | registerOrder (wID : UInt16) (dID : UInt8) (cID oID : UInt32) (orderRegionOffset
      newOrderRegionOffset orderLineRegionOffset : ℕ) (numOfOrderlines : UInt8)
  | getOldestUndeliveredOrder (wID : UInt16) (dID : UInt8)
  | registerDelivery (wID : UInt16) (dID : UInt8) (oID : UInt32)

def IndexRequest.registers : IndexRequest → Bool
  | .registerOrder .. | .registerDelivery .. => true
  | .lookupCustomerByLastName .. | .getOldestUndeliveredOrder .. => false

structure CustomerNameIndexRespMsg where
  isSuccessful : Bool
  cID : UInt32

structure OldestUndeliveredOrderIndexResMsg where
  isSuccessful : Bool
  existUndeliveredOrder : Bool
  oID : UInt32
  clientWhoOrdered : ClientID
  orderRegionOffset : ℕ
  newOrderRegionOffset : ℕ
  orderLineRegionOffset : ℕ
  numOfOrderlines : UInt8
  deriving DecidableEq

/-- The queue pairs of a client: one to every server, one to the oracle. -/
inductive QueuePair
  | server (serverNum : ℕ)
  | oracle
  deriving DecidableEq

/-- A verb together with its remote address, the local buffer it fills and the bytes it carries. -/
inductive Verb
  /-- READ of a head version into entry `buf` of the head buffer of its table. -/
  | readHead (k : Key) (buf : ℕ)
  /-- READ of a pointer list. -/
  | readPointerList (k : Key) (buf : ListBuffer)
  /-- READ of a slot of the ring of older versions into the head buffer. -/
  | readOlderVersion (k : Key) (slot : ℕ)
  /-- The idealised fetch of the version with a given timestamp. -/
  | readVersion (k : Key) (ts : Timestamp)
  /-- One READ of `count` consecutive rows of the OrderLine table. -/
  | readOrderLines (serverNum tableIndex count : ℕ)
  /-- CAS on the timestamp word of a head; the prior word lands in entry `buf` of the lock
  region. -/
  | compareAndSwap (k : Key) (oldTS newTS : Timestamp) (buf : ℕ)
  /-- FAA of one on `D_NEXT_O_ID`. -/
  | fetchAndAdd (wID : UInt16) (dID : UInt8)
  /-- WRITE of the timestamp word of a head. -/
  | writeTimestamp (k : Key) (ts : Timestamp)
  /-- WRITE of a pointer list. -/
  | writePointerList (k : Key) (tsList : List Timestamp)
  /-- WRITE of a slot of the ring of older versions. -/
  | writeOlderVersion (k : Key) (slot : ℕ) (v : Version (Row k.table))
  /-- WRITE of a whole head version. -/
  | writeHead (k : Key) (v : Version (Row k.table))
  /-- READ of the whole `lastCommittedVector`. -/
  | readVector
  /-- READ of one entry of `lastCommittedVector`. -/
  | readVectorEntry (clientID : ClientID)
  /-- WRITE of one entry of `lastCommittedVector`. -/
  | writeVectorEntry (clientID : ClientID) (ts : UInt32)
  /-- WRITE of a log record into the journal of a log server. -/
  | writeLog (serverNum : ℕ)
  /-- SEND of an index request. -/
  | send (serverNum : ℕ) (req : IndexRequest)

def Config.serverOf (cfg : Config) : Key → ℕ
  | .warehouse wID | .district wID _ | .customer wID _ _ | .stock wID _ => cfg.getServerNum wID
  | .item s _ | .order s _ | .newOrder s _ | .orderLine s _ | .history s _ => s

def Verb.qp (cfg : Config) : Verb → QueuePair
  | readHead k _ | readPointerList k _ | readOlderVersion k _ | readVersion k _
  | compareAndSwap k _ _ _ | writeTimestamp k _ | writePointerList k _ | writeOlderVersion k _ _
  | writeHead k _ => .server (cfg.serverOf k)
  | readOrderLines s _ _ | writeLog s | send s _ => .server s
  | fetchAndAdd wID _ => .server (cfg.getServerNum wID)
  | readVector | readVectorEntry _ | writeVectorEntry _ _ => .oracle

structure Post where
  verb : Verb
  signaled : Bool

/-- A posted verb; the transaction that posted it is recorded for the properties stated later. -/
structure WorkRequest where
  owner : Owner
  verb : Verb
  signaled : Bool

end RdmaSnapshot
