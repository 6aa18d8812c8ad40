import RdmaSnapshot.Verbs

/-!
# The state of a client

The local buffers of its transaction objects, its session and row counters, the queue of posted
work requests and the point of `doOne` at which it waits. Between two calls of
`synchronizeSendEvents` a client only computes on its own buffers and posts work requests, so the
program counter of a transaction is the poll loop it is waiting in.
-/

namespace RdmaSnapshot

/-- The RDMA regions of a transaction object: heads, pointer lists and results of atomic verbs. -/
structure LocalMemory where
  head : (t : Table) → ℕ → Version (Row t)
  pointerList : ListBuffer → List Timestamp
  lockRegion : Table → ℕ → Timestamp

namespace LocalMemory

def setHead (m : LocalMemory) (t : Table) (i : ℕ) (v : Version (Row t)) : LocalMemory :=
  { m with head := Function.update m.head t (Function.update (m.head t) i v) }

def setPointerList (m : LocalMemory) (b : ListBuffer) (l : List Timestamp) : LocalMemory :=
  { m with pointerList := Function.update m.pointerList b l }

def setLock (m : LocalMemory) (t : Table) (i : ℕ) (ts : Timestamp) : LocalMemory :=
  { m with lockRegion := Function.update m.lockRegion t (Function.update (m.lockRegion t) i ts) }

end LocalMemory

/-- The poll loops of `NewOrderTransaction::doOne`, in the order of the text. -/
inductive NewOrderPC
  | readSet
  | snapshot
  | olderVersions (abortFlag : Bool)
  | locks (cts : UInt32)
  | reverts
  | log (cts : UInt32)
  | nextOID (cts : UInt32)
  | install (cts assignedOID : UInt32)
  | register
  | publish

/-- The poll loops of `PaymentTransaction::doOne`; `cID` is `cart_.cID`, which the index answer
overwrites. -/
inductive PaymentPC
  | readSet
  | lookup
  | customer (cID : UInt32)
  | snapshot (cID : UInt32)
  | locks (cID cts : UInt32)
  | reverts
  | log (cID cts : UInt32)
  | install
  | publish

/-- The poll loops of one iteration of `DeliveryTransaction::doOne`; `begin` is the head of the
loop over districts and `cID` the variable that holds the customer of the order. -/
inductive DeliveryPC
  | begin
  | oldest
  | orderRows
  | customer (cID : UInt32)
  | snapshot (cID : UInt32)
  | olderVersion (cID : UInt32)
  | locks (cID cts : UInt32)
  | reverts
  | log (cID cts : UInt32)
  | install
  | register
  | publish

/-- The transaction in execution and the poll loop it waits in. -/
inductive Phase
  | idle
  | newOrder (cart : NewOrderCart) (pc : NewOrderPC)
  | payment (cart : PaymentCart) (pc : PaymentPC)
  | delivery (cart : DeliveryCart) (dID : UInt8) (pc : DeliveryPC)

/-- The poll loop at the end of `RecoveryClient::writeCommandToLog`. -/
def Phase.isLog : Phase → Bool
  | .newOrder _ (.log _) | .payment _ (.log _ _) | .delivery _ _ (.log _ _) => true
  | _ => false

/-- The state of one client: `TPCCClient` with its `SessionState`, `DBExecutor` and transaction
objects. `DeliveryTransaction` never advances the row counters it inherits, so only those of the
`NewOrderTransaction` and `PaymentTransaction` objects are kept. -/
structure Client where
  nextEpoch : UInt32
  /-- The transactions started so far; every iteration of a Delivery is one. -/
  t : ℕ
  localTimestampVector : ClientID → UInt32
  localMemory : TrxClass → LocalMemory
  nextOrderID : ℕ
  nextNewOrderID : ℕ
  nextOrderLineID : ℕ
  nextHistoryID : ℕ
  customerNameResp : ℕ → CustomerNameIndexRespMsg
  oldestUndeliveredOrderResp : ℕ → OldestUndeliveredOrderIndexResMsg
  outstanding : List WorkRequest
  /-- Completions in the send queue that were not polled yet. -/
  sendCQ : ℕ
  outstandingSendCompletionCnt : ℕ
  phase : Phase

namespace BaseTransaction

def isRecordAccessible (c : ClientID) (localTimestampVector : ClientID → UInt32)
    (ts : Timestamp) : Bool :=
  if ts.isLocked then false
  else if ts.isDeleted then false
  else if ts.clientID = c then true
  else if ts.timestamp > localTimestampVector ts.clientID then false
  else true

theorem isRecordAccessible_iff {c : ClientID} {localTimestampVector : ClientID → UInt32}
    {ts : Timestamp} : isRecordAccessible c localTimestampVector ts = true ↔
      ts.isLocked = false ∧ ts.isDeleted = false ∧
        (ts.clientID = c ∨ ¬ ts.timestamp > localTimestampVector ts.clientID) := by
  simp only [isRecordAccessible]
  cases ts.isLocked <;> cases ts.isDeleted <;> simp [Decidable.or_iff_not_imp_left]

/-- The first visible entry; `none` is the result `-1`. -/
def findValidVersion (c : ClientID) (localTimestampVector : ClientID → UInt32)
    (timestampList : List Timestamp) : Option ℕ :=
  timestampList.findIdx? (isRecordAccessible c localTimestampVector)

end BaseTransaction

namespace Client

def setLocal (cl : Client) (cls : TrxClass) (m : LocalMemory) : Client :=
  { cl with localMemory := Function.update cl.localMemory cls m }

/-- Posts work requests in order; a signaled one is counted. -/
def post (cl : Client) (trx : Trx) (posts : List Post) : Client :=
  { cl with
    outstanding := cl.outstanding ++ posts.map fun p => ⟨⟨cl.t, trx⟩, p.verb, p.signaled⟩
    outstandingSendCompletionCnt :=
      cl.outstandingSendCompletionCnt + (posts.filter (·.signaled)).length }

/-- `RecoveryClient::writeCommandToLog` up to its poll loop: its requests are signaled but not
counted by `DBExecutor`. -/
def postLog (cl : Client) (trx : Trx) (servers : List ℕ) : Client :=
  { cl with
    outstanding := cl.outstanding ++ servers.map fun s => ⟨⟨cl.t, trx⟩, .writeLog s, true⟩ }

/-- The number of completions the current poll loop takes. -/
def pollCnt (cfg : Config) (cl : Client) : ℕ :=
  if cl.phase.isLog then cfg.LOG_REPLICATION_DEGREE else cl.outstandingSendCompletionCnt

/-- The poll loop of `synchronizeSendEvents`, or of `writeCommandToLog`, runs to its end. -/
def poll (cfg : Config) (cl : Client) : Client :=
  { cl with
    sendCQ := cl.sendCQ - cl.pollCnt cfg
    outstandingSendCompletionCnt := if cl.phase.isLog then cl.outstandingSendCompletionCnt else 0 }

def isRecordAccessible (c : ClientID) (cl : Client) (ts : Timestamp) : Bool :=
  BaseTransaction.isRecordAccessible c cl.localTimestampVector ts

def findValidVersion (c : ClientID) (cl : Client) (timestampList : List Timestamp) : Option ℕ :=
  BaseTransaction.findValidVersion c cl.localTimestampVector timestampList

def newCommitTimestamp (cfg : Config) (c : ClientID) (cl : Client) : UInt32 :=
  UInt32.ofNat (cl.nextEpoch.toNat * cfg.clientCnt + c.toNat)

def advanceEpoch (cl : Client) : Client := { cl with nextEpoch := cl.nextEpoch + 1 }

end Client

inductive AbortReason
  | INCONSISTENT_SNAPSHOT | UNSUCCESSFUL_LOCK
  deriving DecidableEq

/-- How a transaction ends. `SKIPPED` is a Delivery iteration that finds no undelivered order. -/
inductive Outcome
  | COMMITTED
  | ABORTED (reason : AbortReason)
  | SKIPPED
  deriving DecidableEq

/-- What a stretch of code between two poll loops does: it starts a transaction, acquires a commit
timestamp, ends the transaction, or none of these. -/
inductive CpuLabel
  | begin
  | resume
  | acquire (cts : UInt32)
  | finish (outcome : Outcome)
  deriving DecidableEq

/-- The word a transaction swaps in when it locks a head whose word it read as `ts`. -/
def lockTimestamp (ts : Timestamp) (c : ClientID) (cts : UInt32) : Timestamp :=
  .setAll false true ts.versionOffset c cts

/-- The ring slot after the one in `ts`: the sum is cast to a byte before the remainder. -/
def nextVersionOffset (cfg : Config) (ts : Timestamp) : UInt8 :=
  UInt8.ofNat ((ts.versionOffset + 1).toNat % cfg.VERSION_NUM)

/-- The word of the version that replaces the one with word `ts`. -/
def newTimestamp (cfg : Config) (ts : Timestamp) (c : ClientID) (cts : UInt32) : Timestamp :=
  .setAll false false (nextVersionOffset cfg ts) c cts

end RdmaSnapshot
