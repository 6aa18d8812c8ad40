import RdmaSnapshot.DeliveryTransaction
import RdmaSnapshot.Lib.Transition

/-!
# The system

Servers, oracle, readers of the oracle's vector and clients, as one state machine. A step is one
of the following: a client starts a transaction; a client runs from the end of a poll loop to the
next poll loop; one posted work request takes effect, provided it is the oldest on its queue pair;
an `OracleReader` reads the oracle's vector. Every interleaving of the clients and of the queue
pairs is a sequence of such steps. The index of a server is not modelled: an index request may be
answered by anything.

The state also carries the trace of the events so far, newest first, and the memory the servers
were populated with. No client reads them; only the idealised fetch of older versions does.
-/

namespace RdmaSnapshot

/-- What an atomic verb returned: the prior word, or the prior counter. -/
inductive Reply
  | none
  | word (existing : Timestamp)
  | counter (old : UInt64)

inductive Event
  /-- A client ran to its next poll loop while executing `owner`. -/
  | cpu (c : ClientID) (owner : Owner) (label : CpuLabel)
  /-- A work request took effect. -/
  | effect (c : ClientID) (wr : WorkRequest) (reply : Reply)
  /-- The `OracleReader` of a client group read the vector. -/
  | readerRead (instanceNum : ℕ)

structure State where
  mem : Memory
  lastCommittedVector : ClientID → UInt32
  /-- The copies held by the `OracleReader`s; `none` before the first read. -/
  readerVector : ℕ → Option (ClientID → UInt32)
  clients : ClientID → Client
  trace : List Event
  populated : Memory

def Event.installs (k : Key) : Event → Option (Version (Row k.table))
  | .effect _ ⟨_, .writeHead k' v, _⟩ _ => if h : k' = k then some (h ▸ v) else none
  | _ => none

namespace State

def versions (s : State) (k : Key) : List (Version (Row k.table)) :=
  s.trace.filterMap (Event.installs k) ++ [(s.populated k).head]

end State

/-! ## Verbs -/

/-- What a verb does to the servers' memory. -/
def Verb.apply : Verb → Memory → Memory
  | .compareAndSwap k oldTS newTS _, m =>
    if (m k).head.writeTimestamp = oldTS then
      Function.update m k { m k with head := ⟨newTS, (m k).head.body⟩ }
    else m
  | .fetchAndAdd wID dID, m =>
    let r := m (.district wID dID)
    Function.update m (.district wID dID)
      { r with
        head :=
          ⟨r.head.writeTimestamp,
            { r.head.body with D_NEXT_O_ID := r.head.body.D_NEXT_O_ID + 1 }⟩ }
  | .writeTimestamp k ts, m => Function.update m k { m k with head := ⟨ts, (m k).head.body⟩ }
  | .writePointerList k tsList, m => Function.update m k { m k with tsList := tsList }
  | .writeOlderVersion k slot v, m =>
    Function.update m k
      { m k with olderVersions := Function.update (m k).olderVersions slot v }
  | .writeHead k v, m => Function.update m k { m k with head := v }
  | _, m => m

/-- What a verb does to the oracle's vector. -/
def Verb.applyVector : Verb → (ClientID → UInt32) → ClientID → UInt32
  | .writeVectorEntry c ts, vec => Function.update vec c ts
  | _, vec => vec

def Verb.reply : Verb → Memory → Reply
  | .compareAndSwap k _ _ _, m => .word (m k).head.writeTimestamp
  | .fetchAndAdd wID dID, m => .counter (m (.district wID dID)).head.body.D_NEXT_O_ID
  | _, _ => .none

/-- The answers of a server to the two index lookups. -/
structure IndexAnswer where
  customerName : CustomerNameIndexRespMsg
  oldestUndeliveredOrder : OldestUndeliveredOrderIndexResMsg

namespace State

/-- What a verb leaves in the buffers of the transaction object that posted it. -/
def landLocal (s : State) : Verb → LocalMemory → LocalMemory
  | .readHead k buf, m => m.setHead k.table buf (s.mem k).head
  | .readPointerList k buf, m => m.setPointerList buf (s.mem k).tsList
  | .readOlderVersion k slot, m => m.setHead k.table 0 ((s.mem k).olderVersions slot)
  | .readVersion k ts, m =>
    match (s.versions k).find? (·.writeTimestamp = ts) with
    | some v => m.setHead k.table 0 v
    | none => m
  | .readOrderLines serverNum tableIndex count, m =>
    { m with
      head := Function.update m.head .orderLine fun i =>
        if i < count then (s.mem (.orderLine serverNum (tableIndex + i))).head
        else m.head .orderLine i }
  | .compareAndSwap k _ _ buf, m => m.setLock k.table buf (s.mem k).head.writeTimestamp
  | .fetchAndAdd wID dID, m =>
    m.setHead .district 0
      ⟨(m.head .district 0).writeTimestamp,
        { (m.head .district 0).body with
          D_NEXT_O_ID := (s.mem (.district wID dID)).head.body.D_NEXT_O_ID }⟩
  | _, m => m

def landVector (s : State) : Verb → (ClientID → UInt32) → ClientID → UInt32
  | .readVector, _ => s.lastCommittedVector
  | .readVectorEntry c, vec => Function.update vec c (s.lastCommittedVector c)
  | _, vec => vec

end State

def Verb.landCustomerName (answer : IndexAnswer) :
    Verb → (ℕ → CustomerNameIndexRespMsg) → ℕ → CustomerNameIndexRespMsg
  | .send serverNum (.lookupCustomerByLastName ..), resp =>
    Function.update resp serverNum answer.customerName
  | _, resp => resp

/-- The answer to a lookup of the oldest order lands in the response buffer of its server. -/
def Verb.landOldestUndeliveredOrder (answer : IndexAnswer) :
    Verb → (ℕ → OldestUndeliveredOrderIndexResMsg) → ℕ → OldestUndeliveredOrderIndexResMsg
  | .send serverNum (.getOldestUndeliveredOrder ..), resp =>
    Function.update resp serverNum answer.oldestUndeliveredOrder
  | _, resp => resp

/-- What a verb leaves in the buffers of its client. -/
def State.land (s : State) (wr : WorkRequest) (answer : IndexAnswer) (cl : Client) : Client :=
  { cl with
    localMemory := Function.update cl.localMemory wr.owner.trx.cls
      (s.landLocal wr.verb (cl.localMemory wr.owner.trx.cls))
    localTimestampVector := s.landVector wr.verb cl.localTimestampVector
    customerNameResp := wr.verb.landCustomerName answer cl.customerNameResp
    oldestUndeliveredOrderResp :=
      wr.verb.landOldestUndeliveredOrder answer cl.oldestUndeliveredOrderResp }

/-! ## Steps -/

def Phase.trx : Phase → Option Trx
  | .idle => none
  | .newOrder cart _ => some (.newOrder cart)
  | .payment cart _ => some (.payment cart)
  | .delivery cart dID _ => some (.delivery cart dID)

/-- The stretch of code that follows the poll loop of a client. -/
def Client.resume (cfg : Config) (readerVector : ClientID → UInt32) (c : ClientID) (cl : Client) :
    Client × CpuLabel :=
  match cl.phase with
  | .idle => (cl, .resume)
  | .newOrder cart pc => NewOrderTransaction.resume cfg c cl cart readerVector pc
  | .payment cart pc => PaymentTransaction.resume cfg c cl cart readerVector pc
  | .delivery cart dID pc => DeliveryTransaction.resume cfg c cl cart dID readerVector pc

inductive Action
  | newOrder (c : ClientID) (cart : NewOrderCart)
  | payment (c : ClientID) (cart : PaymentCart)
  | delivery (c : ClientID) (cart : DeliveryCart)
  | cpu (c : ClientID)
  | nic (c : ClientID) (i : ℕ) (answer : IndexAnswer)
  | readerRead (instanceNum : ℕ)

/-- The vector a client copies in cluster mode; clients are started after the readers, so one was
read. Outside cluster mode the value is not used. -/
def State.readerVectorOf (cfg : Config) (s : State) (c : ClientID) :
    Option (ClientID → UInt32) :=
  if cfg.SNAPSHOT_CLUSTER_MODE then s.readerVector (cfg.instanceNum c)
  else some s.lastCommittedVector

def State.setClient (s : State) (c : ClientID) (cl : Client) (owner : Owner) (label : CpuLabel) :
    State :=
  { s with
    clients := Function.update s.clients c cl
    trace := .cpu c owner label :: s.trace }

/-- A client that waits for nothing calls `doOne` of the next transaction of its loop. -/
def State.start (cfg : Config) (s : State) (c : ClientID) (owner : Owner) (label : CpuLabel)
    (begin : (ClientID → UInt32) → Client) : Option State :=
  if c.toNat < cfg.clientCnt then
    match (s.clients c).phase, s.readerVectorOf cfg c with
    | .idle, some vec => some (s.setClient c (begin vec) owner label)
    | _, _ => none
  else none

/-- A client whose poll loop is over runs to its next poll loop. -/
def State.cpu (cfg : Config) (s : State) (c : ClientID) : Option State :=
  match (s.clients c).phase.trx, s.readerVectorOf cfg c with
  | some trx, some vec =>
    if (s.clients c).pollCnt cfg ≤ (s.clients c).sendCQ then
      let r := ((s.clients c).poll cfg).resume cfg vec c
      some (s.setClient c r.1 ⟨r.1.t, trx⟩ r.2)
    else none
  | _, _ => none

def Client.isOldest (cfg : Config) (cl : Client) (i : ℕ) (wr : WorkRequest) : Bool :=
  (cl.outstanding.take i).all fun w => w.verb.qp cfg ≠ wr.verb.qp cfg

/-- Work request `i` leaves the queue, with a completion if it is signaled. -/
def Client.complete (cl : Client) (i : ℕ) (wr : WorkRequest) : Client :=
  { cl with
    outstanding := cl.outstanding.eraseIdx i
    sendCQ := if wr.signaled then cl.sendCQ + 1 else cl.sendCQ }

/-- Work request `i` of client `c` takes effect and leaves the queue. -/
def State.effect (s : State) (c : ClientID) (i : ℕ) (wr : WorkRequest) (answer : IndexAnswer) :
    State :=
  { s with
    mem := wr.verb.apply s.mem
    lastCommittedVector := wr.verb.applyVector s.lastCommittedVector
    clients := Function.update s.clients c ((s.land wr answer (s.clients c)).complete i wr)
    trace := .effect c wr (wr.verb.reply s.mem) :: s.trace }

def State.nic (cfg : Config) (s : State) (c : ClientID) (i : ℕ) (answer : IndexAnswer) :
    Option State :=
  match (s.clients c).outstanding[i]? with
  | none => none
  | some wr => if (s.clients c).isOldest cfg i wr then some (s.effect c i wr answer) else none

def State.readOracle (s : State) (g : ℕ) : State :=
  { s with
    readerVector := Function.update s.readerVector g (some s.lastCommittedVector)
    trace := .readerRead g :: s.trace }

def step (cfg : Config) (s : State) : Action → Option State
  | .newOrder c cart => s.start cfg c ⟨(s.clients c).t + 1, .newOrder cart⟩ .begin
    fun vec => NewOrderTransaction.start cfg { s.clients c with t := (s.clients c).t + 1 } cart vec
  | .payment c cart => s.start cfg c ⟨(s.clients c).t + 1, .payment cart⟩ .begin
    fun vec => PaymentTransaction.start cfg { s.clients c with t := (s.clients c).t + 1 } cart vec
  | .delivery c cart => s.start cfg c ⟨(s.clients c).t, .delivery cart 0⟩ .resume
    fun _ =>
      { s.clients c with
        phase := if 0 < cfg.DISTRICT_PER_WAREHOUSE then .delivery cart 0 .begin else .idle }
  | .cpu c => s.cpu cfg c
  | .nic c i answer => s.nic cfg c i answer
  | .readerRead g => some (s.readOracle g)

/-! ## Initial states -/

/-- The tables that are filled when a server starts; the others are allocated empty. -/
def Table.isPopulated : Table → Bool
  | .warehouse | .district | .customer | .stock | .item => true
  | .order | .newOrder | .orderLine | .history => false

/-- The row carries the key it is stored under. -/
def Key.Names : (k : Key) → Row k.table → Prop
  | .warehouse wID, row => row.W_ID = wID
  | .district wID dID, row => row.D_W_ID = wID ∧ row.D_ID = dID
  | .customer wID dID cID, row => row.C_W_ID = wID ∧ row.C_D_ID = dID ∧ row.C_ID = cID
  | .stock wID iID, row => row.S_W_ID = wID ∧ row.S_I_ID = iID
  | .item _ iID, row => row.I_ID = iID
  | .order _ _, _ | .newOrder _ _, _ | .orderLine _ _, _ | .history _ _, _ => True

/-- The word of the versions a server is populated with. -/
def initialTS : Timestamp := .setAll false false 0 0 0

/-- A record after the server's start. Rows of the ring, and of tables that are not populated,
hold whatever the allocation left there. -/
structure Record.Init (cfg : Config) (k : Key) (r : Record (Row k.table)) : Prop where
  head : r.head.writeTimestamp = if k.table.isPopulated then initialTS else .empty
  names : k.table.isPopulated → k.Names r.head.body
  tsList : r.tsList = List.replicate cfg.VERSION_NUM .empty
  olderVersions : ∀ slot, (r.olderVersions slot).writeTimestamp = .empty

/-- A client before its first transaction. The timestamps in its buffers are those of the default
constructor; everything else in the buffers is whatever the allocation left there. -/
structure Client.Init (cfg : Config) (cl : Client) : Prop where
  nextEpoch : cl.nextEpoch = 1
  t : cl.t = 0
  head : ∀ cls t i, ((cl.localMemory cls).head t i).writeTimestamp = .empty
  pointerList : ∀ cls b, (cl.localMemory cls).pointerList b = List.replicate cfg.VERSION_NUM .empty
  nextOrderID : cl.nextOrderID = 0
  nextNewOrderID : cl.nextNewOrderID = 0
  nextOrderLineID : cl.nextOrderLineID = 0
  nextHistoryID : cl.nextHistoryID = 0
  outstanding : cl.outstanding = []
  sendCQ : cl.sendCQ = 0
  outstandingSendCompletionCnt : cl.outstandingSendCompletionCnt = 0
  phase : cl.phase = .idle

structure Init (cfg : Config) (s : State) : Prop where
  mem : s.mem = s.populated
  records : ∀ k, (s.populated k).Init cfg k
  lastCommittedVector : s.lastCommittedVector = fun _ => 0
  readerVector : s.readerVector = fun _ => none
  clients : ∀ c, (s.clients c).Init cfg
  trace : s.trace = []

abbrev ReachableBy (cfg : Config) (ok : State → Action → Prop) : State → Prop :=
  Transition.ReachableBy (Init cfg) (step cfg) ok

abbrev Reachable (cfg : Config) : State → Prop := Transition.Reachable (Init cfg) (step cfg)

end RdmaSnapshot
