import RdmaSnapshot.OrderStatus
import RdmaSnapshot.LastOrders
import RdmaSnapshot.CustomerLookup
import RdmaSnapshot.Isolation

/-!
# StockLevel

A client that executes `StockLevelTransaction::doOne` while the system goes on: other clients
execute NewOrders, Payments and Deliveries, and their requests take effect between those of the
StockLevel.

The transaction reads the stock heads of the items that the index has listed, and their pointer
lists. A head that is not visible is replaced: `findValidVersion` looks for a visible entry, and the
slot of the ring with the number of that entry is fetched. The lists of all stocks are in one
buffer, and `findValidVersion` is given the start of the buffer for every stock. What was fetched is
not checked again.
-/

namespace RdmaSnapshot

structure StockLevelCart where
  wID : UInt16
  dID : UInt8
  threshold : UInt32
  deriving DecidableEq

namespace StockLevel

/-! ## The machine -/

/-- What a StockLevel asks of the network interface, by the function of `DBExecutor` that posts it.
Entry `i` of the stock buffers is filled. -/
inductive Verb
  | getReadTimestamp
  | retrieveDistrict (wID : UInt16) (dID : UInt8)
  | retrieveDistrictPointerList (wID : UInt16) (dID : UInt8)
  | retrieveDistrictOlderVersion (wID : UInt16) (dID : UInt8) (versionOffset : ℕ)
  | getDistinctItemsForLastTwentyOrders (wID : UInt16) (dID : UInt8) (dNextOID : UInt32)
  | retrieveStock (i : ℕ) (iID : UInt32) (wID : UInt16)
  | retrieveStockPointerList (i : ℕ) (iID : UInt32) (wID : UInt16)
  | retrieveStockOlderVersion (i : ℕ) (iID : UInt32) (wID : UInt16) (versionOffset : ℕ)
  deriving DecidableEq

structure WorkRequest where
  verb : Verb
  signaled : Bool
  deriving DecidableEq

def WorkRequest.qp (cfg : Config) (wr : WorkRequest) : QueuePair :=
  match wr.verb with
  | .getReadTimestamp => .oracle
  | .retrieveDistrict wID _ | .retrieveDistrictPointerList wID _
  | .retrieveDistrictOlderVersion wID _ _ | .getDistinctItemsForLastTwentyOrders wID _ _
  | .retrieveStock _ _ wID | .retrieveStockPointerList _ _ wID
  | .retrieveStockOlderVersion _ _ wID _ => .server (cfg.getServerNum wID)

structure Result where
  cart : StockLevelCart
  outcome : Outcome
  lowStockCnt : ℕ
  deriving DecidableEq

/-- The poll loops of `StockLevelTransaction::doOne`. -/
inductive Phase
  | idle (last : Option Result)
  | district (cart : StockLevelCart)
  | olderDistrict (cart : StockLevelCart)
  | lastOrders (cart : StockLevelCart)
  | stocks (cart : StockLevelCart)
  | olderStocks (cart : StockLevelCart) (abortFlag : Bool)
  deriving DecidableEq

/-- The system, and what a StockLevel has of its own. The buffer `stockTS` holds `VERSION_NUM`
entries for every stock, one list after the other. -/
structure State where
  sys : RdmaSnapshot.State
  phase : Phase
  outstanding : List WorkRequest
  /-- Completions in the send queue that were not polled yet. -/
  sendCQ : ℕ
  outstandingSendCompletionCnt : ℕ
  localTimestampVector : ClientID → UInt32
  districtHead : Version District
  districtTS : ℕ → Timestamp
  stockHead : ℕ → Version Stock
  stockTS : ℕ → Timestamp
  last20OrdersResp : ℕ → Last20OrdersIndexResMsg
  /-- The stock heads at the version check, before others are fetched in their places; recorded for
  the properties stated later. -/
  headsRead : ℕ → Version Stock

namespace State

variable (cfg : Config) (c : ClientID) (s : State) (cart : StockLevelCart)

def resp : Last20OrdersIndexResMsg := s.last20OrdersResp (cfg.getServerNum cart.wID)

def isRecordAccessible (ts : Timestamp) : Bool :=
  BaseTransaction.isRecordAccessible c s.localTimestampVector ts

/-- `findValidVersion` for `versionCnt` entries of a buffer. -/
def findValidVersion (timestampList : ℕ → Timestamp) (versionCnt : ℕ) : Option ℕ :=
  BaseTransaction.findValidVersion c s.localTimestampVector
    ((List.range versionCnt).map timestampList)

theorem findValidVersion_eq_some {timestampList : ℕ → Timestamp} {versionCnt ind : ℕ}
    (h : s.findValidVersion c timestampList versionCnt = some ind) :
    ind < versionCnt ∧ s.isRecordAccessible c (timestampList ind) = true := by
  obtain ⟨hlt, hvisible, -⟩ := List.findIdx?_eq_some_iff_getElem.1 h
  rw [List.length_map, List.length_range] at hlt
  rw [List.getElem_map, List.getElem_range] at hvisible
  exact ⟨hlt, hvisible⟩

def post (posts : List WorkRequest) : State :=
  { s with
    outstanding := s.outstanding ++ posts
    outstandingSendCompletionCnt := s.outstandingSendCompletionCnt + posts.countP (·.signaled) }

def finish (outcome : Outcome) (lowStockCnt : ℕ) : State :=
  { s with phase := .idle (some ⟨cart, outcome, lowStockCnt⟩) }

/-- `doOne` up to its first poll loop. In cluster mode the vector of the `OracleReader` is copied.
-/
def start (readerVector : ClientID → UInt32) : State :=
  let s := { s with phase := .district cart }
  let s :=
    if cfg.SNAPSHOT_CLUSTER_MODE then { s with localTimestampVector := readerVector }
    else s.post [⟨.getReadTimestamp, true⟩]
  s.post [⟨.retrieveDistrict cart.wID cart.dID, false⟩,
    ⟨.retrieveDistrictPointerList cart.wID cart.dID, true⟩]

/-- Asks the index; the counter of the district is cut to 32 bits. -/
def askLastOrders : State :=
  ({ s with phase := .lastOrders cart } : State).post
    [⟨.getDistinctItemsForLastTwentyOrders cart.wID cart.dID
      s.districtHead.body.D_NEXT_O_ID.toUInt32, true⟩]

def afterDistrict : State :=
  if s.isRecordAccessible c s.districtHead.writeTimestamp then s.askLastOrders cart
  else
    match s.findValidVersion c s.districtTS cfg.VERSION_NUM with
    | none => s.finish cart (.ABORTED .INCONSISTENT_SNAPSHOT) 0
    | some ind =>
      ({ s with phase := .olderDistrict cart } : State).post
        [⟨.retrieveDistrictOlderVersion cart.wID cart.dID ind, true⟩]

/-- The READs of the stocks; only the last one is signaled. -/
def stockPosts (res : Last20OrdersIndexResMsg) : List WorkRequest :=
  (List.range res.orderlinesCnt).flatMap fun i =>
    [⟨.retrieveStock i (res.itemIDs i) cart.wID, false⟩,
      ⟨.retrieveStockPointerList i (res.itemIDs i) cart.wID, i == res.orderlinesCnt - 1⟩]

def afterLastOrders : State :=
  let res := s.resp cfg cart
  if !res.isSuccessful then s.finish cart (.ABORTED .INCONSISTENT_SNAPSHOT) 0
  else if res.orderlinesCnt = 0 then s.finish cart .COMMITTED 0
  else ({ s with phase := .stocks cart } : State).post (stockPosts cart res)

def checkStocks (res : Last20OrdersIndexResMsg) : List ℕ → List WorkRequest × Bool
  | [] => ([], false)
  | i :: is =>
    if s.isRecordAccessible c (s.stockHead i).writeTimestamp then checkStocks res is
    else
      -- the buffer of the lists is passed without the offset of the stock
      match s.findValidVersion c s.stockTS cfg.VERSION_NUM with
      | none => ([], true)
      | some ind =>
        (⟨.retrieveStockOlderVersion i (res.itemIDs i) cart.wID ind, true⟩ ::
          (checkStocks res is).1, (checkStocks res is).2)

def afterStocks : State :=
  let check := s.checkStocks cfg c cart (s.resp cfg cart)
    (List.range (s.resp cfg cart).orderlinesCnt)
  ({ s with phase := .olderStocks cart check.2, headsRead := s.stockHead } : State).post check.1

def lowStockCnt : ℕ :=
  (List.range (s.resp cfg cart).orderlinesCnt).countP fun i =>
    (s.stockHead i).body.S_QUANTITY.toNat < cart.threshold.toNat

def afterOlderStocks (abortFlag : Bool) : State :=
  if abortFlag then s.finish cart (.ABORTED .INCONSISTENT_SNAPSHOT) 0
  else s.finish cart .COMMITTED (s.lowStockCnt cfg cart)

def poll : State :=
  { s with
    sendCQ := s.sendCQ - s.outstandingSendCompletionCnt
    outstandingSendCompletionCnt := 0 }

def resume : Phase → Option State
  | .idle _ => none
  | .district cart => some (s.afterDistrict cfg c cart)
  | .olderDistrict cart => some (s.askLastOrders cart)
  | .lastOrders cart => some (s.afterLastOrders cfg cart)
  | .stocks cart => some (s.afterStocks cfg c cart)
  | .olderStocks cart abortFlag => some (s.afterOlderStocks cfg cart abortFlag)

def cpu : Option State :=
  if s.outstandingSendCompletionCnt ≤ s.sendCQ then s.poll.resume cfg c s.phase else none

def copyList (region : ℕ → Timestamp) (offset : ℕ) (tsList : List Timestamp) : ℕ → Timestamp :=
  fun n => if offset ≤ n ∧ n < offset + cfg.VERSION_NUM then tsList.getD (n - offset) .empty
    else region n

def land (answer : Last20OrdersIndexResMsg) : Verb → State
  | .getReadTimestamp => { s with localTimestampVector := s.sys.lastCommittedVector }
  | .retrieveDistrict wID dID => { s with districtHead := (s.sys.mem (.district wID dID)).head }
  | .retrieveDistrictPointerList wID dID =>
    { s with districtTS := copyList cfg s.districtTS 0 (s.sys.mem (.district wID dID)).tsList }
  | .retrieveDistrictOlderVersion wID dID versionOffset =>
    { s with districtHead := (s.sys.mem (.district wID dID)).olderVersions versionOffset }
  | .getDistinctItemsForLastTwentyOrders wID _ _ =>
    { s with
      last20OrdersResp := Function.update s.last20OrdersResp (cfg.getServerNum wID) answer }
  | .retrieveStock i iID wID =>
    { s with stockHead := Function.update s.stockHead i (s.sys.mem (.stock wID iID)).head }
  | .retrieveStockPointerList i iID wID =>
    { s with
      stockTS := copyList cfg s.stockTS (i * cfg.VERSION_NUM) (s.sys.mem (.stock wID iID)).tsList }
  | .retrieveStockOlderVersion i iID wID versionOffset =>
    { s with
      stockHead := Function.update s.stockHead i
        ((s.sys.mem (.stock wID iID)).olderVersions versionOffset) }

def effect (i : ℕ) (wr : WorkRequest) (answer : Last20OrdersIndexResMsg) : State :=
  { s.land cfg answer wr.verb with
    outstanding := s.outstanding.eraseIdx i
    sendCQ := s.sendCQ + if wr.signaled then 1 else 0 }

/-- The network interface executes the request at place `i`, the oldest one of its queue pair. -/
def nic (i : ℕ) (answer : Last20OrdersIndexResMsg) : Option State :=
  match s.outstanding[i]? with
  | none => none
  | some wr =>
    if (s.outstanding.take i).all fun w => w.qp cfg ≠ wr.qp cfg then some (s.effect cfg i wr answer)
    else none

def isBusy : Bool :=
  match s.phase with
  | .idle _ => false
  | _ => true

end State

/-- A step of the system, the start of a StockLevel, or a step of its network interface or CPU. -/
inductive Action
  | system (a : RdmaSnapshot.Action)
  | start (cart : StockLevelCart)
  | nic (i : ℕ) (answer : Last20OrdersIndexResMsg)
  | cpu

/-- The transition function; `c` is the client that executes the StockLevels. It executes one
transaction at a time. -/
def step (cfg : Config) (c : ClientID) (s : State) : Action → Option State
  | .system a =>
    if s.isBusy ∧ a.starts c then none
    else (RdmaSnapshot.step cfg s.sys a).map fun sys => { s with sys := sys }
  | .start cart =>
    match s.phase, (s.sys.clients c).phase, s.sys.readerVectorOf cfg c with
    | .idle _, .idle, some vec =>
      if c.toNat < cfg.clientCnt then some (s.start cfg cart vec) else none
    | _, _, _ => none
  | .nic i answer => s.nic cfg i answer
  | .cpu => s.cpu cfg c

/-- Initially nothing has happened; the buffers hold anything. -/
structure Init (cfg : Config) (s : State) : Prop where
  sys : RdmaSnapshot.Init cfg s.sys
  phase : s.phase = .idle none
  outstanding : s.outstanding = []
  sendCQ : s.sendCQ = 0
  outstandingSendCompletionCnt : s.outstandingSendCompletionCnt = 0

/-! ## Specification -/

def State.listOf (cfg : Config) (s : State) (i : ℕ) : ℕ → Timestamp :=
  fun j => s.stockTS (i * cfg.VERSION_NUM + j)

/-- A StockLevel that has ended with result `r` has counted visible versions of the right stocks. -/
structure CountsVisible (cfg : Config) (c : ClientID) (s : State) (r : Result) : Prop where
  visible : ∀ i < (s.resp cfg r.cart).orderlinesCnt,
    (Key.stock r.cart.wID ((s.resp cfg r.cart).itemIDs i)).Names (s.stockHead i).body ∧
      s.isRecordAccessible c (s.stockHead i).writeTimestamp = true
  /-- Every stock had a visible head or a visible entry in its list. -/
  listed : ∀ i < (s.resp cfg r.cart).orderlinesCnt,
    s.isRecordAccessible c (s.headsRead i).writeTimestamp = true ∨
      ∃ j < cfg.VERSION_NUM, s.isRecordAccessible c (s.listOf cfg i j) = true
  count : r.lowStockCnt = s.lowStockCnt cfg r.cart

/-- The condition on a step. When the versions are checked, what is found in the buffer is what
would be found in the list of the stock, for every stock whose head is not visible. When an older
version is fetched, the slot of the ring with the number of an entry holds the version of that
entry. -/
def meets (cfg : Config) (c : ClientID) (s : State) : Action → Bool
  | .cpu =>
    match s.phase with
    | .stocks cart =>
      match s.findValidVersion c s.stockTS cfg.VERSION_NUM with
      | none => true
      | some ind => (List.range (s.resp cfg cart).orderlinesCnt).all fun i =>
        s.isRecordAccessible c (s.stockHead i).writeTimestamp ||
          s.findValidVersion c (s.listOf cfg i) cfg.VERSION_NUM == some ind
    | _ => true
  | .nic i _ =>
    match s.outstanding[i]? with
    | some ⟨.retrieveStockOlderVersion n iID wID versionOffset, _⟩ =>
      ((s.sys.mem (.stock wID iID)).olderVersions versionOffset).writeTimestamp ==
        s.listOf cfg n versionOffset
    | _ => true
  | _ => true

variable {cfg : Config} {c : ClientID} {s s' : State} {cart : StockLevelCart} {wr : WorkRequest}
  {i : ℕ} {answer : Last20OrdersIndexResMsg} {posts : List WorkRequest} {r : Result}

/-! ## Completions -/

def Covered (cfg : Config) (requests : List WorkRequest) : Prop :=
  ∀ wr ∈ requests, Fifo.Ended (·.signaled) (WorkRequest.qp cfg) (wr.qp cfg) requests

theorem covered_of_signaled (h : ∀ wr ∈ posts, wr.signaled = true) : Covered cfg posts :=
  fun _ _ => Fifo.ended_of_forall h

theorem covered_concat (posts : List WorkRequest) {last : WorkRequest} (hsig : last.signaled = true)
    (hqp : ∀ wr ∈ posts, wr.qp cfg = last.qp cfg) : Covered cfg (posts ++ [last]) := by
  have hended : Fifo.Ended (·.signaled) (WorkRequest.qp cfg) (last.qp cfg) (posts ++ [last]) := by
    refine Fifo.Ended.append_right (by simp) (Fifo.ended_of_forall fun wr hwr => ?_)
    rwa [List.mem_singleton.1 hwr]
  intro wr hwr
  rcases List.mem_append.1 hwr with hwr | hwr
  · rw [hqp wr hwr]
    exact hended
  · rw [List.mem_singleton.1 hwr]
    exact hended

/-- The poll loop takes the completions of the requests that are outstanding, and these cover the
others. -/
structure Accounted (cfg : Config) (s : State) : Prop where
  count : s.sendCQ + s.outstanding.countP (·.signaled) = s.outstandingSendCompletionCnt
  covered : Covered cfg s.outstanding

theorem Accounted.effect (h : Accounted cfg s)
    (ho : Fifo.Oldest (WorkRequest.qp cfg) s.outstanding i wr) :
    Accounted cfg (s.effect cfg i wr answer) := by
  have hcnt : (s.effect cfg i wr answer).outstandingSendCompletionCnt =
      s.outstandingSendCompletionCnt := by
    cases wr with
    | mk verb signaled => cases verb <;> rfl
  refine ⟨?_, fun w hw => ?_⟩
  · have herase := Fifo.countP_eraseIdx (·.signaled) ho.getElem
    have hcount := h.count
    rw [hcnt]
    simp only [State.effect]
    omega
  · exact (h.covered w (List.mem_of_mem_eraseIdx hw)).erase ho

/-- Nothing is outstanding and no completion is to come. -/
structure Quiet (s : State) : Prop where
  outstanding : s.outstanding = []
  sendCQ : s.sendCQ = 0
  counted : s.outstandingSendCompletionCnt = 0

theorem Accounted.poll (h : Accounted cfg s) (hpoll : s.outstandingSendCompletionCnt ≤ s.sendCQ) :
    Quiet s.poll := by
  have hcount := h.count
  have hnone : s.outstanding.countP (·.signaled) = 0 := by omega
  refine ⟨List.eq_nil_iff_forall_not_mem.2 fun wr hwr => ?_, ?_, rfl⟩
  · have hlane := Fifo.lane_eq_nil_of_ended (h.covered wr hwr) hnone
    exact Fifo.lane_eq_nil_iff.1 hlane wr hwr rfl
  · simp only [State.poll]
    omega

@[simp] theorem post_post (posts' : List WorkRequest) :
    (s.post posts).post posts' = s.post (posts ++ posts') := by
  simp [State.post, Nat.add_assoc]

theorem Quiet.accounted (h : Quiet s) : Accounted cfg s where
  count := by simp [h.outstanding, h.sendCQ, h.counted]
  covered := by
    rw [h.outstanding]
    exact fun _ hwr => (List.not_mem_nil hwr).elim

theorem Quiet.post (h : Quiet s) (hposts : Covered cfg posts) : Accounted cfg (s.post posts) where
  count := by simp [State.post, h.outstanding, h.sendCQ, h.counted]
  covered := by simpa [State.post, h.outstanding] using hposts

theorem covered_stockPosts (cart : StockLevelCart) {res : Last20OrdersIndexResMsg}
    (h : res.orderlinesCnt ≠ 0) : Covered cfg (State.stockPosts cart res) := by
  obtain ⟨n, hn⟩ := Nat.exists_eq_succ_of_ne_zero h
  rw [State.stockPosts, hn, List.range_succ, List.flatMap_append, List.flatMap_singleton]
  have hqp : ∀ wr ∈ ((List.range n).flatMap fun i =>
      [(⟨.retrieveStock i (res.itemIDs i) cart.wID, false⟩ : WorkRequest),
        ⟨.retrieveStockPointerList i (res.itemIDs i) cart.wID, i == n.succ - 1⟩]) ++
      [⟨.retrieveStock n (res.itemIDs n) cart.wID, false⟩],
      wr.qp cfg = .server (cfg.getServerNum cart.wID) := by
    intro wr hwr
    rcases List.mem_append.1 hwr with hwr | hwr
    · obtain ⟨i, -, hwr⟩ := List.mem_flatMap.1 hwr
      rcases List.mem_pair.1 hwr with rfl | rfl <;> rfl
    · rw [List.mem_singleton.1 hwr]
      rfl
  have hlast : Covered cfg (_ ++ [⟨.retrieveStockPointerList n (res.itemIDs n) cart.wID,
    n == n.succ - 1⟩]) := covered_concat _ (by simp) hqp
  rw [List.append_assoc] at hlast
  exact hlast

/-! ## Stages -/

/-- The stocks are being read: a head is on its way, or it is a row of its stock. -/
structure StocksRead (cfg : Config) (s : State) (cart : StockLevelCart) : Prop where
  requests : ∀ wr ∈ s.outstanding, ∃ i,
    wr.verb = .retrieveStock i ((s.resp cfg cart).itemIDs i) cart.wID ∨
      wr.verb = .retrieveStockPointerList i ((s.resp cfg cart).itemIDs i) cart.wID
  heads : ∀ i < (s.resp cfg cart).orderlinesCnt,
    (∃ wr ∈ s.outstanding, wr.verb = .retrieveStock i ((s.resp cfg cart).itemIDs i) cart.wID) ∨
      (Key.stock cart.wID ((s.resp cfg cart).itemIDs i)).Names (s.stockHead i).body

/-- The versions have been checked: an older version is on its way, by a visible entry of its list,
or the version is visible. -/
structure StocksChecked (cfg : Config) (c : ClientID) (s : State) (cart : StockLevelCart) :
    Prop where
  requests : ∀ wr ∈ s.outstanding, ∃ i versionOffset,
    s.isRecordAccessible c (s.listOf cfg i versionOffset) = true ∧
    wr.verb = .retrieveStockOlderVersion i ((s.resp cfg cart).itemIDs i) cart.wID versionOffset
  versions : ∀ i < (s.resp cfg cart).orderlinesCnt,
    (∃ wr ∈ s.outstanding, ∃ versionOffset, wr.verb = .retrieveStockOlderVersion i
      ((s.resp cfg cart).itemIDs i) cart.wID versionOffset) ∨
    (Key.stock cart.wID ((s.resp cfg cart).itemIDs i)).Names (s.stockHead i).body ∧
      s.isRecordAccessible c (s.stockHead i).writeTimestamp = true
  listed : ∀ i < (s.resp cfg cart).orderlinesCnt,
    s.isRecordAccessible c (s.headsRead i).writeTimestamp = true ∨
      ∃ j < cfg.VERSION_NUM, s.isRecordAccessible c (s.listOf cfg i j) = true

/-- What is known in each poll loop. -/
def StageOK (cfg : Config) (c : ClientID) (s : State) : Prop :=
  match s.phase with
  | .idle last => Quiet s ∧
      ∀ r, last = some r → r.outcome = .COMMITTED → CountsVisible cfg c s r
  | .district _ | .olderDistrict _ | .lastOrders _ => True
  | .stocks cart => StocksRead cfg s cart
  | .olderStocks cart abortFlag => abortFlag = false → StocksChecked cfg c s cart

structure Inv (cfg : Config) (c : ClientID) (s : State) : Prop where
  accounted : Accounted cfg s
  stage : StageOK cfg c s

theorem names_olderVersions {sys : RdmaSnapshot.State} {k : Key} {slot : ℕ}
    {vec : ClientID → UInt32} (hsys : RdmaSnapshot.Inv cfg sys) (hk : k.versioned = true)
    (hacc : BaseTransaction.isRecordAccessible c vec
      ((sys.mem k).olderVersions slot).writeTimestamp = true) :
    k.Names ((sys.mem k).olderVersions slot).body := by
  have hrecord := hsys.records k hk
  rcases hrecord.ring slot with hdeleted | ⟨v, hv, hsame⟩
  · rw [(BaseTransaction.isRecordAccessible_iff.1 hacc).2.1] at hdeleted
    cases hdeleted
  · exact (Key.names_iff_of_mask_eq hsame.2).2 (hrecord.names v hv)

theorem StocksRead.effect (h : StocksRead cfg s cart) (hnames : s.sys.RowsNamed)
    (ho : Fifo.Oldest (WorkRequest.qp cfg) s.outstanding i wr) :
    StocksRead cfg (s.effect cfg i wr answer) cart := by
  obtain ⟨verb, signaled⟩ := wr
  obtain ⟨b, hb | hb⟩ := h.requests _ (List.mem_of_getElem? ho.getElem)
  · cases hb
    refine ⟨fun w hw => h.requests w (List.mem_of_mem_eraseIdx hw), fun n hn => ?_⟩
    by_cases hnb : n = b
    · subst hnb
      right
      have hhead : (s.effect cfg i ⟨.retrieveStock n ((s.resp cfg cart).itemIDs n) cart.wID,
          signaled⟩ answer).stockHead n =
          (s.sys.mem (.stock cart.wID ((s.resp cfg cart).itemIDs n))).head :=
        Function.update_self ..
      rw [hhead]
      exact hnames (.stock _ _) rfl
    · rcases h.heads n hn with ⟨w, hw, hv⟩ | hnamed
      · refine .inl ⟨w, ho.mem_eraseIdx hw ?_, hv⟩
        rintro rfl
        exact hnb (Verb.retrieveStock.inj hv).1.symm
      · right
        have hhead : (s.effect cfg i ⟨.retrieveStock b ((s.resp cfg cart).itemIDs b) cart.wID,
            signaled⟩ answer).stockHead n = s.stockHead n := Function.update_of_ne hnb ..
        rw [hhead]
        exact hnamed
  · cases hb
    refine ⟨fun w hw => h.requests w (List.mem_of_mem_eraseIdx hw), fun n hn => ?_⟩
    rcases h.heads n hn with ⟨w, hw, hv⟩ | hnamed
    · refine .inl ⟨w, ho.mem_eraseIdx hw ?_, hv⟩
      rintro rfl
      cases hv
    · exact .inr hnamed

/-- One of the READs of older versions takes effect, and brings a visible one. -/
theorem StocksChecked.effect (h : StocksChecked cfg c s cart) (hsys : RdmaSnapshot.Inv cfg s.sys)
    (ho : Fifo.Oldest (WorkRequest.qp cfg) s.outstanding i wr)
    (hok : meets cfg c s (.nic i answer) = true) :
    StocksChecked cfg c (s.effect cfg i wr answer) cart := by
  obtain ⟨verb, signaled⟩ := wr
  obtain ⟨b, versionOffset, hlist, hb⟩ := h.requests _ (List.mem_of_getElem? ho.getElem)
  cases hb
  refine ⟨fun w hw => h.requests w (List.mem_of_mem_eraseIdx hw), fun n hn => ?_, h.listed⟩
  by_cases hnb : n = b
  · subst hnb
    right
    have hhead : (s.effect cfg i ⟨.retrieveStockOlderVersion n ((s.resp cfg cart).itemIDs n)
        cart.wID versionOffset, signaled⟩ answer).stockHead n =
        (s.sys.mem (.stock cart.wID ((s.resp cfg cart).itemIDs n))).olderVersions versionOffset :=
      Function.update_self ..
    have hslot : ((s.sys.mem (.stock cart.wID ((s.resp cfg cart).itemIDs n))).olderVersions
        versionOffset).writeTimestamp = s.listOf cfg n versionOffset := by
      simpa [meets, ho.getElem] using hok
    have hvisible := hlist
    rw [← hslot] at hvisible
    rw [hhead]
    exact ⟨names_olderVersions hsys rfl hvisible, hvisible⟩
  · rcases h.versions n hn with ⟨w, hw, slot, hv⟩ | hgood
    · refine .inl ⟨w, ho.mem_eraseIdx hw ?_, slot, hv⟩
      rintro rfl
      exact hnb (Verb.retrieveStockOlderVersion.inj hv).1.symm
    · right
      have hhead : (s.effect cfg i ⟨.retrieveStockOlderVersion b ((s.resp cfg cart).itemIDs b)
          cart.wID versionOffset, signaled⟩ answer).stockHead n = s.stockHead n :=
        Function.update_of_ne hnb ..
      rw [hhead]
      exact hgood

theorem phase_effect : (s.effect cfg i wr answer).phase = s.phase := by
  obtain ⟨verb, signaled⟩ := wr
  cases verb <;> rfl

theorem sys_effect : (s.effect cfg i wr answer).sys = s.sys := by
  obtain ⟨verb, signaled⟩ := wr
  cases verb <;> rfl

theorem Inv.effect (h : Inv cfg c s) (hsys : RdmaSnapshot.Inv cfg s.sys) (hnames : s.sys.RowsNamed)
    (ho : Fifo.Oldest (WorkRequest.qp cfg) s.outstanding i wr)
    (hok : meets cfg c s (.nic i answer) = true) : Inv cfg c (s.effect cfg i wr answer) := by
  refine ⟨h.accounted.effect ho, ?_⟩
  have hstage := h.stage
  unfold StageOK at hstage ⊢
  rw [phase_effect]
  cases hphase : s.phase with
  | idle last =>
    rw [hphase] at hstage
    have hmem := List.mem_of_getElem? ho.getElem
    rw [hstage.1.outstanding] at hmem
    cases hmem
  | district | olderDistrict | lastOrders => trivial
  | stocks cart =>
    rw [hphase] at hstage
    exact hstage.effect hnames ho
  | olderStocks cart abortFlag =>
    rw [hphase] at hstage
    exact fun hflag => (hstage hflag).effect hsys ho hok

/-! ## The version check -/

variable {res : Last20OrdersIndexResMsg} {is : List ℕ}

/-- The check posts signaled READs of older versions, for stocks that are not visible and by the
entry that is found in the buffer. -/
theorem mem_checkStocks (h : wr ∈ (s.checkStocks cfg c cart res is).1) :
    wr.signaled = true ∧ ∃ i ∈ is, ∃ ind,
      ¬ s.isRecordAccessible c (s.stockHead i).writeTimestamp = true ∧
      s.findValidVersion c s.stockTS cfg.VERSION_NUM = some ind ∧
      wr.verb = .retrieveStockOlderVersion i (res.itemIDs i) cart.wID ind := by
  induction is with
  | nil => cases h
  | cons i is ih =>
    simp only [State.checkStocks] at h
    split at h
    · obtain ⟨hsig, n, hn, hrest⟩ := ih h
      exact ⟨hsig, n, List.mem_cons_of_mem _ hn, hrest⟩
    · rename_i hhidden
      split at h
      · cases h
      · rename_i ind hind
        rcases List.mem_cons.1 h with rfl | h
        · exact ⟨rfl, i, List.mem_cons_self, ind, hhidden, hind, rfl⟩
        · obtain ⟨hsig, n, hn, hrest⟩ := ih h
          exact ⟨hsig, n, List.mem_cons_of_mem _ hn, hrest⟩

theorem checkStocks_spec (h : (s.checkStocks cfg c cart res is).2 = false) {n : ℕ} (hn : n ∈ is) :
    s.isRecordAccessible c (s.stockHead n).writeTimestamp = true ∨
      ∃ wr ∈ (s.checkStocks cfg c cart res is).1, ∃ versionOffset,
        wr.verb = .retrieveStockOlderVersion n (res.itemIDs n) cart.wID versionOffset := by
  induction is with
  | nil => cases hn
  | cons i is ih =>
    simp only [State.checkStocks] at h ⊢
    split at h
    · rename_i hvisible
      rw [if_pos hvisible]
      rcases List.mem_cons.1 hn with rfl | hn
      · exact .inl hvisible
      · exact ih h hn
    · rename_i hhidden
      rw [if_neg hhidden]
      split at h
      · cases h
      · rename_i ind hind
        simp only
        rcases List.mem_cons.1 hn with rfl | hn
        · exact .inr ⟨_, List.mem_cons_self, ind, rfl⟩
        · rcases ih h hn with hvisible | ⟨wr, hwr, hverb⟩
          · exact .inl hvisible
          · exact .inr ⟨wr, List.mem_cons_of_mem _ hwr, hverb⟩

/-! ## Steps of the CPU -/

theorem Quiet.finish (h : Quiet s) {outcome : Outcome} {lowStockCnt : ℕ}
    (hresult : outcome = .COMMITTED →
      CountsVisible cfg c (s.finish cart outcome lowStockCnt) ⟨cart, outcome, lowStockCnt⟩) :
    Inv cfg c (s.finish cart outcome lowStockCnt) := by
  have hquiet : Quiet (s.finish cart outcome lowStockCnt) := ⟨h.outstanding, h.sendCQ, h.counted⟩
  refine ⟨hquiet.accounted, hquiet, ?_⟩
  rintro r hr hcommitted
  cases hr
  exact hresult hcommitted

theorem Quiet.askLastOrders (h : Quiet s) : Inv cfg c (s.askLastOrders cart) := by
  have hquiet : Quiet { s with phase := .lastOrders cart } := ⟨h.outstanding, h.sendCQ, h.counted⟩
  exact ⟨hquiet.post (covered_of_signaled (by simp)), trivial⟩

theorem Quiet.afterDistrict (h : Quiet s) : Inv cfg c (s.afterDistrict cfg c cart) := by
  unfold State.afterDistrict
  split
  · exact h.askLastOrders
  · split
    · exact h.finish nofun
    · have hquiet : Quiet { s with phase := .olderDistrict cart } :=
        ⟨h.outstanding, h.sendCQ, h.counted⟩
      exact ⟨hquiet.post (covered_of_signaled (by simp)), trivial⟩

theorem Quiet.afterLastOrders (h : Quiet s) : Inv cfg c (s.afterLastOrders cfg cart) := by
  unfold State.afterLastOrders
  simp only
  split
  · exact h.finish nofun
  · split
    · rename_i hzero
      have hnone : ∀ i, ¬ i < (s.resp cfg cart).orderlinesCnt := fun i => by omega
      refine h.finish fun _ => ⟨fun i hi => absurd hi (hnone i),
        fun i hi => absurd hi (hnone i), ?_⟩
      have hcount : s.lowStockCnt cfg cart = 0 := by rw [State.lowStockCnt, hzero]; rfl
      exact hcount.symm
    · rename_i hne
      have hquiet : Quiet { s with phase := .stocks cart } := ⟨h.outstanding, h.sendCQ, h.counted⟩
      refine ⟨hquiet.post (covered_stockPosts cart hne), ?_⟩
      have hposts : (({ s with phase := .stocks cart } : State).post
          (State.stockPosts cart (s.resp cfg cart))).outstanding =
          State.stockPosts cart (s.resp cfg cart) := by
        simp [State.post, h.outstanding]
      constructor
      · intro wr hwr
        rw [hposts] at hwr
        obtain ⟨i, -, hwr⟩ := List.mem_flatMap.1 hwr
        rcases List.mem_pair.1 hwr with rfl | rfl
        · exact ⟨i, .inl rfl⟩
        · exact ⟨i, .inr rfl⟩
      · intro i hi
        left
        rw [hposts]
        exact ⟨_, List.mem_flatMap.2 ⟨i, List.mem_range.2 hi, List.mem_cons_self⟩, rfl⟩

theorem Quiet.afterStocks (h : Quiet s) (hstage : StocksRead cfg s cart)
    (hok : ∀ i < (s.resp cfg cart).orderlinesCnt, ∀ ind,
      ¬ s.isRecordAccessible c (s.stockHead i).writeTimestamp = true →
      s.findValidVersion c s.stockTS cfg.VERSION_NUM = some ind →
      s.findValidVersion c (s.listOf cfg i) cfg.VERSION_NUM =
        some ind) : Inv cfg c (s.afterStocks cfg c cart) := by
  have hquiet : Quiet { s with
      phase := .olderStocks cart (s.checkStocks cfg c cart (s.resp cfg cart)
        (List.range (s.resp cfg cart).orderlinesCnt)).2
      headsRead := s.stockHead } := ⟨h.outstanding, h.sendCQ, h.counted⟩
  refine ⟨hquiet.post (covered_of_signaled fun wr hwr => (mem_checkStocks hwr).1), fun hflag => ?_⟩
  have hposts : (s.afterStocks cfg c cart).outstanding = (s.checkStocks cfg c cart (s.resp cfg cart)
      (List.range (s.resp cfg cart).orderlinesCnt)).1 := by
    simp [State.afterStocks, State.post, h.outstanding]
  have hspec : ∀ i < (s.resp cfg cart).orderlinesCnt, _ := fun i hi =>
    checkStocks_spec hflag (List.mem_range.2 hi)
  have hfound : ∀ wr ∈ (s.checkStocks cfg c cart (s.resp cfg cart)
      (List.range (s.resp cfg cart).orderlinesCnt)).1, ∃ i ind, ind < cfg.VERSION_NUM ∧
      s.isRecordAccessible c (s.listOf cfg i ind) = true ∧
      wr.verb = .retrieveStockOlderVersion i ((s.resp cfg cart).itemIDs i) cart.wID ind := by
    intro wr hwr
    obtain ⟨-, i, hi, ind, hhidden, hind, hverb⟩ := mem_checkStocks hwr
    obtain ⟨hlt, hvisible⟩ := State.findValidVersion_eq_some c s
      (hok i (List.mem_range.1 hi) ind hhidden hind)
    exact ⟨i, ind, hlt, hvisible, hverb⟩
  refine ⟨fun wr hwr => ?_, fun i hi => ?_, fun i hi => ?_⟩
  · rw [hposts] at hwr
    obtain ⟨i, ind, -, hvisible, hverb⟩ := hfound wr hwr
    exact ⟨i, ind, hvisible, hverb⟩
  · rcases hspec i hi with hvisible | ⟨wr, hwr, hverb⟩
    · refine .inr ⟨(hstage.heads i hi).resolve_left fun ⟨wr, hwr, _⟩ => ?_, hvisible⟩
      rw [h.outstanding] at hwr
      cases hwr
    · refine .inl ⟨wr, ?_, hverb⟩
      rw [hposts]
      exact hwr
  · rcases hspec i hi with hvisible | ⟨wr, hwr, versionOffset, hverb⟩
    · exact .inl hvisible
    · obtain ⟨n, ind, hlt, hvisible, hverb'⟩ := hfound wr hwr
      obtain rfl : i = n := (Verb.retrieveStockOlderVersion.inj (hverb.symm.trans hverb')).1
      exact .inr ⟨ind, hlt, hvisible⟩

theorem Quiet.afterOlderStocks (h : Quiet s) {abortFlag : Bool}
    (hstage : abortFlag = false → StocksChecked cfg c s cart) :
    Inv cfg c (s.afterOlderStocks cfg cart abortFlag) := by
  cases abortFlag with
  | true => exact h.finish nofun
  | false =>
    have hchecked := hstage rfl
    refine h.finish fun _ => ⟨fun i hi => ?_, hchecked.listed, rfl⟩
    refine (hchecked.versions i hi).resolve_left fun ⟨wr, hwr, _⟩ => ?_
    rw [h.outstanding] at hwr
    cases hwr

theorem Inv.cpu (h : Inv cfg c s) (hstep : s.cpu cfg c = some s')
    (hok : meets cfg c s .cpu = true) : Inv cfg c s' := by
  unfold State.cpu at hstep
  split at hstep
  · rename_i hpoll
    have hquiet := h.accounted.poll hpoll
    have hstage := h.stage
    unfold StageOK at hstage
    cases hphase : s.phase with
    | idle last =>
      rw [hphase] at hstep
      cases hstep
    | district cart =>
      rw [hphase] at hstep
      cases hstep
      exact hquiet.afterDistrict
    | olderDistrict cart =>
      rw [hphase] at hstep
      cases hstep
      exact hquiet.askLastOrders
    | lastOrders cart =>
      rw [hphase] at hstep
      cases hstep
      exact hquiet.afterLastOrders
    | stocks cart =>
      rw [hphase] at hstep hstage
      cases hstep
      refine hquiet.afterStocks ⟨hstage.requests, hstage.heads⟩ fun i hi ind hhidden hind => ?_
      simp only [meets, hphase] at hok
      rw [show s.findValidVersion c s.stockTS cfg.VERSION_NUM = some ind from hind] at hok
      have hown := List.all_eq_true.1 hok i (List.mem_range.2 hi)
      exact beq_iff_eq.1 ((Bool.or_eq_true_iff.1 hown).resolve_left hhidden)
    | olderStocks cart abortFlag =>
      rw [hphase] at hstep hstage
      cases hstep
      exact hquiet.afterOlderStocks fun hflag =>
        ⟨(hstage hflag).requests, (hstage hflag).versions, (hstage hflag).listed⟩
  · cases hstep

/-! ## Runs -/

theorem nic_eq_some (h : s.nic cfg i answer = some s') :
    ∃ wr, Fifo.Oldest (WorkRequest.qp cfg) s.outstanding i wr ∧ s' = s.effect cfg i wr answer := by
  unfold State.nic at h
  split at h
  · cases h
  · rename_i wr hwr
    split at h
    · rename_i hold
      refine ⟨wr, ⟨hwr, fun w hw => ?_⟩, (Option.some.inj h).symm⟩
      simpa using List.all_eq_true.1 hold w hw
    · cases h

theorem Quiet.start (h : Quiet s) (vec : ClientID → UInt32) : Inv cfg c (s.start cfg cart vec) := by
  have hdistrict : Covered cfg [⟨.retrieveDistrict cart.wID cart.dID, false⟩,
      ⟨.retrieveDistrictPointerList cart.wID cart.dID, true⟩] := by
    refine covered_concat [_] rfl fun wr hwr => ?_
    rw [List.mem_singleton.1 hwr]
    rfl
  unfold State.start
  simp only
  split
  · have hquiet : Quiet { s with phase := .district cart, localTimestampVector := vec } :=
      ⟨h.outstanding, h.sendCQ, h.counted⟩
    exact ⟨hquiet.post hdistrict, trivial⟩
  · have hquiet : Quiet { s with phase := .district cart } :=
      ⟨h.outstanding, h.sendCQ, h.counted⟩
    refine ⟨?_, trivial⟩
    rw [post_post]
    refine hquiet.post fun wr hwr => ?_
    rcases List.mem_append.1 hwr with hwr | hwr
    · -- the READ of the vector is alone on its queue pair
      rw [List.mem_singleton.1 hwr]
      refine (Fifo.ended_of_forall (by simp)).append (Fifo.ended_of_lane_eq_nil ?_)
      exact Fifo.lane_eq_nil_iff.2 (by simp [WorkRequest.qp])
    · refine Fifo.Ended.append_right (fun hnil => ?_) (hdistrict wr hwr)
      exact Fifo.lane_eq_nil_iff.1 hnil wr hwr rfl

theorem start_eq_some (h : step cfg c s (.start cart) = some s') :
    ∃ last vec, s.phase = .idle last ∧ s' = s.start cfg cart vec := by
  simp only [step] at h
  split at h
  · rename_i last vec hphase _ _
    split at h
    · exact ⟨last, vec, hphase, (Option.some.inj h).symm⟩
    · cases h
  · cases h

/-- What is known of a StockLevel is not about the system. -/
theorem Inv.system (h : Inv cfg c s) (sys : RdmaSnapshot.State) :
    Inv cfg c { s with sys := sys } := by
  obtain ⟨haccounted, hstage⟩ := h
  refine ⟨⟨haccounted.count, haccounted.covered⟩, ?_⟩
  unfold StageOK at hstage ⊢
  cases hphase : s.phase with
  | idle last =>
    rw [hphase] at hstage
    refine ⟨⟨hstage.1.outstanding, hstage.1.sendCQ, hstage.1.counted⟩, fun r hr hcommitted => ?_⟩
    have hcounts := hstage.2 r hr hcommitted
    exact ⟨hcounts.visible, hcounts.listed, hcounts.count⟩
  | district | olderDistrict | lastOrders => trivial
  | stocks cart =>
    rw [hphase] at hstage
    exact ⟨hstage.requests, hstage.heads⟩
  | olderStocks cart abortFlag =>
    rw [hphase] at hstage
    exact fun hflag =>
      ⟨(hstage hflag).requests, (hstage hflag).versions, (hstage hflag).listed⟩

abbrev Meets (cfg : Config) (c : ClientID) : State → Prop :=
  Transition.ReachableBy (Init cfg) (step cfg c) fun s a => meets cfg c s a = true

theorem sys_cpu (h : s.cpu cfg c = some s') : s'.sys = s.sys := by
  unfold State.cpu at h
  split at h
  · cases hphase : s.phase with
    | idle last =>
      rw [hphase] at h
      cases h
    | district cart =>
      rw [hphase] at h
      cases h
      unfold State.afterDistrict
      split
      · rfl
      · split <;> rfl
    | olderDistrict cart =>
      rw [hphase] at h
      cases h
      rfl
    | lastOrders cart =>
      rw [hphase] at h
      cases h
      unfold State.afterLastOrders
      simp only
      split
      · rfl
      · split <;> rfl
    | stocks cart =>
      rw [hphase] at h
      cases h
      rfl
    | olderStocks cart abortFlag =>
      rw [hphase] at h
      cases h
      cases abortFlag <;> rfl
  · cases h

/-- The system is in a state it reaches by itself, and every step keeps the invariant. -/
theorem inv_of_meets (hs : Meets cfg c s) :
    Reachable cfg s.sys ∧ (NoWrap cfg s.sys → Inv cfg c s) := by
  refine hs.invariant (fun t (ht : Init cfg t) => (⟨.start ht.sys, fun _ => ?_⟩ :
    Reachable cfg t.sys ∧ (NoWrap cfg t.sys → Inv cfg c t))) ?_
  · have hquiet : Quiet t := ⟨ht.outstanding, ht.sendCQ, ht.outstandingSendCompletionCnt⟩
    refine ⟨hquiet.accounted, ?_⟩
    unfold StageOK
    rw [ht.phase]
    exact ⟨hquiet, fun r hr => by cases hr⟩
  · rintro t a t' - ⟨hreach, hinv⟩ hok hstep
    cases a with
    | system a =>
      simp only [step] at hstep
      split at hstep
      · cases hstep
      · obtain ⟨sys, hsys, rfl⟩ := Option.map_eq_some_iff.1 hstep
        exact ⟨hreach.next trivial hsys, fun hwrap => (hinv (hwrap.of_step hsys)).system sys⟩
    | start cart =>
      obtain ⟨last, vec, hphase, rfl⟩ := start_eq_some hstep
      have hsys : (t.start cfg cart vec).sys = t.sys := by
        simp only [State.start]
        split <;> rfl
      rw [hsys]
      refine ⟨hreach, fun hwrap => ?_⟩
      have hstage := (hinv hwrap).stage
      unfold StageOK at hstage
      rw [hphase] at hstage
      exact hstage.1.start vec
    | nic i answer =>
      obtain ⟨wr, ho, rfl⟩ := nic_eq_some hstep
      rw [sys_effect]
      exact ⟨hreach, fun hwrap => (hinv hwrap).effect (inv_of_reachable hreach hwrap)
        (rowsNamed_of_reachable hreach hwrap) ho hok⟩
    | cpu =>
      rw [sys_cpu hstep]
      exact ⟨hreach, fun hwrap => (hinv hwrap).cpu hstep hok⟩

/-- **Only visible versions are counted.** In every run, with any transactions of other clients in
between, whose steps all meet the condition: a StockLevel that has committed has compared with the
threshold, for every item of the list, a visible version of the stock of that item; and a stock
without a visible version would have made it abort. -/
theorem countsVisible_of_meets (hs : Meets cfg c s) (hwrap : NoWrap cfg s.sys)
    (hphase : s.phase = .idle (some r)) (hcommitted : r.outcome = .COMMITTED) :
    CountsVisible cfg c s r := by
  have hstage := ((inv_of_meets hs).2 hwrap).stage
  unfold StageOK at hstage
  rw [hphase] at hstage
  exact hstage.2 r rfl hcommitted

/-! ## Two StockLevels -/

/-- Rows as the servers create them; of every stock there are 18 pieces. -/
def startRow : (k : Key) → Row k.table
  | .district wID dID => ⟨dID, wID, 0, "", 0⟩
  | .stock wID iID => ⟨iID, wID, 18, 0, 0, 0, fun _ => ""⟩
  | k => plainRow k

theorem names_startRow (k : Key) : k.Names (startRow k) := by
  cases k <;> simp [startRow, plainRow, Key.Names]

def beginning : State where
  sys := populate (.shipped 2) startRow plainBuffer
  phase := .idle none
  outstanding := []
  sendCQ := 0
  outstandingSendCompletionCnt := 0
  localTimestampVector _ := 0
  districtHead := ⟨initialTS, plainRow (.district 0 0)⟩
  districtTS _ := .empty
  stockHead _ := ⟨initialTS, plainRow (.stock 0 0)⟩
  stockTS _ := .empty
  last20OrdersResp _ := ⟨false, 0, fun _ => 0⟩
  headsRead _ := ⟨initialTS, plainRow (.stock 0 0)⟩

theorem init_beginning : Init (.shipped 2) beginning :=
  ⟨init_populate plainBuffer fun k _ => names_startRow k, rfl, rfl, rfl, rfl⟩

def fiveItems : Last20OrdersIndexResMsg := ⟨true, 5, fun i => UInt32.ofNat (i + 1)⟩

/-- The next `n` requests of the StockLevel take effect, then the CPU leaves its poll loop. -/
def exchange (n : ℕ) : List Action := List.replicate n (.nic 0 fiveItems) ++ [Action.cpu]

/-- A StockLevel acquires its snapshot, then `n` NewOrders are executed one after the other, then it
goes on. -/
def schedule (n : ℕ) : List Action :=
  [Action.system (.readerRead 0), Action.start ⟨0, 0, 15⟩] ++
    (List.replicate n (newOrderAlone 0)).flatten.map Action.system ++
    exchange 2 ++ exchange 1 ++ exchange 10 ++ exchange 5

def Ended (lowStockCnt : ℕ) (s : State) : Prop :=
  s.phase = .idle (some ⟨⟨0, 0, 15⟩, .COMMITTED, lowStockCnt⟩) ∧ s.sys.trace.length ≤ 200

instance (lowStockCnt : ℕ) : DecidablePred (Ended lowStockCnt) := fun _ =>
  inferInstanceAs (Decidable (_ ∧ _))

theorem Ended.noWrap {lowStockCnt : ℕ} (h : Ended lowStockCnt s) : NoWrap (.shipped 2) s.sys := by
  have hlength := h.2
  refine noWrap_of_length ?_
  calc (s.sys.trace.length + 1) * 2 ≤ (200 + 1) * 2 := by omega
    _ ≤ 2 ^ 32 := by decide

/-- With one NewOrder in between, the versions from before it are counted. -/
theorem countsVisible_one_newOrder :
    ∃ s, CountsVisible (.shipped 2) 1 s ⟨⟨0, 0, 15⟩, .COMMITTED, 0⟩ ∧
      (s.resp (.shipped 2) ⟨0, 0, 15⟩).orderlinesCnt = 5 := by
  obtain ⟨s, hs, hended, hcnt⟩ := Transition.exists_reachableBy (step (.shipped 2) 1)
    (fun s a => meets (.shipped 2) 1 s a = true) init_beginning (schedule 1)
    (fun s => Ended 0 s ∧ (s.resp (.shipped 2) ⟨0, 0, 15⟩).orderlinesCnt = 5) (by decide +kernel)
  exact ⟨s, countsVisible_of_meets hs hended.noWrap hended.1 rfl, hcnt⟩

def twoOrders : IndexState :=
  TPCCDB.handleRegisterOrderIndexRequest
    (TPCCDB.handleRegisterOrderIndexRequest .empty
      ⟨0, OrderLines.firstDistrict, 0, 0, 0, 0, 0, 5⟩)
    ⟨0, OrderLines.firstDistrict, 0, 1, 1, 1, 5, 5⟩

/-- **Versions that are not visible are counted.** After two NewOrders the entry of a list that is
visible has index 1, and slot 1 of the ring holds what the first NewOrder has written: five stocks
count as low, although none is in the snapshot. The answer of the index is that of the handler. -/
theorem not_countsVisible_two_newOrders :
    ∃ s, Transition.Reachable (Init (.shipped 2)) (step (.shipped 2) 1) s ∧
      NoWrap (.shipped 2) s.sys ∧
      s.phase = .idle (some ⟨⟨0, 0, 15⟩, .COMMITTED, 5⟩) ∧
      (TPCCDB.handleLast20OrdersIndexRequest (fun n => (s.sys.mem (.orderLine 0 n)).head) twoOrders
        OrderLines.firstDistrict s.districtHead.body.D_NEXT_O_ID.toUInt32
        ⟨false, 0, fun _ => 0⟩).items = (s.resp (.shipped 2) ⟨0, 0, 15⟩).items ∧
      ¬ CountsVisible (.shipped 2) 1 s ⟨⟨0, 0, 15⟩, .COMMITTED, 5⟩ := by
  obtain ⟨s, hs, hended, hitems, hcnt, hhidden⟩ := Transition.exists_reachableBy
    (step (.shipped 2) 1) (fun _ _ => True) init_beginning (schedule 2)
    (fun s => Ended 5 s ∧
      (TPCCDB.handleLast20OrdersIndexRequest (fun n => (s.sys.mem (.orderLine 0 n)).head) twoOrders
        OrderLines.firstDistrict s.districtHead.body.D_NEXT_O_ID.toUInt32
        ⟨false, 0, fun _ => 0⟩).items = (s.resp (.shipped 2) ⟨0, 0, 15⟩).items ∧
      0 < (s.resp (.shipped 2) ⟨0, 0, 15⟩).orderlinesCnt ∧
      s.isRecordAccessible 1 (s.stockHead 0).writeTimestamp = false) (by decide +kernel)
  refine ⟨s, hs, hended.noWrap, hended.1, hitems, fun hcounts => ?_⟩
  have hvisible := (hcounts.visible 0 hcnt).2
  rw [hhidden] at hvisible
  cases hvisible

end StockLevel

end RdmaSnapshot
