import RdmaSnapshot.IndexSequence
import RdmaSnapshot.Lib.Transition

/-!
# Index requests executed concurrently

The `n` index threads of a server execute the handlers at the same time. Every operation on a hash
index or a priority queue is one atomic step; between two steps of a handler any steps of other
threads may happen. The state carries the trace of calls and returns, newest first.
-/

namespace RdmaSnapshot

variable {cfg : Config} {n : ℕ}

/-- The next operation of a thread in `handleRegisterOrderIndexRequest`; the first four belong to
`registerOrderInIndex`. -/
inductive RegisterOrderPC
  | putOrderAddress | hasKey | getExisting | putLargest
  | putNewOrderAddress | pushNewOrder | putOrderLineAddress
  deriving DecidableEq

/-- The next operation of a thread in `handleLargestOrderIndexRequest`. -/
inductive LargestOrderPC
  | getBiggest | getOrderAddress | getOrderLineAddress
  deriving DecidableEq

/-- The next operation of a thread in `handleOldestUndeliveredOrderIndexRequest`. -/
inductive OldestUndeliveredOrderPC
  | getOldest | getOrderAddress | getOrderLineAddress
  deriving DecidableEq

/-- A thread of the server; `res` is the response of a lookup as far as it was filled in. -/
inductive IndexThread (cfg : Config)
  | idle
  | registerOrder (req : RegisterOrderRequest cfg) (pc : RegisterOrderPC)
  | largestOrder (d : DistrictID cfg) (cID : UInt32) (res : LargestOrderForCustomerIndexRespMsg)
      (pc : LargestOrderPC)
  | oldestUndeliveredOrder (d : DistrictID cfg) (res : OldestUndeliveredOrderIndexResMsg)
      (pc : OldestUndeliveredOrderPC)
  | registerDelivery (d : DistrictID cfg) (oID : UInt32)

inductive IndexReply
  | registered
  | largestOrder (res : LargestOrderForCustomerIndexRespMsg)
  | oldestUndeliveredOrder (res : OldestUndeliveredOrderIndexResMsg)
  deriving DecidableEq

inductive IndexEvent (cfg : Config) (n : ℕ)
  | called (thread : Fin n) (call : IndexCall cfg)
  /-- `registerOrderInIndex` has returned. -/
  | orderRegistered (thread : Fin n) (req : RegisterOrderRequest cfg)
  | returned (thread : Fin n) (call : IndexCall cfg) (reply : IndexReply)
  deriving DecidableEq

/-- The indexes of a server, its threads and the trace. -/
structure IndexServer (cfg : Config) (n : ℕ) where
  ix : IndexState
  threads : Fin n → IndexThread cfg
  trace : List (IndexEvent cfg n)

/-- The scheduler's choices: a thread receives a request, with whatever its response buffer
holds, or executes its next operation. -/
inductive IndexAction (cfg : Config) (n : ℕ)
  | registerOrder (thread : Fin n) (req : RegisterOrderRequest cfg)
  | largestOrder (thread : Fin n) (d : DistrictID cfg) (cID : UInt32)
      (res : LargestOrderForCustomerIndexRespMsg)
  | oldestUndeliveredOrder (thread : Fin n) (d : DistrictID cfg)
      (res : OldestUndeliveredOrderIndexResMsg)
  | registerDelivery (thread : Fin n) (d : DistrictID cfg) (oID : UInt32)
  | run (thread : Fin n)

namespace IndexServer

variable (s : IndexServer cfg n) (i : Fin n)

/-- Thread `i` has changed the indexes to `ix`, goes on as `thread`, and `events` happened. -/
def set (ix : IndexState) (thread : IndexThread cfg) (events : List (IndexEvent cfg n)) :
    IndexServer cfg n where
  ix := ix
  threads := Function.update s.threads i thread
  trace := events ++ s.trace

/-- A thread that waits for a request starts a handler. -/
def call (thread : IndexThread cfg) (call : IndexCall cfg) : Option (IndexServer cfg n) :=
  match s.threads i with
  | .idle => some (s.set i s.ix thread [.called i call])
  | _ => none

/-- The next operation of `handleRegisterOrderIndexRequest`. -/
def runRegisterOrder (req : RegisterOrderRequest cfg) : RegisterOrderPC → Option (IndexServer cfg n)
  | .putOrderAddress => some (s.set i (s.ix.putOrderAddress req) (.registerOrder req .hasKey) [])
  | .hasKey =>
    some (s.set i s.ix (.registerOrder req
      (if (s.ix.largestOrderForCustomer_Index req.district.ind).hasKey req.cID then .getExisting
        else .putLargest)) [])
  | .getExisting =>
    match (s.ix.largestOrderForCustomer_Index req.district.ind).get req.cID with
    | some existingOID =>
      if existingOID < req.oID then some (s.set i s.ix (.registerOrder req .putLargest) [])
      else some (s.set i s.ix (.registerOrder req .putNewOrderAddress) [.orderRegistered i req])
    | none => none -- no key is ever erased
  | .putLargest =>
    some (s.set i (s.ix.putLargest req) (.registerOrder req .putNewOrderAddress)
      [.orderRegistered i req])
  | .putNewOrderAddress =>
    some (s.set i (s.ix.putNewOrderAddress req) (.registerOrder req .pushNewOrder) [])
  | .pushNewOrder =>
    some (s.set i (s.ix.pushNewOrder req) (.registerOrder req .putOrderLineAddress) [])
  | .putOrderLineAddress =>
    some (s.set i (s.ix.putOrderLineAddress req) .idle
      [.returned i (.registerOrder req) .registered])

def answerLargestOrder (d : DistrictID cfg) (cID : UInt32)
    (res : LargestOrderForCustomerIndexRespMsg) : IndexServer cfg n :=
  s.set i s.ix .idle [.returned i (.largestOrder d cID) (.largestOrder res)]

/-- The next operation of `handleLargestOrderIndexRequest`. -/
def runLargestOrder (d : DistrictID cfg) (cID : UInt32)
    (res : LargestOrderForCustomerIndexRespMsg) : LargestOrderPC → IndexServer cfg n
  | .getBiggest =>
    match OrderTable.getBiggestOrderIDForCustomer s.ix d cID with
    | none => s.answerLargestOrder i d cID { res with isSuccessful := false }
    | some oID => s.set i s.ix (.largestOrder d cID { res with oID := oID } .getOrderAddress) []
  | .getOrderAddress =>
    match OrderTable.getOrderMemoryAddress s.ix d res.oID with
    | none => s.answerLargestOrder i d cID { res with isSuccessful := false }
    | some order =>
      s.set i s.ix (.largestOrder d cID
        { res with
          clientWhoOrdered := order.clientWhoOrdered
          orderRegionOffset := order.clientRegionOffset } .getOrderLineAddress) []
  | .getOrderLineAddress =>
    match OrderLineTable.getOrderLineMemoryAddress s.ix d res.oID with
    | none => s.answerLargestOrder i d cID { res with isSuccessful := false }
    | some lines =>
      s.answerLargestOrder i d cID
        { res with
          clientWhoOrdered := lines.clientWhoOrdered
          orderLineRegionOffset := lines.clientRegionOffset
          numOfOrderlines := lines.orderLineCnt
          isSuccessful := true }

def answerOldestUndeliveredOrder (d : DistrictID cfg) (res : OldestUndeliveredOrderIndexResMsg)
    (existUndeliveredOrder : Bool) : IndexServer cfg n :=
  s.set i s.ix .idle [.returned i (.oldestUndeliveredOrder d) (.oldestUndeliveredOrder
    { res with isSuccessful := true, existUndeliveredOrder := existUndeliveredOrder })]

/-- The next operation of `handleOldestUndeliveredOrderIndexRequest`. -/
def runOldestUndeliveredOrder (d : DistrictID cfg) (res : OldestUndeliveredOrderIndexResMsg) :
    OldestUndeliveredOrderPC → IndexServer cfg n
  | .getOldest =>
    match NewOrderTable.getOldestNewOrder s.ix d with
    | none => s.answerOldestUndeliveredOrder i d res false
    | some newOrder =>
      s.set i s.ix (.oldestUndeliveredOrder d
        { res with
          oID := newOrder.oID
          clientWhoOrdered := newOrder.clientWhoOrdered
          newOrderRegionOffset := newOrder.clientRegionOffset } .getOrderAddress) []
  | .getOrderAddress =>
    match OrderTable.getOrderMemoryAddress s.ix d res.oID with
    | none => s.answerOldestUndeliveredOrder i d res false
    | some order =>
      s.set i s.ix (.oldestUndeliveredOrder d
        { res with
          clientWhoOrdered := order.clientWhoOrdered
          orderRegionOffset := order.clientRegionOffset } .getOrderLineAddress) []
  | .getOrderLineAddress =>
    match OrderLineTable.getOrderLineMemoryAddress s.ix d res.oID with
    | none => s.answerOldestUndeliveredOrder i d res false
    | some lines =>
      s.answerOldestUndeliveredOrder i d
        { res with
          clientWhoOrdered := lines.clientWhoOrdered
          orderLineRegionOffset := lines.clientRegionOffset
          numOfOrderlines := lines.orderLineCnt } true

def runThread : Option (IndexServer cfg n) :=
  match s.threads i with
  | .idle => none
  | .registerOrder req pc => s.runRegisterOrder i req pc
  | .largestOrder d cID res pc => some (s.runLargestOrder i d cID res pc)
  | .oldestUndeliveredOrder d res pc => some (s.runOldestUndeliveredOrder i d res pc)
  | .registerDelivery d oID =>
    some (s.set i (s.ix.popNewOrder d) .idle [.returned i (.registerDelivery d oID) .registered])

def step : IndexAction cfg n → Option (IndexServer cfg n)
  | .registerOrder i req => s.call i (.registerOrder req .putOrderAddress) (.registerOrder req)
  | .largestOrder i d cID res =>
    s.call i (.largestOrder d cID res .getBiggest) (.largestOrder d cID)
  | .oldestUndeliveredOrder i d res =>
    s.call i (.oldestUndeliveredOrder d res .getOldest) (.oldestUndeliveredOrder d)
  | .registerDelivery i d oID => s.call i (.registerDelivery d oID) (.registerDelivery d oID)
  | .run i => s.runThread i

def start : IndexServer cfg n := ⟨.empty, fun _ => .idle, []⟩

abbrev ReachableBy (ok : IndexServer cfg n → IndexAction cfg n → Prop) : IndexServer cfg n → Prop :=
  Transition.ReachableBy (· = start) step ok

theorem exists_reachableBy (ok : IndexServer cfg n → IndexAction cfg n → Prop)
    [∀ s a, Decidable (ok s a)] (as : List (IndexAction cfg n)) (P : IndexServer cfg n → Prop)
    [DecidablePred P]
    (h : (Transition.runIf step (fun s a => decide (ok s a)) start as).any
      (fun s => decide (P s)) = true) : ∃ s, ReachableBy ok s ∧ P s :=
  @Transition.exists_reachableBy _ _ (· = start) step ok _ start rfl as P _ h

end IndexServer

/-! ## What a step can do -/

def IndexEvent.registeredOrder : IndexEvent cfg n → Option (RegisterOrderRequest cfg)
  | .orderRegistered _ req => some req
  | _ => none

def IndexEvent.calledOrder : IndexEvent cfg n → Option (RegisterOrderRequest cfg)
  | .called _ (.registerOrder req) => some req
  | _ => none

def IndexEvent.completedOrder : IndexEvent cfg n → Option (RegisterOrderRequest cfg)
  | .returned _ (.registerOrder req) _ => some req
  | _ => none

def IndexThread.registering : IndexThread cfg → Option (RegisterOrderRequest cfg)
  | .registerOrder req .putOrderAddress | .registerOrder req .hasKey
  | .registerOrder req .getExisting | .registerOrder req .putLargest => some req
  | _ => none

/-- The thread has returned from `registerOrderInIndex` and has yet to register the rows of the
other tables. -/
def IndexThread.finishing : IndexThread cfg → Option (RegisterOrderRequest cfg)
  | .registerOrder req .putNewOrderAddress | .registerOrder req .pushNewOrder
  | .registerOrder req .putOrderLineAddress => some req
  | _ => none


/-- The steps of thread `i`, with what they leave: the indexes, the thread and the events.
Lookups of the oldest order and deliveries are not told apart. -/
inductive ServerStep (s : IndexServer cfg n) :
    IndexAction cfg n → Fin n → IndexState → IndexThread cfg → List (IndexEvent cfg n) → Prop
  | callRegisterOrder (i : Fin n) (req : RegisterOrderRequest cfg) (h : s.threads i = .idle) :
      ServerStep s (.registerOrder i req) i s.ix (.registerOrder req .putOrderAddress)
        [.called i (.registerOrder req)]
  | callLargestOrder (i : Fin n) (d : DistrictID cfg) (cID : UInt32)
      (res : LargestOrderForCustomerIndexRespMsg) (h : s.threads i = .idle) :
      ServerStep s (.largestOrder i d cID res) i s.ix (.largestOrder d cID res .getBiggest)
        [.called i (.largestOrder d cID)]
  | putOrderAddress (i : Fin n) (req : RegisterOrderRequest cfg)
      (h : s.threads i = .registerOrder req .putOrderAddress) :
      ServerStep s (.run i) i (s.ix.putOrderAddress req) (.registerOrder req .hasKey) []
  | hasKey (i : Fin n) (req : RegisterOrderRequest cfg)
      (h : s.threads i = .registerOrder req .hasKey)
      (hkey : s.ix.largestOrderForCustomer_Index req.district.ind req.cID ≠ none) :
      ServerStep s (.run i) i s.ix (.registerOrder req .getExisting) []
  | hasNoKey (i : Fin n) (req : RegisterOrderRequest cfg)
      (h : s.threads i = .registerOrder req .hasKey)
      (hkey : s.ix.largestOrderForCustomer_Index req.district.ind req.cID = none) :
      ServerStep s (.run i) i s.ix (.registerOrder req .putLargest) []
  | getSmaller (i : Fin n) (req : RegisterOrderRequest cfg) (existingOID : UInt32)
      (h : s.threads i = .registerOrder req .getExisting)
      (hget : s.ix.largestOrderForCustomer_Index req.district.ind req.cID = some existingOID)
      (hlt : existingOID < req.oID) :
      ServerStep s (.run i) i s.ix (.registerOrder req .putLargest) []
  | getLarger (i : Fin n) (req : RegisterOrderRequest cfg) (existingOID : UInt32)
      (h : s.threads i = .registerOrder req .getExisting)
      (hget : s.ix.largestOrderForCustomer_Index req.district.ind req.cID = some existingOID)
      (hle : req.oID ≤ existingOID) :
      ServerStep s (.run i) i s.ix (.registerOrder req .putNewOrderAddress)
        [.orderRegistered i req]
  | putLargest (i : Fin n) (req : RegisterOrderRequest cfg)
      (h : s.threads i = .registerOrder req .putLargest) :
      ServerStep s (.run i) i (s.ix.putLargest req) (.registerOrder req .putNewOrderAddress)
        [.orderRegistered i req]
  | putNewOrderAddress (i : Fin n) (req : RegisterOrderRequest cfg)
      (h : s.threads i = .registerOrder req .putNewOrderAddress) :
      ServerStep s (.run i) i (s.ix.putNewOrderAddress req) (.registerOrder req .pushNewOrder) []
  | pushNewOrder (i : Fin n) (req : RegisterOrderRequest cfg)
      (h : s.threads i = .registerOrder req .pushNewOrder) :
      ServerStep s (.run i) i (s.ix.pushNewOrder req) (.registerOrder req .putOrderLineAddress) []
  | putOrderLineAddress (i : Fin n) (req : RegisterOrderRequest cfg)
      (h : s.threads i = .registerOrder req .putOrderLineAddress) :
      ServerStep s (.run i) i (s.ix.putOrderLineAddress req) .idle
        [.returned i (.registerOrder req) .registered]
  | getBiggest (i : Fin n) (d : DistrictID cfg) (cID : UInt32)
      (res : LargestOrderForCustomerIndexRespMsg) (oID : UInt32)
      (h : s.threads i = .largestOrder d cID res .getBiggest)
      (hget : s.ix.largestOrderForCustomer_Index d.ind cID = some oID) :
      ServerStep s (.run i) i s.ix (.largestOrder d cID { res with oID := oID } .getOrderAddress) []
  | getOrderAddress (i : Fin n) (d : DistrictID cfg) (cID : UInt32)
      (res : LargestOrderForCustomerIndexRespMsg) (order : OrderAddressIdentifier)
      (h : s.threads i = .largestOrder d cID res .getOrderAddress)
      (hget : s.ix.orderToMemoryAddress_Index d.ind res.oID = some order) :
      ServerStep s (.run i) i s.ix (.largestOrder d cID
        { res with
          clientWhoOrdered := order.clientWhoOrdered
          orderRegionOffset := order.clientRegionOffset } .getOrderLineAddress) []
  | getOrderLineAddress (i : Fin n) (d : DistrictID cfg) (cID : UInt32)
      (res : LargestOrderForCustomerIndexRespMsg) (lines : OrderLineAddressIdentifier)
      (h : s.threads i = .largestOrder d cID res .getOrderLineAddress)
      (hget : s.ix.orderLineToMemoryAddress_Index d.ind res.oID = some lines) :
      ServerStep s (.run i) i s.ix .idle [.returned i (.largestOrder d cID) (.largestOrder
        { res with
          clientWhoOrdered := lines.clientWhoOrdered
          orderLineRegionOffset := lines.clientRegionOffset
          numOfOrderlines := lines.orderLineCnt
          isSuccessful := true })]
  /-- A key that a lookup needs is missing. -/
  | missing (i : Fin n) (d : DistrictID cfg) (cID : UInt32)
      (res res' : LargestOrderForCustomerIndexRespMsg) (pc : LargestOrderPC)
      (h : s.threads i = .largestOrder d cID res pc)
      (hget : match pc with
        | .getBiggest => s.ix.largestOrderForCustomer_Index d.ind cID = none
        | .getOrderAddress => s.ix.orderToMemoryAddress_Index d.ind res.oID = none
        | .getOrderLineAddress => s.ix.orderLineToMemoryAddress_Index d.ind res.oID = none) :
      ServerStep s (.run i) i s.ix .idle [.returned i (.largestOrder d cID) (.largestOrder res')]
  | other (a : IndexAction cfg n) (i : Fin n) (ix : IndexState) (thread : IndexThread cfg)
      (events : List (IndexEvent cfg n))
      (hlargest : ix.largestOrderForCustomer_Index = s.ix.largestOrderForCustomer_Index)
      (horder : ix.orderToMemoryAddress_Index = s.ix.orderToMemoryAddress_Index)
      (hlines : ix.orderLineToMemoryAddress_Index = s.ix.orderLineToMemoryAddress_Index)
      (hbefore : (s.threads i).registering = none ∧ (s.threads i).finishing = none)
      (hregister : ∀ req pc, thread ≠ .registerOrder req pc)
      (hlookup : ∀ d cID res pc, thread ≠ .largestOrder d cID res pc)
      (hcalled : events.filterMap IndexEvent.calledOrder = [])
      (hregistered : events.filterMap IndexEvent.registeredOrder = [])
      (hcompleted : events.filterMap IndexEvent.completedOrder = [])
      (hanswers : ∀ j d cID reply, .returned j (.largestOrder d cID) reply ∉ events) :
      ServerStep s a i ix thread events

namespace IndexServer

variable {s s' : IndexServer cfg n} {a : IndexAction cfg n}

theorem call_eq_some {i : Fin n} {thread : IndexThread cfg} {call : IndexCall cfg}
    (h : s.call i thread call = some s') :
    s.threads i = .idle ∧ s' = s.set i s.ix thread [.called i call] := by
  unfold IndexServer.call at h
  split at h
  · exact ⟨‹_›, (Option.some.inj h).symm⟩
  · cases h

theorem runRegisterOrder_cases {i : Fin n} {req : RegisterOrderRequest cfg} {pc : RegisterOrderPC}
    (hth : s.threads i = .registerOrder req pc) (h : s.runRegisterOrder i req pc = some s') :
    ∃ ix thread events, s' = s.set i ix thread events ∧
      ServerStep s (.run i) i ix thread events := by
  cases pc with
  | hasKey =>
    cases h
    simp only [HashIndex.hasKey]
    obtain hget | ⟨oID, hget⟩ := Option.eq_none_or_eq_some
      (s.ix.largestOrderForCustomer_Index req.district.ind req.cID)
    · exact ⟨_, _, _, by simp [hget], .hasNoKey i req hth hget⟩
    · exact ⟨_, _, _, by simp [hget], .hasKey i req hth (by simp [hget])⟩
  | getExisting =>
    simp only [runRegisterOrder, HashIndex.get] at h
    split at h
    · rename_i existingOID hget
      split at h <;> cases h
      · exact ⟨_, _, _, rfl, .getSmaller i req existingOID hth hget ‹_›⟩
      · exact ⟨_, _, _, rfl, .getLarger i req existingOID hth hget (UInt32.not_lt.1 ‹_›)⟩
    · cases h
  | putOrderAddress =>
    cases h
    exact ⟨_, _, _, rfl, .putOrderAddress i req hth⟩
  | putLargest =>
    cases h
    exact ⟨_, _, _, rfl, .putLargest i req hth⟩
  | putNewOrderAddress =>
    cases h
    exact ⟨_, _, _, rfl, .putNewOrderAddress i req hth⟩
  | pushNewOrder =>
    cases h
    exact ⟨_, _, _, rfl, .pushNewOrder i req hth⟩
  | putOrderLineAddress =>
    cases h
    exact ⟨_, _, _, rfl, .putOrderLineAddress i req hth⟩

theorem runLargestOrder_cases {i : Fin n} {d : DistrictID cfg} {cID : UInt32}
    {res : LargestOrderForCustomerIndexRespMsg} {pc : LargestOrderPC}
    (hth : s.threads i = .largestOrder d cID res pc) :
    ∃ ix thread events, s.runLargestOrder i d cID res pc = s.set i ix thread events ∧
      ServerStep s (.run i) i ix thread events := by
  cases pc with
  | getBiggest =>
    simp only [runLargestOrder, OrderTable.getBiggestOrderIDForCustomer, HashIndex.get]
    split
    · exact ⟨_, _, _, rfl, .missing i d cID res _ .getBiggest hth ‹_›⟩
    · exact ⟨_, _, _, rfl, .getBiggest i d cID res _ hth ‹_›⟩
  | getOrderAddress =>
    simp only [runLargestOrder, OrderTable.getOrderMemoryAddress, HashIndex.get]
    split
    · exact ⟨_, _, _, rfl, .missing i d cID res _ .getOrderAddress hth ‹_›⟩
    · exact ⟨_, _, _, rfl, .getOrderAddress i d cID res _ hth ‹_›⟩
  | getOrderLineAddress =>
    simp only [runLargestOrder, OrderLineTable.getOrderLineMemoryAddress, HashIndex.get]
    split
    · exact ⟨_, _, _, rfl, .missing i d cID res _ .getOrderLineAddress hth ‹_›⟩
    · exact ⟨_, _, _, rfl, .getOrderLineAddress i d cID res _ hth ‹_›⟩

theorem runOldestUndeliveredOrder_cases {i : Fin n} {d : DistrictID cfg}
    {res : OldestUndeliveredOrderIndexResMsg} {pc : OldestUndeliveredOrderPC}
    (hth : s.threads i = .oldestUndeliveredOrder d res pc) :
    ∃ ix thread events, s.runOldestUndeliveredOrder i d res pc = s.set i ix thread events ∧
      ServerStep s (.run i) i ix thread events := by
  have hbefore : (s.threads i).registering = none ∧ (s.threads i).finishing = none := by
    simp [hth, IndexThread.registering, IndexThread.finishing]
  cases pc with
  | getOldest | getOrderAddress | getOrderLineAddress =>
    simp only [runOldestUndeliveredOrder]
    split <;> exact ⟨_, _, _, rfl, .other _ i _ _ _ rfl rfl rfl hbefore (by simp) (by simp) rfl rfl
      rfl (by simp)⟩

/-- **Inversion.** Every step is one of the steps of a thread. -/
theorem step_cases (h : s.step a = some s') :
    ∃ i ix thread events, s' = s.set i ix thread events ∧ ServerStep s a i ix thread events := by
  cases a with
  | registerOrder i req =>
    obtain ⟨hidle, rfl⟩ := call_eq_some h
    exact ⟨i, _, _, _, rfl, .callRegisterOrder i req hidle⟩
  | largestOrder i d cID res =>
    obtain ⟨hidle, rfl⟩ := call_eq_some h
    exact ⟨i, _, _, _, rfl, .callLargestOrder i d cID res hidle⟩
  | oldestUndeliveredOrder i d res =>
    obtain ⟨hidle, rfl⟩ := call_eq_some h
    exact ⟨i, _, _, _, rfl, .other _ i _ _ _ rfl rfl rfl (by rw [hidle]; exact ⟨rfl, rfl⟩)
      (by simp) (by simp) rfl rfl rfl (by simp)⟩
  | registerDelivery i d oID =>
    obtain ⟨hidle, rfl⟩ := call_eq_some h
    exact ⟨i, _, _, _, rfl, .other _ i _ _ _ rfl rfl rfl (by rw [hidle]; exact ⟨rfl, rfl⟩)
      (by simp) (by simp) rfl rfl rfl (by simp)⟩
  | run i =>
    simp only [step, runThread] at h
    split at h
    · cases h
    · exact ⟨i, runRegisterOrder_cases ‹_› h⟩
    · cases h
      exact ⟨i, runLargestOrder_cases ‹_›⟩
    · cases h
      exact ⟨i, runOldestUndeliveredOrder_cases ‹_›⟩
    · rename_i d oID hth
      cases h
      exact ⟨i, _, _, _, rfl, .other _ i _ _ _ rfl rfl rfl (by rw [hth]; exact ⟨rfl, rfl⟩)
        (by simp) (by simp) rfl rfl rfl (by simp)⟩

end IndexServer

/-! ## The orders of a run -/

namespace IndexServer

variable {s s' : IndexServer cfg n} {a : IndexAction cfg n} {i : Fin n} {ix : IndexState}
  {thread : IndexThread cfg} {events : List (IndexEvent cfg n)}

def registeredOrders (s : IndexServer cfg n) : List (RegisterOrderRequest cfg) :=
  s.trace.filterMap IndexEvent.registeredOrder

def calledOrders (s : IndexServer cfg n) : List (RegisterOrderRequest cfg) :=
  s.trace.filterMap IndexEvent.calledOrder

def completedOrders (s : IndexServer cfg n) : List (RegisterOrderRequest cfg) :=
  s.trace.filterMap IndexEvent.completedOrder

@[simp] theorem set_ix : (s.set i ix thread events).ix = ix := rfl

@[simp] theorem set_threads_self : (s.set i ix thread events).threads i = thread := by
  simp [set]

theorem set_threads_of_ne {j : Fin n} (h : j ≠ i) :
    (s.set i ix thread events).threads j = s.threads j := by
  simp [set, h]

@[simp] theorem registeredOrders_set : (s.set i ix thread events).registeredOrders =
    events.filterMap IndexEvent.registeredOrder ++ s.registeredOrders := by
  simp [set, registeredOrders]

@[simp] theorem calledOrders_set : (s.set i ix thread events).calledOrders =
    events.filterMap IndexEvent.calledOrder ++ s.calledOrders := by
  simp [set, calledOrders]

@[simp] theorem completedOrders_set : (s.set i ix thread events).completedOrders =
    events.filterMap IndexEvent.completedOrder ++ s.completedOrders := by
  simp [set, completedOrders]

theorem exists_thread_iff (P : IndexThread cfg → Prop) (i : Fin n) :
    (∃ j, P (s.threads j)) ↔ P (s.threads i) ∨ ∃ j, j ≠ i ∧ P (s.threads j) := by
  constructor
  · rintro ⟨j, hj⟩
    by_cases hji : j = i
    · exact .inl (hji ▸ hj)
    · exact .inr ⟨j, hji, hj⟩
  · rintro (hi | ⟨j, -, hj⟩)
    exacts [⟨i, hi⟩, ⟨j, hj⟩]

theorem exists_thread_set_iff (P : IndexThread cfg → Prop) :
    (∃ j, P ((s.set i ix thread events).threads j)) ↔
      P thread ∨ ∃ j, j ≠ i ∧ P (s.threads j) := by
  rw [exists_thread_iff P i, set_threads_self]
  refine or_congr Iff.rfl (exists_congr fun j => and_congr_right fun hj => ?_)
  rw [set_threads_of_ne hj]

end IndexServer

section Orders

variable {s s' : IndexServer cfg n} {a : IndexAction cfg n} {i : Fin n} {ix : IndexState}
  {thread : IndexThread cfg} {events : List (IndexEvent cfg n)}

theorem ServerStep.registering_iff (hstep : ServerStep s a i ix thread events)
    (req : RegisterOrderRequest cfg) :
    (req ∈ events.filterMap IndexEvent.calledOrder ∨ (s.threads i).registering = some req) ↔
      req ∈ events.filterMap IndexEvent.registeredOrder ∨ thread.registering = some req := by
  cases hstep with
  | other a i ix thread events _ _ _ hbefore hregister _ hcalled hregistered =>
    rw [hcalled, hregistered, hbefore.1]
    cases thread with
    | registerOrder req pc => exact absurd rfl (hregister req pc)
    | _ => rfl
  | _ =>
    simp_all [IndexEvent.calledOrder, IndexEvent.registeredOrder, IndexThread.registering,
      @eq_comm _ req]

theorem ServerStep.finishing_iff (hstep : ServerStep s a i ix thread events)
    (req : RegisterOrderRequest cfg) :
    (req ∈ events.filterMap IndexEvent.registeredOrder ∨ (s.threads i).finishing = some req) ↔
      req ∈ events.filterMap IndexEvent.completedOrder ∨ thread.finishing = some req := by
  cases hstep with
  | other a i ix thread events _ _ _ hbefore hregister _ _ hregistered hcompleted =>
    rw [hregistered, hcompleted, hbefore.2]
    cases thread with
    | registerOrder req pc => exact absurd rfl (hregister req pc)
    | _ => rfl
  | _ =>
    simp_all [IndexEvent.registeredOrder, IndexEvent.completedOrder, IndexThread.finishing,
      @eq_comm _ req]

/-- Where the called registrations of a run are. -/
structure OrdersInv (s : IndexServer cfg n) : Prop where
  called_iff : ∀ req, req ∈ s.calledOrders ↔
    req ∈ s.registeredOrders ∨ ∃ i, (s.threads i).registering = some req
  registered_iff : ∀ req, req ∈ s.registeredOrders ↔
    req ∈ s.completedOrders ∨ ∃ i, (s.threads i).finishing = some req

theorem or_moved {entered before left after others old new : Prop}
    (hold : old ↔ new ∨ before ∨ others) (hmove : entered ∨ before ↔ left ∨ after) :
    entered ∨ old ↔ (left ∨ new) ∨ after ∨ others := by
  calc entered ∨ old ↔ (entered ∨ before) ∨ new ∨ others := by rw [hold]; tauto
    _ ↔ (left ∨ after) ∨ new ∨ others := by rw [hmove]
    _ ↔ (left ∨ new) ∨ after ∨ others := by tauto

theorem OrdersInv.step (h : OrdersInv s) (hstep : ServerStep s a i ix thread events) :
    OrdersInv (s.set i ix thread events) where
  called_iff := by
    intro req
    have hbefore := h.called_iff req
    rw [IndexServer.exists_thread_iff (·.registering = some req) i] at hbefore
    rw [IndexServer.exists_thread_set_iff (·.registering = some req),
      IndexServer.calledOrders_set, IndexServer.registeredOrders_set, List.mem_append,
      List.mem_append]
    exact or_moved hbefore (hstep.registering_iff req)
  registered_iff := by
    intro req
    have hbefore := h.registered_iff req
    rw [IndexServer.exists_thread_iff (·.finishing = some req) i] at hbefore
    rw [IndexServer.exists_thread_set_iff (·.finishing = some req),
      IndexServer.registeredOrders_set, IndexServer.completedOrders_set, List.mem_append,
      List.mem_append]
    exact or_moved hbefore (hstep.finishing_iff req)

theorem ordersInv_of_reachable {ok : IndexServer cfg n → IndexAction cfg n → Prop}
    (h : IndexServer.ReachableBy ok s) : OrdersInv s := by
  refine h.invariant (P := OrdersInv) ?_ ?_
  · rintro s rfl
    exact ⟨fun req => by simp [IndexServer.start, IndexServer.calledOrders,
        IndexServer.registeredOrders, IndexThread.registering],
      fun req => by simp [IndexServer.start, IndexServer.registeredOrders,
        IndexServer.completedOrders, IndexThread.finishing]⟩
  · intro s a s' _ ih _ ha
    obtain ⟨i, ix, thread, events, rfl, hstep⟩ := IndexServer.step_cases ha
    exact ih.step hstep

end Orders

/-! ## Handlers that are not disturbed -/

section Alone

variable {s s₀ : IndexServer cfg n} {i : Fin n} {ix ix' : IndexState}
  {thread thread' : IndexThread cfg} {events events' : List (IndexEvent cfg n)}

abbrev Alone (s : IndexServer cfg n) (i : Fin n) : IndexServer cfg n → Prop :=
  Transition.ReachableBy (· = s) IndexServer.step fun _ a => a = .run i

theorem Alone.run (h : Alone s₀ i (s.set i ix thread events))
    (hrun : (s.set i ix thread events).runThread i =
      some ((s.set i ix thread events).set i ix' thread' events')) :
    Alone s₀ i (s.set i ix' thread' (events' ++ events)) := by
  have hset : (s.set i ix thread events).set i ix' thread' events' =
      s.set i ix' thread' (events' ++ events) := by
    simp [IndexServer.set]
  rw [hset] at hrun
  exact h.next rfl hrun

theorem runThread_set_registerOrder {req : RegisterOrderRequest cfg} {pc : RegisterOrderPC} :
    (s.set i ix (.registerOrder req pc) events).runThread i =
      (s.set i ix (.registerOrder req pc) events).runRegisterOrder i req pc := by
  simp [IndexServer.runThread]

theorem runThread_set_largestOrder {d : DistrictID cfg} {cID : UInt32}
    {res : LargestOrderForCustomerIndexRespMsg} {pc : LargestOrderPC} :
    (s.set i ix (.largestOrder d cID res pc) events).runThread i =
      some ((s.set i ix (.largestOrder d cID res pc) events).runLargestOrder i d cID res pc) := by
  simp [IndexServer.runThread]

theorem Alone.registerOrderInIndex {req : RegisterOrderRequest cfg}
    (h : Alone s₀ i (s.set i ix (.registerOrder req .putOrderAddress) events)) :
    ∃ events', Alone s₀ i (s.set i (OrderTable.registerOrderInIndex ix req)
      (.registerOrder req .putNewOrderAddress) events') := by
  have hput := h.run (runThread_set_registerOrder.trans rfl)
  simp only [OrderTable.registerOrderInIndex, HashIndex.hasKey, HashIndex.get]
  obtain hget | ⟨oID, hget⟩ := Option.eq_none_or_eq_some
    ((ix.putOrderAddress req).largestOrderForCustomer_Index req.district.ind req.cID)
  · have hkey : Alone s₀ i (s.set i (ix.putOrderAddress req) (.registerOrder req .putLargest) _) :=
      hput.run (runThread_set_registerOrder.trans (by
        simp [IndexServer.runRegisterOrder, HashIndex.hasKey, hget]; rfl))
    simp only [hget]
    exact ⟨_, hkey.run (runThread_set_registerOrder.trans rfl)⟩
  · have hkey : Alone s₀ i (s.set i (ix.putOrderAddress req) (.registerOrder req .getExisting) _) :=
      hput.run (runThread_set_registerOrder.trans (by
        simp [IndexServer.runRegisterOrder, HashIndex.hasKey, hget]; rfl))
    simp only [hget]
    by_cases hlt : oID < req.oID
    · have hsmaller : Alone s₀ i
          (s.set i (ix.putOrderAddress req) (.registerOrder req .putLargest) _) :=
        hkey.run (runThread_set_registerOrder.trans (by
          simp [IndexServer.runRegisterOrder, HashIndex.get, hget, hlt]; rfl))
      simp only [hlt]
      exact ⟨_, hsmaller.run (runThread_set_registerOrder.trans rfl)⟩
    · simp only [hlt]
      exact ⟨_, hkey.run (runThread_set_registerOrder.trans (by
        simp [IndexServer.runRegisterOrder, HashIndex.get, hget, hlt]; rfl))⟩

theorem Alone.finish {req : RegisterOrderRequest cfg}
    (h : Alone s₀ i (s.set i ix (.registerOrder req .putNewOrderAddress) events)) :
    ∃ events', Alone s₀ i (s.set i (OrderLineTable.registerOrderLineInIndex
      (NewOrderTable.registerNewOrderInIndex ix req) req) .idle events') := by
  have hput := h.run (runThread_set_registerOrder.trans rfl)
  have hpush := hput.run (runThread_set_registerOrder.trans rfl)
  exact ⟨_, hpush.run (runThread_set_registerOrder.trans rfl)⟩

/-- A registration that is not disturbed is the sequential handler. -/
theorem registerOrder_alone (hidle : s.threads i = .idle) (req : RegisterOrderRequest cfg) :
    ∃ s₀ events, s.step (.registerOrder i req) = some s₀ ∧
      Alone s₀ i (s.set i (TPCCDB.handleRegisterOrderIndexRequest s.ix req) .idle events) := by
  have hcall : s.step (.registerOrder i req) = some (s.set i s.ix
      (.registerOrder req .putOrderAddress) [.called i (.registerOrder req)]) := by
    simp [IndexServer.step, IndexServer.call, hidle]
  obtain ⟨_, hregistered⟩ := Alone.registerOrderInIndex (.start rfl)
  obtain ⟨events, hfinish⟩ := hregistered.finish
  exact ⟨_, events, hcall, hfinish⟩

/-- A lookup that is not disturbed is the sequential handler. -/
theorem largestOrder_alone (hidle : s.threads i = .idle) (d : DistrictID cfg) (cID : UInt32)
    (res : LargestOrderForCustomerIndexRespMsg) :
    ∃ s₀, s.step (.largestOrder i d cID res) = some s₀ ∧
      Alone s₀ i (s.set i s.ix .idle [.returned i (.largestOrder d cID)
        (.largestOrder (TPCCDB.handleLargestOrderIndexRequest s.ix d cID res)),
        .called i (.largestOrder d cID)]) := by
  have hcall : s.step (.largestOrder i d cID res) = some (s.set i s.ix
      (.largestOrder d cID res .getBiggest) [.called i (.largestOrder d cID)]) := by
    simp [IndexServer.step, IndexServer.call, hidle]
  refine ⟨_, hcall, ?_⟩
  have hstart : Alone _ i (s.set i s.ix (.largestOrder d cID res .getBiggest)
    [.called i (.largestOrder d cID)]) := .start rfl
  simp only [TPCCDB.handleLargestOrderIndexRequest]
  cases hbiggest : OrderTable.getBiggestOrderIDForCustomer s.ix d cID with
  | none =>
    exact hstart.run (runThread_set_largestOrder.trans (by
      simp [IndexServer.runLargestOrder, hbiggest]; rfl))
  | some oID =>
    have hoID : Alone _ i (s.set i s.ix (.largestOrder d cID { res with oID := oID }
        .getOrderAddress) _) :=
      hstart.run (runThread_set_largestOrder.trans (by
        simp [IndexServer.runLargestOrder, hbiggest]; rfl))
    cases horder : OrderTable.getOrderMemoryAddress s.ix d oID with
    | none =>
      simp only [horder]
      exact hoID.run (runThread_set_largestOrder.trans (by
        simp [IndexServer.runLargestOrder, horder]; rfl))
    | some order =>
      have haddress : Alone _ i (s.set i s.ix (.largestOrder d cID
          { res with
            oID := oID
            clientWhoOrdered := order.clientWhoOrdered
            orderRegionOffset := order.clientRegionOffset } .getOrderLineAddress) _) :=
        hoID.run (runThread_set_largestOrder.trans (by
          simp [IndexServer.runLargestOrder, horder]; rfl))
      simp only [horder]
      cases hlines : OrderLineTable.getOrderLineMemoryAddress s.ix d oID with
      | none | some lines =>
        exact haddress.run (runThread_set_largestOrder.trans (by
          simp [IndexServer.runLargestOrder, hlines]; rfl))

end Alone

end RdmaSnapshot
