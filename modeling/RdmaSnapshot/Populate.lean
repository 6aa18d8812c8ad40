import RdmaSnapshot.Trace

/-!
# Populated states and schedules

An initial state for every choice of the rows the servers are populated with, and the states that a
schedule leads to from there. A schedule that can be executed shows that a state is reachable.
-/

namespace RdmaSnapshot

variable {cfg : Config} {s s' : State} {a : Action}

def Record.populate (cfg : Config) (k : Key) (row : Row k.table) : Record (Row k.table) where
  head := ⟨if k.table.isPopulated then initialTS else .empty, row⟩
  tsList := List.replicate cfg.VERSION_NUM .empty
  olderVersions _ := ⟨.empty, row⟩

/-- A client before its first transaction, with buffers that hold `buffer`. -/
def Client.populate (cfg : Config) (buffer : (t : Table) → Row t) : Client where
  nextEpoch := 1
  t := 0
  localTimestampVector _ := 0
  localMemory _ :=
    { head := fun t _ => ⟨.empty, buffer t⟩
      pointerList := fun _ => List.replicate cfg.VERSION_NUM .empty
      lockRegion := fun _ _ => .empty }
  nextOrderID := 0
  nextNewOrderID := 0
  nextOrderLineID := 0
  nextHistoryID := 0
  customerNameResp _ := ⟨false, 0⟩
  oldestUndeliveredOrderResp _ := ⟨false, false, 0, 0, 0, 0, 0, 0⟩
  outstanding := []
  sendCQ := 0
  outstandingSendCompletionCnt := 0
  phase := .idle

/-- The state in which the servers hold `rows`, the buffers of the clients hold `buffer`, and
nothing has happened. -/
def populate (cfg : Config) (rows : (k : Key) → Row k.table) (buffer : (t : Table) → Row t) :
    State where
  mem k := .populate cfg k (rows k)
  lastCommittedVector _ := 0
  readerVector _ := none
  clients _ := .populate cfg buffer
  trace := []
  populated k := .populate cfg k (rows k)

theorem init_populate {rows : (k : Key) → Row k.table} (buffer : (t : Table) → Row t)
    (hnames : ∀ k : Key, k.table.isPopulated = true → k.Names (rows k)) :
    Init cfg (populate cfg rows buffer) where
  mem := rfl
  records k := ⟨rfl, hnames k, rfl, fun _ => rfl⟩
  lastCommittedVector := rfl
  readerVector := rfl
  clients _ := ⟨rfl, rfl, fun _ _ _ => rfl, fun _ _ => rfl, rfl, rfl, rfl, rfl, rfl, rfl, rfl, rfl⟩
  trace := rfl

/-! ## Schedules -/

theorem trace_length_of_step (h : step cfg s a = some s') :
    s'.trace.length = s.trace.length + 1 := by
  obtain ⟨e, he⟩ := trace_of_step h
  simp [he]

theorem trace_length_of_runIf {check : State → Action → Bool} {as : List Action}
    (h : Transition.runIf (step cfg) check s as = some s') :
    s'.trace.length = s.trace.length + as.length := by
  induction as generalizing s with
  | nil =>
    obtain rfl : s = s' := Option.some.inj h
    rfl
  | cons a as ih =>
    rw [Transition.runIf] at h
    split at h
    · obtain ⟨t, ht, hrun⟩ := Option.bind_eq_some_iff.1 h
      rw [ih hrun, trace_length_of_step ht, List.length_cons]
      omega
    · cases h

theorem noWrap_of_epochs
    (h : ∀ c, c.toNat < cfg.clientCnt → (s.acquired c + 1) * cfg.clientCnt ≤ 2 ^ 32) :
    NoWrap cfg s := by
  intro c hc
  calc s.acquired c * cfg.clientCnt + c.toNat
      < s.acquired c * cfg.clientCnt + cfg.clientCnt := Nat.add_lt_add_left hc _
    _ = (s.acquired c + 1) * cfg.clientCnt := (Nat.succ_mul _ _).symm
    _ ≤ 2 ^ 32 := h c hc

/-- In a short run no commit timestamp wraps. -/
theorem noWrap_of_length (h : (s.trace.length + 1) * cfg.clientCnt ≤ 2 ^ 32) : NoWrap cfg s := by
  refine noWrap_of_epochs fun c _ => Nat.le_trans (Nat.mul_le_mul_right _ ?_) h
  exact Nat.succ_le_succ List.countP_le_length

theorem exists_reachableBy (ok : State → Action → Prop) [∀ s a, Decidable (ok s a)]
    (hs : Init cfg s) (as : List Action) (p : State → Bool)
    (hwrap : (s.trace.length + as.length + 1) * cfg.clientCnt ≤ 2 ^ 32)
    (h : (Transition.runIf (step cfg) (fun s a => decide (ok s a)) s as).any p = true) :
    ∃ s', ReachableBy cfg ok s' ∧ NoWrap cfg s' ∧ p s' = true := by
  obtain ⟨s', hrun, hp⟩ := (Option.any_eq_true ..).1 h
  exact ⟨s', Transition.ReachableBy.runIf (fun _ _ => of_decide_eq_true) (.start hs) hrun,
    noWrap_of_length (by rwa [trace_length_of_runIf hrun]), hp⟩

/-- What holds at the end of a schedule holds in a reachable state. -/
theorem exists_reachable (hs : Init cfg s) (as : List Action) (p : State → Bool)
    (hwrap : (s.trace.length + as.length + 1) * cfg.clientCnt ≤ 2 ^ 32)
    (h : (Transition.run (step cfg) s as).any p = true) :
    ∃ s', Reachable cfg s' ∧ NoWrap cfg s' ∧ p s' = true :=
  exists_reachableBy (fun _ _ => True) hs as p hwrap h

/-- What holds of the states before and after a step of a schedule and at its end holds of some
run. -/
theorem exists_leads (hs : Init cfg s) (before : List Action) (a : Action) (after : List Action)
    (p : State → State → Bool)
    (hwrap : (s.trace.length + before.length + 1 + after.length + 1) * cfg.clientCnt ≤ 2 ^ 32)
    (h : ((Transition.run (step cfg) s before).any fun s₀ => (step cfg s₀ a).any fun s₁ =>
      (Transition.run (step cfg) s₁ after).any (p s₁)) = true) :
    ∃ s₀ s₁ s₂, Reachable cfg s₀ ∧ step cfg s₀ a = some s₁ ∧
      Transition.Leads (step cfg) s₁ s₂ ∧ NoWrap cfg s₂ ∧ p s₁ s₂ = true := by
  obtain ⟨s₀, hs₀, h⟩ := (Option.any_eq_true _ _).1 h
  obtain ⟨s₁, hs₁, h⟩ := (Option.any_eq_true _ _).1 h
  obtain ⟨s₂, hs₂, h⟩ := (Option.any_eq_true _ _).1 h
  refine ⟨s₀, s₁, s₂, .run hs hs₀, hs₁, .run rfl hs₂, noWrap_of_length ?_, h⟩
  rwa [trace_length_of_runIf hs₂, trace_length_of_step hs₁, trace_length_of_runIf hs₀]

/-! ## The configuration of the repository -/

/-- `config.hpp` and `TPCCUtil.hpp`, for `clientCnt` clients of one group. -/
def Config.shipped (clientCnt : ℕ) : Config where
  VERSION_NUM := 3
  SERVER_CNT := 3
  WAREHOUSE_PER_SERVER := 50
  DISTRICT_PER_WAREHOUSE := 10
  ORDER_BUFFER_PER_CLIENT := 1000
  HISTORY_BUFFER_PER_CLIENT := 1000
  ORDER_MAX_OL_CNT := 15
  LOG_REPLICATION_DEGREE := 2
  SNAPSHOT_ACQUISITION_TYPE := .COMPLETE
  SNAPSHOT_CLUSTER_MODE := true
  APPLY_COMMUTATIVE_UPDATES := true
  RECOVERY_ENABLED := true
  clientCnt := clientCnt
  instanceNum _ := 0
  formatAmount _ := "0.00"
  idealOlderVersions := false

theorem zero_lt_warehouses : (0 : UInt16).toNat < 50 := by decide

theorem zero_lt_districts : (0 : UInt8).toNat < 10 := by decide

def plainRow : (k : Key) → Row k.table
  | .warehouse wID => ⟨wID, "", 0⟩
  | .district wID dID => ⟨dID, wID, 3000, "", 0⟩
  | .customer wID dID cID => ⟨cID, dID, wID, "GC", 0, 0, 1, 0, []⟩
  | .stock wID iID => ⟨iID, wID, 50, 0, 0, 0, fun _ => ""⟩
  | .item _ iID => ⟨iID, 0⟩
  | .order _ _ => ⟨0, 0, 0, 0, 0, 0, 0⟩
  | .newOrder _ _ => ⟨0, 0, 0⟩
  | .orderLine _ _ => ⟨0, 0, 0, 0, 0, 0, 0, 0, 0, ""⟩
  | .history _ _ => ⟨0, 0, 0, 0, 0, 0, ""⟩

theorem names_plainRow (k : Key) : k.Names (plainRow k) := by
  cases k <;> simp [plainRow, Key.Names]

/-- What the buffers of the clients hold at the start. -/
def plainBuffer : (t : Table) → Row t
  | .warehouse => plainRow (.warehouse 0)
  | .district => plainRow (.district 0 0)
  | .customer => plainRow (.customer 0 0 0)
  | .stock => plainRow (.stock 0 0)
  | .item => plainRow (.item 0 0)
  | .order => plainRow (.order 0 0)
  | .newOrder => plainRow (.newOrder 0 0)
  | .orderLine => plainRow (.orderLine 0 0)
  | .history => plainRow (.history 0 0)

def plain (cfg : Config) : State := populate cfg plainRow plainBuffer

theorem init_plain (cfg : Config) : Init cfg (plain cfg) :=
  init_populate plainBuffer fun k _ => names_plainRow k

/-- The next `n` requests of client `c` take effect, in posting order; index lookups are answered
by `answer`. -/
def nics (c : ClientID) (n : ℕ) (answer : IndexAnswer) : List Action :=
  List.replicate n (.nic c 0 answer)

def IndexAnswer.nothing : IndexAnswer := ⟨⟨false, 0⟩, ⟨false, false, 0, 0, 0, 0, 0, 0⟩⟩

/-- A cart of five lines, all of the home warehouse. -/
def plainCart : NewOrderCart where
  wID := 0
  dID := 0
  cID := 0
  items := [⟨1, 0, 5⟩, ⟨2, 0, 5⟩, ⟨3, 0, 5⟩, ⟨4, 0, 5⟩, ⟨5, 0, 5⟩]
  items_ne_nil := by decide
  items_nodup := by decide

def newOrderAlone (c : ClientID) : List Action :=
  [Action.readerRead 0, Action.newOrder c plainCart] ++ nics c 21 .nothing ++
    [Action.cpu c, Action.cpu c] ++ nics c 5 .nothing ++ [Action.cpu c] ++ nics c 2 .nothing ++
    [Action.cpu c] ++ nics c 11 .nothing ++ [Action.cpu c] ++ nics c 12 .nothing ++
    [Action.cpu c] ++ nics c 1 .nothing ++ [Action.cpu c] ++ nics c 1 .nothing ++ [Action.cpu c]

/-- The index finds the first order that client 0 stored with the plain cart. -/
def IndexAnswer.firstOrder : IndexAnswer := ⟨⟨false, 0⟩, ⟨true, true, 3000, 0, 0, 0, 0, 5⟩⟩

def plainDelivery : DeliveryCart := ⟨0, 1, 0⟩

/-- Client `c` starts a Delivery, and its iteration for district 0 delivers the order of five lines
that the index answers, undisturbed. -/
def deliveryAlone (c : ClientID) (answer : IndexAnswer) : List Action :=
  [Action.readerRead 0, Action.delivery c plainDelivery, Action.cpu c] ++ nics c 1 answer ++
    [Action.cpu c] ++ nics c 3 answer ++ [Action.cpu c] ++ nics c 2 answer ++ [Action.cpu c] ++
    nics c 8 answer ++ [Action.cpu c] ++ nics c 2 answer ++ [Action.cpu c] ++ nics c 10 answer ++
    [Action.cpu c] ++ nics c 1 answer ++ [Action.cpu c] ++ nics c 1 answer ++ [Action.cpu c]

end RdmaSnapshot
