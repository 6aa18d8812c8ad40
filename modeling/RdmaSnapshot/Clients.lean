import RdmaSnapshot.Records

/-!
# The invariant of a client

What is true of a client at any time, in terms of the phase it is in: which queue pairs its poll
loop covers, which heads it is reading and which it is locking, which WRITEs it has yet to post if
it commits; and how its buffers and its outstanding work requests relate to the history of the
records.
-/

namespace RdmaSnapshot

open DBExecutor

variable {cfg : Config} {s s' : State} {c : ClientID} {cl : Client} {k : Key}

/-! ## Phases -/

def Phase.cls : Phase → TrxClass
  | .idle | .newOrder _ _ => .newOrder
  | .payment _ _ => .payment
  | .delivery _ _ _ => .delivery

def Client.buffers (cl : Client) : LocalMemory := cl.localMemory cl.phase.cls

def Client.copy (cl : Client) (k : Key) (b : ℕ) : Version (Row k.table) :=
  cl.buffers.head k.table b

/-- The result of the CAS whose reply landed in entry `b` of the lock region of a table. -/
def Client.lockResult (cl : Client) (k : Key) (b : ℕ) : Timestamp :=
  cl.buffers.lockRegion k.table b

theorem Client.copy_of_buffers {cl : Client} {m : LocalMemory} (h : cl.buffers = m) (k : Key)
    (b : ℕ) : cl.copy k b = m.head k.table b := by rw [copy, h]

theorem Client.lockResult_of_buffers {cl : Client} {m : LocalMemory} (h : cl.buffers = m) (k : Key)
    (b : ℕ) : cl.lockResult k b = m.lockRegion k.table b := by rw [lockResult, h]

def Config.qpOf (cfg : Config) (wID : UInt16) : QueuePair := .server (cfg.getServerNum wID)

/-- The queue pairs whose newest request is signaled, so that they are empty once the poll loop is
over. In its last phases a Payment covers only the server of its History row. -/
def Client.waits (cfg : Config) (cl : Client) : List QueuePair :=
  .oracle :: match cl.phase with
  | .idle => []
  | .newOrder cart (.nextOID _) => [cfg.qpOf cart.wID]
  | .newOrder cart _ => cfg.qpOf cart.wID :: cart.items.map fun item => cfg.qpOf item.OL_SUPPLY_W_ID
  | .payment cart .readSet => [cfg.qpOf cart.wID]
  | .payment _ .install =>
    [cfg.qpOf ((cl.localMemory .payment).head .history 0).body.H_W_ID]
  | .payment _ .publish => []
  | .payment cart _ => [cfg.qpOf cart.wID, cfg.qpOf cart.residentWarehouseID]
  | .delivery _ _ .begin => []
  | .delivery cart _ _ => [cfg.qpOf cart.wID]

/-- The phases in which nothing is counted by `DBExecutor`. -/
def Phase.isQuiet : Phase → Bool
  | .idle | .delivery _ _ .begin => true
  | p => p.isLog

/-- The stock heads of a NewOrder and the buffer entries they are read into. -/
def NewOrderTransaction.stockSlots (cart : NewOrderCart) : List (Key × ℕ) :=
  cart.items.zipIdx.map fun p => (.stock p.1.OL_SUPPLY_W_ID p.1.I_ID, p.2)

/-- The versioned heads a transaction has asked for, and the buffer entries they are read into, up
to the moment it locks. -/
def Phase.readSet : Phase → List (Key × ℕ)
  | .newOrder cart .readSet | .newOrder cart .snapshot | .newOrder cart (.olderVersions _) =>
    [(.warehouse cart.wID, 0), (.district cart.wID cart.dID, 0),
      (.customer cart.wID cart.dID cart.cID, 0)] ++ NewOrderTransaction.stockSlots cart
  | .payment cart .readSet | .payment cart .lookup =>
    [(.warehouse cart.wID, 0), (.district cart.wID cart.dID, 0)]
  | .payment cart (.customer cID) | .payment cart (.snapshot cID) =>
    [(.warehouse cart.wID, 0), (.district cart.wID cart.dID, 0),
      (.customer cart.residentWarehouseID cart.dID cID, 0)]
  | .delivery cart dID (.customer cID) | .delivery cart dID (.snapshot cID)
  | .delivery cart dID (.olderVersion cID) => [(.customer cart.wID dID cID, 0)]
  | _ => []

def Phase.writeSet (cfg : Config) : Phase → List (Key × ℕ)
  | .newOrder cart (.locks _) =>
    (if cfg.APPLY_COMMUTATIVE_UPDATES then [] else [(.district cart.wID cart.dID, 0)]) ++
      NewOrderTransaction.stockSlots cart
  | .payment cart (.locks cID _) =>
    [(.warehouse cart.wID, 0), (.district cart.wID cart.dID, 0),
      (.customer cart.residentWarehouseID cart.dID cID, 0)]
  | .delivery cart dID (.locks cID _) => [(.customer cart.wID dID cID, 0)]
  | _ => []

def Phase.lockCts : Phase → UInt32
  | .newOrder _ (.locks cts) | .payment _ (.locks _ cts) | .delivery _ _ (.locks _ cts) => cts
  | _ => 0

def Phase.readsHeads : Phase → Bool
  | .newOrder _ .readSet | .payment _ .readSet | .payment _ (.customer _)
  | .delivery _ _ .orderRows | .delivery _ _ (.customer _) => true
  | _ => false

def Phase.fetches : Phase → Bool
  | .newOrder _ (.olderVersions _) | .delivery _ _ (.olderVersion _) => true
  | _ => false

def Phase.readsVector : Phase → Bool
  | .newOrder _ .readSet | .newOrder _ .snapshot | .payment _ .readSet | .payment _ (.snapshot _)
  | .delivery _ _ .oldest | .delivery _ _ (.snapshot _) => true
  | _ => false

def Phase.isLocks : Phase → Bool
  | .newOrder _ (.locks _) | .payment _ (.locks _ _) | .delivery _ _ (.locks _ _) => true
  | _ => false

def Phase.asksIndex : Phase → Bool
  | .payment _ .lookup | .delivery _ _ .oldest => true
  | _ => false

def Phase.isNextOID : Phase → Bool
  | .newOrder _ (.nextOID _) => true
  | _ => false

def NewOrderTransaction.stockPlan (cfg : Config) (c : ClientID) (cl : Client)
    (cart : NewOrderCart) (cts : UInt32) : List Verb :=
  cart.items.zipIdx.map fun p =>
    (updateStock (newStockV cfg c cts p.1 (stockV cl p.2)) p.1.OL_SUPPLY_W_ID true).verb

def NewOrderTransaction.commitPlan (cfg : Config) (c : ClientID) (cl : Client)
    (cart : NewOrderCart) (cts : UInt32) : List Verb :=
  (appendPosts cfg cl cart).map (·.verb) ++
  (if cfg.APPLY_COMMUTATIVE_UPDATES then []
    else [(updateDistrict (newDistrictV cfg c cts (districtV cl)) true).verb]) ++
  stockPlan cfg c cl cart cts

def PaymentTransaction.commitPlan (cfg : Config) (c : ClientID) (cl : Client)
    (cart : PaymentCart) (cID cts : UInt32) : List Verb :=
  (appendPosts cfg cl ++ installPosts cfg c cl cart cID cts).map (·.verb)

def DeliveryTransaction.commitPlan (cfg : Config) (c : ClientID) (cl : Client)
    (cart : DeliveryCart) (cts : UInt32) : List Verb :=
  (installPosts cfg c cl cart cts).map (·.verb)

def tagged (o : Owner) (vs : List Verb) : List (Owner × Verb) := vs.map (Prod.mk o)

/-- The WRITEs a transaction that is bound to commit has yet to post on versioned records. -/
def Client.plan (cfg : Config) (c : ClientID) (cl : Client) : List (Owner × Verb) :=
  match cl.phase with
  | .newOrder cart (.log cts) =>
    tagged ⟨cl.t, .newOrder cart⟩ (NewOrderTransaction.commitPlan cfg c cl cart cts)
  | .newOrder cart (.nextOID cts) =>
    tagged ⟨cl.t, .newOrder cart⟩ (NewOrderTransaction.stockPlan cfg c cl cart cts)
  | .payment cart (.log cID cts) =>
    tagged ⟨cl.t, .payment cart⟩ (PaymentTransaction.commitPlan cfg c cl cart cID cts)
  | .delivery cart dID (.log _ cts) =>
    tagged ⟨cl.t, .delivery cart dID⟩ (DeliveryTransaction.commitPlan cfg c cl cart cts)
  | _ => []

/-- The transaction holds and plans nothing: it has yet to lock, or has posted all its WRITEs. -/
def Phase.isInert : Phase → Bool
  | .newOrder _ (.locks _) | .newOrder _ (.log _) | .newOrder _ (.nextOID _)
  | .payment _ (.locks _ _) | .payment _ (.log _ _)
  | .delivery _ _ (.locks _ _) | .delivery _ _ (.log _ _) => false
  | _ => true

theorem Client.sets_of_isInert {cl : Client} (h : cl.phase.isInert = true) :
    cl.phase.writeSet cfg = [] ∧ cl.phase.isLocks = false ∧ cl.plan cfg c = [] := by
  unfold Client.plan
  cases hph : cl.phase with
  | idle => exact ⟨rfl, rfl, rfl⟩
  | newOrder cart pc | payment cart pc | delivery cart dID pc =>
    rw [hph] at h
    cases pc <;> first | cases h; done | exact ⟨rfl, rfl, rfl⟩

theorem Client.sets_of_isLocks {cl : Client} (h : cl.phase.isLocks = true) :
    cl.phase.readSet = [] ∧ cl.plan cfg c = [] ∧
      ∀ cart, cl.phase ≠ .newOrder cart (.olderVersions false) := by
  unfold Client.plan
  cases hph : cl.phase with
  | idle => simp [hph, Phase.isLocks] at h
  | newOrder cart pc | payment cart pc | delivery cart dID pc =>
    rw [hph] at h
    cases pc <;> first | cases h; done | exact ⟨rfl, rfl, nofun⟩

/-! ## The invariant -/

def opsOn (k : Key) (ops : List (Owner × Verb)) : List (Owner × Verb) :=
  ops.filter (·.2.mutates k)

/-- The outstanding verbs that mutate record `k`, in posting order. -/
def Client.ops (cl : Client) (k : Key) : List (Owner × Verb) :=
  opsOn k (cl.outstanding.map fun wr => (wr.owner, wr.verb))

/-- A copy of a head that is a version the record has had, unless its word shows that it must not
be used. -/
def Seen (s : State) (k : Key) (x : Version (Row k.table)) : Prop :=
  x.writeTimestamp.isLocked = true ∨ x.writeTimestamp.isDeleted = true ∨
    ∃ u ∈ s.versions k, SameVersion k x u

/-- What a verb whose result lands in a buffer may be, given the phase of its client. -/
def Client.awaits (cfg : Config) (cl : Client) : Verb → Prop
  | .readHead k b => cl.phase.readsHeads = true ∧ (k.versioned = true → (k, b) ∈ cl.phase.readSet) ∧
      k.table ≠ .history
  | .readPointerList _ _ => cl.phase.readsHeads = true
  | .readOlderVersion k _ | .readVersion k _ =>
    cl.phase.fetches = true ∧ (k, 0) ∈ cl.phase.readSet ∧ k.table ≠ .stock
  | .compareAndSwap k _ _ b => cl.phase.isLocks = true ∧
      (k.versioned = true → (k, b) ∈ cl.phase.writeSet cfg)
  | .fetchAndAdd _ _ => cl.phase.isNextOID = true
  | .readVector | .readVectorEntry _ => cl.phase.readsVector = true
  | .readOrderLines _ _ _ => cl.phase.readsHeads = true
  | .send _ req => req.registers = false → cl.phase.asksIndex = true
  | _ => True

/-- How the CAS of client `c` on record `k`, from the word `w` of its copy, stands: it is pending;
it swapped; it found another word. -/
inductive LockState (cfg : Config) (s : State) (c : ClientID) (cl : Client) (o : Owner)
    (cts : UInt32) (k : Key) (b : ℕ) : Prop
  | pending
      (ops : cl.ops k = [(o, .compareAndSwap k (cl.copy k b).writeTimestamp
        (lockTimestamp (cl.copy k b).writeTimestamp c cts) b)])
      (mine : s.mine c k = none)
      (fresh : ∀ u ∈ s.versions k, u.writeTimestamp.writer ≠ (c, cts))
  | acquired
      (ops : cl.ops k = [])
      (result : cl.lockResult k b = (cl.copy k b).writeTimestamp)
      (mine : s.mine c k = some (⟨c, o, lockTimestamp (cl.copy k b).writeTimestamp c cts⟩, .locked))
      (current : SameVersion k (cl.copy k b) (s.current k))
  | refused
      (ops : cl.ops k = [])
      (result : cl.lockResult k b ≠ (cl.copy k b).writeTimestamp)
      (mine : s.mine c k = none)

/-- How the transaction of client `c` stands towards the history of the records. -/
structure Standing (cfg : Config) (s : State) (c : ClientID) (cl : Client) : Prop where
  active : cl.phase ≠ .idle → c.toNat < cfg.clientCnt
  epoch : cl.nextEpoch = UInt32.ofNat (s.acquired c + 1)
  genuine : ∀ p ∈ cl.phase.writeSet cfg, ∃ u ∈ s.versions p.1,
    SameVersion p.1 (cl.copy p.1 p.2) u
  lockCts : cl.phase.isLocks = true → cl.phase.lockCts.toNat < s.nextCts cfg c
  locking : ∀ trx, cl.phase.trx = some trx → ∀ p ∈ cl.phase.writeSet cfg,
    LockState cfg s c cl ⟨cl.t, trx⟩ cl.phase.lockCts p.1 p.2
  conforms : ∀ k, k.versioned = true → k ∉ (cl.phase.writeSet cfg).map Prod.fst →
    Conforms cfg k (s.current k) (s.mine c k) (cl.ops k ++ opsOn k (cl.plan cfg c))
  checked : ∀ cart, cl.phase = .newOrder cart (.olderVersions false) →
    ∀ b < cart.items.length,
      cl.isRecordAccessible c (cl.buffers.head .stock b).writeTimestamp = true

/-- The invariant of client `c` in state `cl`. -/
structure ClientOK (cfg : Config) (s : State) (c : ClientID) (cl : Client) : Prop
    extends Standing cfg s c cl where
  count : cl.sendCQ + cl.outstanding.countP (·.signaled) = cl.pollCnt cfg
  quiet : cl.phase.isQuiet = true → cl.outstandingSendCompletionCnt = 0
  ended : ∀ q ∈ cl.waits cfg, Fifo.Ended (·.signaled) (WorkRequest.qp cfg) q cl.outstanding
  lands : ∀ wr ∈ cl.outstanding, wr.verb.lands = true →
    (∃ trx, cl.phase.trx = some trx ∧ wr.owner = ⟨cl.t, trx⟩) ∧ wr.qp cfg ∈ cl.waits cfg ∧
      cl.awaits cfg wr.verb
  reads : ∀ p ∈ cl.phase.readSet, (∃ wr ∈ cl.outstanding, wr.verb = .readHead p.1 p.2) ∨
    Seen s p.1 (cl.copy p.1 p.2)

/-- What is known of a client once its poll loop is over. -/
structure Polled (cfg : Config) (s : State) (c : ClientID) (cl : Client) : Prop
    extends Standing cfg s c cl where
  sendCQ : cl.sendCQ = 0
  counted : cl.outstandingSendCompletionCnt = 0
  unsignaled : cl.outstanding.countP (·.signaled) = 0
  lanes : ∀ q ∈ cl.waits cfg, Fifo.lane (WorkRequest.qp cfg) q cl.outstanding = []
  landed : ∀ wr ∈ cl.outstanding, wr.verb.lands = false
  reads : ∀ p ∈ cl.phase.readSet, Seen s p.1 (cl.copy p.1 p.2)

/-! ## Steps of other clients -/

/-- What client `c` notices of a step it does not take: other clients install versions, but not of
the records it holds. -/
structure Frame (s s' : State) (c : ClientID) : Prop where
  versions : ∀ k, ∀ u ∈ s.versions k, u ∈ s'.versions k
  foreign : ∀ k, k.versioned = true → ∀ u ∈ s'.versions k,
    u ∈ s.versions k ∨ u.writeTimestamp.clientID ≠ c
  mine : ∀ k, k.versioned = true → s'.mine c k = s.mine c k
  current : ∀ k, k.versioned = true → s.mine c k ≠ none → s'.current k = s.current k

theorem NewOrderTransaction.mem_stockSlots {cart : NewOrderCart} {p : Key × ℕ} :
    p ∈ stockSlots cart ↔
      ∃ item, cart.items[p.2]? = some item ∧ p.1 = .stock item.OL_SUPPLY_W_ID item.I_ID := by
  obtain ⟨k, b⟩ := p
  simp only [stockSlots, List.mem_map, Prod.exists, List.mem_zipIdx_iff_getElem?, Prod.mk.injEq]
  constructor
  · rintro ⟨item, n, hitem, rfl, rfl⟩
    exact ⟨item, hitem, rfl⟩
  · rintro ⟨item, hitem, rfl⟩
    exact ⟨item, b, hitem, rfl, rfl⟩

theorem NewOrderTransaction.versioned_of_mem_stockSlots {cart : NewOrderCart} {p : Key × ℕ}
    (h : p ∈ stockSlots cart) : p.1.versioned = true := by
  obtain ⟨item, -, hk⟩ := mem_stockSlots.1 h
  rw [hk]
  rfl

theorem Phase.versioned_of_mem_readSet {p : Key × ℕ} {ph : Phase} (h : p ∈ ph.readSet) :
    p.1.versioned = true := by
  suffices hall : ∀ p ∈ ph.readSet, p.1.versioned = true from hall p h
  cases ph with
  | idle => simp [readSet]
  | newOrder cart pc =>
    cases pc with
    | readSet | snapshot | olderVersions =>
      refine List.forall_mem_append.2 ⟨by simp [Key.versioned], fun p hp => ?_⟩
      exact NewOrderTransaction.versioned_of_mem_stockSlots hp
    | _ => simp [readSet]
  | payment cart pc => cases pc <;> simp [readSet, Key.versioned]
  | delivery cart dID pc => cases pc <;> simp [readSet, Key.versioned]

theorem Phase.versioned_of_mem_writeSet {p : Key × ℕ} {ph : Phase} (h : p ∈ ph.writeSet cfg) :
    p.1.versioned = true := by
  suffices hall : ∀ p ∈ ph.writeSet cfg, p.1.versioned = true from hall p h
  cases ph with
  | idle => simp [writeSet]
  | newOrder cart pc =>
    cases pc with
    | locks =>
      refine List.forall_mem_append.2 ⟨?_, fun p hp => ?_⟩
      · split <;> simp [Key.versioned]
      · exact NewOrderTransaction.versioned_of_mem_stockSlots hp
    | _ => simp [writeSet]
  | payment cart pc => cases pc <;> simp [writeSet, Key.versioned]
  | delivery cart dID pc => cases pc <;> simp [writeSet, Key.versioned]

theorem Phase.isLocks_of_mem_writeSet {p : Key × ℕ} {ph : Phase} (h : p ∈ ph.writeSet cfg) :
    ph.isLocks = true := by
  cases ph with
  | idle => simp [writeSet] at h
  | newOrder cart pc => cases pc <;> first | rfl | simp [writeSet] at h
  | payment cart pc => cases pc <;> first | rfl | simp [writeSet] at h
  | delivery cart dID pc => cases pc <;> first | rfl | simp [writeSet] at h

theorem Phase.exists_trx {ph : Phase} (h : ph ≠ .idle) : ∃ trx, ph.trx = some trx := by
  cases ph with
  | idle => exact absurd rfl h
  | _ => exact ⟨_, rfl⟩

theorem Phase.ne_idle_of_mem_writeSet {p : Key × ℕ} {ph : Phase} (h : p ∈ ph.writeSet cfg) :
    ph ≠ .idle := by
  rintro rfl
  simp [writeSet] at h

theorem Seen.mono {x : Version (Row k.table)} (h : Seen s k x)
    (hsub : ∀ u ∈ s.versions k, u ∈ s'.versions k) : Seen s' k x := by
  rcases h with hl | hd | ⟨u, hu, hx⟩
  · exact .inl hl
  · exact .inr (.inl hd)
  · exact .inr (.inr ⟨u, hsub u hu, hx⟩)

theorem Conforms.congr_current {m : Option (Ticket × Stage)} {cur cur' : Version (Row k.table)}
    {ops : List (Owner × Verb)} (h : Conforms cfg k cur m ops) (hcur : m ≠ none → cur' = cur) :
    Conforms cfg k cur' m ops := by
  cases m with
  | none =>
    cases h
    exact .free
  | some p =>
    rw [hcur (by simp)]
    exact h

theorem LockState.frame {o : Owner} {cts : UInt32} {b : ℕ} (h : LockState cfg s c cl o cts k b)
    (hk : k.versioned = true) (hf : Frame s s' c) : LockState cfg s' c cl o cts k b := by
  cases h with
  | pending ops mine fresh =>
    refine .pending ops (by rw [hf.mine k hk, mine]) fun u hu hwriter => ?_
    rcases hf.foreign k hk u hu with hold | hne
    · exact fresh u hold hwriter
    · exact hne (congrArg Prod.fst hwriter)
  | acquired ops result mine current =>
    refine .acquired ops result (by rw [hf.mine k hk, mine]) ?_
    rw [hf.current k hk (by simp [mine])]
    exact current
  | refused ops result mine => exact .refused ops result (by rw [hf.mine k hk, mine])

theorem Standing.frame (h : Standing cfg s c cl) (hf : Frame s s' c)
    (hacq : s'.acquired c = s.acquired c) : Standing cfg s' c cl where
  active := h.active
  epoch := by rw [hacq, h.epoch]
  genuine := by
    intro p hp
    obtain ⟨u, hu, hsame⟩ := h.genuine p hp
    exact ⟨u, hf.versions _ u hu, hsame⟩
  lockCts := by
    rw [State.nextCts, hacq]
    exact h.lockCts
  locking := by
    intro trx htrx p hp
    exact (h.locking trx htrx p hp).frame (Phase.versioned_of_mem_writeSet hp) hf
  conforms := by
    intro k hk hnot
    rw [hf.mine k hk]
    exact (h.conforms k hk hnot).congr_current (hf.current k hk)
  checked := h.checked

theorem ClientOK.frame (h : ClientOK cfg s c cl) (hf : Frame s s' c)
    (hacq : s'.acquired c = s.acquired c) : ClientOK cfg s' c cl where
  toStanding := h.toStanding.frame hf hacq
  count := h.count
  quiet := h.quiet
  ended := h.ended
  lands := h.lands
  reads := by
    intro p hp
    rcases h.reads p hp with hpend | hseen
    · exact .inl hpend
    · exact .inr (hseen.mono (hf.versions _))

/-! ## The end of a poll loop -/

theorem Standing.setCounters (h : Standing cfg s c cl) (n m : ℕ) :
    Standing cfg s c { cl with sendCQ := n, outstandingSendCompletionCnt := m } where
  active := h.active
  epoch := h.epoch
  genuine := h.genuine
  lockCts := h.lockCts
  locking := by
    intro trx htrx p hp
    cases h.locking trx htrx p hp with
    | pending ops mine fresh => exact .pending ops mine fresh
    | acquired ops result mine current => exact .acquired ops result mine current
    | refused ops result mine => exact .refused ops result mine
  conforms := h.conforms
  checked := h.checked

/-- **End of a poll loop.** All completions have arrived, so the queue pairs the loop covers are
empty and every result has landed. -/
theorem ClientOK.poll (h : ClientOK cfg s c cl) (hpoll : cl.pollCnt cfg ≤ cl.sendCQ) :
    Polled cfg s c (cl.poll cfg) := by
  have hcount := h.count
  have hnone : cl.outstanding.countP (·.signaled) = 0 := by omega
  have hlanes : ∀ q ∈ cl.waits cfg, Fifo.lane (WorkRequest.qp cfg) q cl.outstanding = [] :=
    fun q hq => Fifo.lane_eq_nil_of_ended (h.ended q hq) hnone
  have hlanded : ∀ wr ∈ cl.outstanding, wr.verb.lands = false := by
    intro wr hwr
    by_contra hlands
    obtain ⟨-, hq, -⟩ := h.lands wr hwr (by simpa using hlands)
    exact Fifo.lane_eq_nil_iff.1 (hlanes _ hq) wr hwr rfl
  exact {
    toStanding := h.toStanding.setCounters _ _
    sendCQ := by
      simp only [Client.poll]
      omega
    counted := by
      simp only [Client.poll]
      split
      · rename_i hlog
        refine h.quiet ?_
        unfold Phase.isQuiet
        split <;> first | rfl | exact hlog
      · rfl
    unsignaled := hnone
    lanes := hlanes
    landed := hlanded
    reads := by
      intro p hp
      rcases h.reads p hp with ⟨wr, hwr, hverb⟩ | hseen
      · have hlands := hlanded wr hwr
        rw [hverb] at hlands
        cases hlands
      · exact hseen }

/-- A client that executes nothing waits for nothing. -/
theorem ClientOK.polled_of_quiet (h : ClientOK cfg s c cl) (hq : cl.phase.isQuiet = true)
    (hlog : cl.phase.isLog = false) : Polled cfg s c cl := by
  have hcnt := h.quiet hq
  have hcount := h.count
  rw [Client.pollCnt, hlog, if_neg (by simp), hcnt] at hcount
  have hp := h.poll (by rw [Client.pollCnt, hlog, if_neg (by simp), hcnt]; omega)
  have heq : cl.poll cfg = cl := by
    simp only [Client.poll, Client.pollCnt, hlog]
    cases cl
    simp_all
  rwa [heq] at hp

end RdmaSnapshot
