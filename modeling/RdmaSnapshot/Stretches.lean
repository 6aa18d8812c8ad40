import RdmaSnapshot.Invariant

/-!
# The stretches of code between two poll loops

Inversion of the steps of a client's CPU. Whatever a transaction executes, it takes the same course:
it reads, it takes its snapshot, it checks and locks, and then it gives the locks back or it
commits, publishes and ends. `Stretch` has one constructor for each part of that course and says
what it leaves of the client and what it posts; the invariants of clients are derived from it.
-/

namespace RdmaSnapshot

open DBExecutor

variable {cfg : Config} {vec : ClientID → UInt32} {c : ClientID} {cl cl' base : Client} {o : Owner}
  {l : CpuLabel} {trx : Trx} {p : Phase} {posts : List Post}

/-- How far a transaction has come. -/
inductive Status
  | idle | reading | locking | reverting | committing
  deriving DecidableEq

/-- How far the transaction in execution has come. -/
def Phase.status : Phase → Status
  | .idle | .delivery _ _ .begin => .idle
  | .newOrder _ .readSet | .newOrder _ .snapshot | .newOrder _ (.olderVersions _)
  | .payment _ .readSet | .payment _ .lookup | .payment _ (.customer _) | .payment _ (.snapshot _)
  | .delivery _ _ .oldest | .delivery _ _ .orderRows | .delivery _ _ (.customer _)
  | .delivery _ _ (.snapshot _) | .delivery _ _ (.olderVersion _) => .reading
  | .newOrder _ (.locks _) | .payment _ (.locks _ _) | .delivery _ _ (.locks _ _) => .locking
  | .newOrder _ .reverts | .payment _ .reverts | .delivery _ _ .reverts => .reverting
  | .newOrder _ (.log _) | .newOrder _ (.nextOID _) | .newOrder _ (.install _ _)
  | .newOrder _ .register | .newOrder _ .publish
  | .payment _ (.log _ _) | .payment _ .install | .payment _ .publish
  | .delivery _ _ (.log _ _) | .delivery _ _ .install | .delivery _ _ .register
  | .delivery _ _ .publish => .committing

/-! ## Where the transactions differ -/

/-- The posts with which a transaction starts, after those of its snapshot. -/
inductive Starts (cfg : Config) : Phase → Trx → Phase → List Post → Prop
  | newOrder (cart : NewOrderCart) : Starts cfg .idle (.newOrder cart) (.newOrder cart .readSet)
      (NewOrderTransaction.readSetPosts cfg cart)
  | payment (cart : PaymentCart) : Starts cfg .idle (.payment cart) (.payment cart .readSet)
      (PaymentTransaction.readSetPosts cart)
  | delivery (cart : DeliveryCart) (dID : UInt8) : Starts cfg (.delivery cart dID .begin)
      (.delivery cart dID) (.delivery cart dID .oldest)
      [getOldestUndeliveredOrder cfg cart.wID dID true]

inductive Reads (cfg : Config) (c : ClientID) (cl : Client) : Trx → Phase → List Post → Prop
  | newOrder {cart : NewOrderCart} {pc : NewOrderPC} (hph : cl.phase = .newOrder cart pc)
      (hpc : pc = .readSet ∨ pc = .snapshot) : Reads cfg c cl (.newOrder cart)
        (.newOrder cart (.olderVersions (NewOrderTransaction.checkVersions cfg c cl cart).2))
        (NewOrderTransaction.checkVersions cfg c cl cart).1
  | lookup {cart : PaymentCart} (hph : cl.phase = .payment cart .readSet) :
      Reads cfg c cl (.payment cart) (.payment cart .lookup)
        [lookupCustomerByLastName cfg cart.residentWarehouseID cart.dID cart.cLastName true]
  | payment {cart : PaymentCart} {pc : PaymentPC} (hph : cl.phase = .payment cart pc)
      (hpc : pc = .readSet ∨ pc = .lookup) (cID : UInt32) : Reads cfg c cl (.payment cart)
        (.payment cart (.customer cID)) (PaymentTransaction.customerPosts cart cID)
  | orderRows {cart : DeliveryCart} {dID : UInt8} (hph : cl.phase = .delivery cart dID .oldest) :
      Reads cfg c cl (.delivery cart dID) (.delivery cart dID .orderRows)
        (DeliveryTransaction.orderRowsPosts cfg cl cart)
  | delivery {cart : DeliveryCart} {dID : UInt8} (hph : cl.phase = .delivery cart dID .orderRows)
      (cID : UInt32) : Reads cfg c cl (.delivery cart dID) (.delivery cart dID (.customer cID))
        (DeliveryTransaction.customerPosts cart dID cID)
  | olderVersion {cart : DeliveryCart} {dID : UInt8} {pc : DeliveryPC} {cID : UInt32}
      {posts : List Post} (hph : cl.phase = .delivery cart dID pc)
      (hpc : pc = .customer cID ∨ pc = .snapshot cID)
      (hrows : DeliveryTransaction.orderRowsConsistent cfg c cl cart = true)
      (hfetch : fetchOlderVersion c cl (DeliveryTransaction.customerV cl).writeTimestamp
        ((DeliveryTransaction.buffers cl).pointerList .customerTS)
        (fun ind ts => retrieveCustomerOlderVersion cfg cart.wID dID cID ind ts true) =
          some posts) :
      Reads cfg c cl (.delivery cart dID) (.delivery cart dID (.olderVersion cID)) posts

/-- The snapshot that follows the READs in `ONLY_READ_SET` mode. -/
inductive TakesSnapshot : Phase → Trx → Phase → Prop
  | newOrder (cart : NewOrderCart) : TakesSnapshot (.newOrder cart .readSet) (.newOrder cart)
      (.newOrder cart .snapshot)
  | payment (cart : PaymentCart) (cID : UInt32) : TakesSnapshot (.payment cart (.customer cID))
      (.payment cart) (.payment cart (.snapshot cID))
  | delivery (cart : DeliveryCart) (dID : UInt8) (cID : UInt32) :
      TakesSnapshot (.delivery cart dID (.customer cID)) (.delivery cart dID)
        (.delivery cart dID (.snapshot cID))

/-- The CASes of a transaction whose versions were all accepted. -/
inductive Locks (cfg : Config) (c : ClientID) (cl : Client) : Trx → Phase → List Post → Prop
  | newOrder {cart : NewOrderCart} (hph : cl.phase = .newOrder cart (.olderVersions false))
      (hw : cl.isRecordAccessible c (NewOrderTransaction.warehouseV cl).writeTimestamp = true)
      (hd : cl.isRecordAccessible c (NewOrderTransaction.districtV cl).writeTimestamp = true)
      (hc : cl.isRecordAccessible c (NewOrderTransaction.customerV cl).writeTimestamp = true) :
      Locks cfg c cl (.newOrder cart) (.newOrder cart (.locks (cl.newCommitTimestamp cfg c)))
        (NewOrderTransaction.lockPosts cfg c cl cart (cl.newCommitTimestamp cfg c))
  | payment {cart : PaymentCart} {pc : PaymentPC} {cID : UInt32}
      (hph : cl.phase = .payment cart pc) (hpc : pc = .customer cID ∨ pc = .snapshot cID)
      (hw : cl.isRecordAccessible c (PaymentTransaction.warehouseV cl).writeTimestamp = true)
      (hd : cl.isRecordAccessible c (PaymentTransaction.districtV cl).writeTimestamp = true)
      (hc : cl.isRecordAccessible c (PaymentTransaction.customerV cl).writeTimestamp = true) :
      Locks cfg c cl (.payment cart) (.payment cart (.locks cID (cl.newCommitTimestamp cfg c)))
        (PaymentTransaction.lockPosts c cl (cl.newCommitTimestamp cfg c))
  | delivery {cart : DeliveryCart} {dID : UInt8} {pc : DeliveryPC} {cID : UInt32}
      (hph : cl.phase = .delivery cart dID pc)
      (hpc : (pc = .customer cID ∨ pc = .snapshot cID) ∧
        DeliveryTransaction.orderRowsConsistent cfg c cl cart = true ∨ pc = .olderVersion cID)
      (hc : cl.isRecordAccessible c (DeliveryTransaction.customerV cl).writeTimestamp = true) :
      Locks cfg c cl (.delivery cart dID)
        (.delivery cart dID (.locks cID (cl.newCommitTimestamp cfg c)))
        (DeliveryTransaction.lockPosts cfg c cl cart (cl.newCommitTimestamp cfg c))

inductive GivesUp (cfg : Config) (cl : Client) : Trx → Phase → List Post → Prop
  | newOrder {cart : NewOrderCart} {cts : UInt32} (hph : cl.phase = .newOrder cart (.locks cts)) :
      GivesUp cfg cl (.newOrder cart) (.newOrder cart .reverts)
        (NewOrderTransaction.revertPosts cfg cl cart)
  | payment {cart : PaymentCart} {cID cts : UInt32}
      (hph : cl.phase = .payment cart (.locks cID cts)) :
      GivesUp cfg cl (.payment cart) (.payment cart .reverts) (PaymentTransaction.revertPosts cl)
  | delivery {cart : DeliveryCart} {dID : UInt8} {cID cts : UInt32}
      (hph : cl.phase = .delivery cart dID (.locks cID cts)) :
      GivesUp cfg cl (.delivery cart dID) (.delivery cart dID .reverts)
        (DeliveryTransaction.revertPosts cfg cl cart)

/-- All CASes swapped; the poll loop of the log is the next one. -/
inductive Won (cfg : Config) (cl : Client) : Phase → Prop
  | newOrder {cart : NewOrderCart} {cts : UInt32} (hph : cl.phase = .newOrder cart (.locks cts)) :
      Won cfg cl (.newOrder cart (.log cts))
  | payment {cart : PaymentCart} {cID cts : UInt32}
      (hph : cl.phase = .payment cart (.locks cID cts)) : Won cfg cl (.payment cart (.log cID cts))
  | delivery {cart : DeliveryCart} {dID : UInt8} {cID cts : UInt32}
      (hph : cl.phase = .delivery cart dID (.locks cID cts))
      (hwon : (DeliveryTransaction.orderLocked cl && DeliveryTransaction.newOrderLocked cl &&
        (List.range (DeliveryTransaction.oldest cfg cl cart).numOfOrderlines.toNat).all
          (DeliveryTransaction.orderLineLocked cl) &&
        DeliveryTransaction.customerLocked cl) = true) :
      Won cfg cl (.delivery cart dID (.log cID cts))

/-- The client has set its own entry of the vector. -/
def Client.holding (c : ClientID) (cts : UInt32) (cl : Client) : Client :=
  { cl with localTimestampVector := Function.update cl.localTimestampVector c cts }

/-- From the poll loop of the log, or from where it would be, to the next one. -/
inductive EntersCommit (cfg : Config) (c : ClientID) (cl : Client) : Phase → Client → Prop
  | append (cart : NewOrderCart) (cts : UInt32) (hcomm : cfg.APPLY_COMMUTATIVE_UPDATES = true) :
      EntersCommit cfg c cl (.newOrder cart (.log cts))
        (({ NewOrderTransaction.appended cfg cl cart with
            phase := .newOrder cart (.nextOID cts) } : Client).post (.newOrder cart)
          (NewOrderTransaction.appendPosts cfg cl cart ++
            [retrieveAndIncrementDistrictNextOID cart.wID cart.dID true]))
  | newOrder (cart : NewOrderCart) (cts : UInt32) (hcomm : cfg.APPLY_COMMUTATIVE_UPDATES = false) :
      EntersCommit cfg c cl (.newOrder cart (.log cts))
        (NewOrderTransaction.installStep cfg c
          (NewOrderTransaction.districtUpdated cfg c cl cart cts) cart cts
          (NewOrderTransaction.districtV cl).body.D_NEXT_O_ID.toUInt32)
  | payment (cart : PaymentCart) (cID cts : UInt32) :
      EntersCommit cfg c cl (.payment cart (.log cID cts))
      (PaymentTransaction.installStep cfg c cl cart cID cts).1
  | delivery (cart : DeliveryCart) (dID : UInt8) (cID cts : UInt32) :
      EntersCommit cfg c cl (.delivery cart dID (.log cID cts))
        (DeliveryTransaction.installStep cfg c cl cart dID cts).1

inductive Registers (cfg : Config) (cl : Client) : Trx → Phase → Post → Prop
  | newOrder {cart : NewOrderCart} {cts assignedOID : UInt32}
      (hph : cl.phase = .newOrder cart (.install cts assignedOID)) :
      Registers cfg cl (.newOrder cart) (.newOrder cart .register)
        (registerOrder cfg cart.wID cart.dID cart.cID assignedOID cl.nextOrderID cl.nextNewOrderID
          cl.nextOrderLineID (UInt8.ofNat cart.items.length) true)
  | delivery {cart : DeliveryCart} {dID : UInt8} (hph : cl.phase = .delivery cart dID .install) :
      Registers cfg cl (.delivery cart dID) (.delivery cart dID .register)
        (registerDelivery cfg cart.wID dID (DeliveryTransaction.orderV cl).body.O_ID true)

/-- The publication of the commit timestamp; a Payment then advances the counter of its History
rows. -/
inductive Publishes (cfg : Config) (cl : Client) : Trx → Phase → ℕ → Prop
  | newOrder {cart : NewOrderCart} (hph : cl.phase = .newOrder cart .register) :
      Publishes cfg cl (.newOrder cart) (.newOrder cart .publish) cl.nextHistoryID
  | payment {cart : PaymentCart} (hph : cl.phase = .payment cart .install) :
      Publishes cfg cl (.payment cart) (.payment cart .publish)
        ((cl.nextHistoryID + 1) % cfg.HISTORY_BUFFER_PER_CLIENT)
  | delivery {cart : DeliveryCart} {dID : UInt8} (hph : cl.phase = .delivery cart dID .register) :
      Publishes cfg cl (.delivery cart dID) (.delivery cart dID .publish) cl.nextHistoryID

/-- Where a client is when a transaction is over. -/
inductive Ends : Trx → Phase → Prop
  | idle (trx : Trx) : Ends trx .idle
  | next (cart : DeliveryCart) (dID : UInt8) :
      Ends (.delivery cart dID) (.delivery cart (dID + 1) .begin)

/-! ### Phases -/

theorem Starts.phase {ph : Phase} (h : Starts cfg ph trx p posts) :
    ph.status = .idle ∧ p.status = .reading ∧ p.trx = some trx := by
  cases h <;> exact ⟨rfl, rfl, rfl⟩

theorem Reads.phase (h : Reads cfg c cl trx p posts) :
    cl.phase.status = .reading ∧ p.status = .reading ∧ p.trx = some trx := by
  cases h with
  | lookup hph | orderRows hph | delivery hph => exact ⟨by rw [hph]; rfl, rfl, rfl⟩
  | newOrder hph hpc | payment hph hpc | olderVersion hph hpc =>
    rcases hpc with rfl | rfl <;> exact ⟨by rw [hph]; rfl, rfl, rfl⟩

theorem TakesSnapshot.phase {ph : Phase} (h : TakesSnapshot ph trx p) :
    ph.status = .reading ∧ p.status = .reading ∧ p.trx = some trx := by
  cases h <;> exact ⟨rfl, rfl, rfl⟩

theorem Locks.phase (h : Locks cfg c cl trx p posts) : cl.phase.status = .reading ∧
    p.status = .locking ∧ p.trx = some trx ∧ p.lockCts = cl.newCommitTimestamp cfg c := by
  cases h with
  | newOrder hph => exact ⟨by rw [hph]; rfl, rfl, rfl, rfl⟩
  | payment hph hpc => rcases hpc with rfl | rfl <;> exact ⟨by rw [hph]; rfl, rfl, rfl, rfl⟩
  | delivery hph hpc =>
    rcases hpc with ⟨rfl | rfl, -⟩ | rfl <;> exact ⟨by rw [hph]; rfl, rfl, rfl, rfl⟩

theorem GivesUp.phase (h : GivesUp cfg cl trx p posts) :
    cl.phase.status = .locking ∧ p.status = .reverting ∧ p.trx = some trx := by
  cases h with
  | newOrder hph | payment hph | delivery hph => exact ⟨by rw [hph]; rfl, rfl, rfl⟩

theorem Won.phase (h : Won cfg cl p) : cl.phase.status = .locking ∧ p.status = .committing := by
  cases h with
  | newOrder hph | payment hph | delivery hph => exact ⟨by rw [hph]; rfl, rfl⟩

theorem EntersCommit.phase (h : EntersCommit cfg c cl p cl') :
    p.status = .committing ∧ cl'.phase.status = .committing ∧ cl'.phase.trx = p.trx := by
  cases h <;> exact ⟨rfl, rfl, rfl⟩

theorem Registers.phase {post : Post} (h : Registers cfg cl trx p post) :
    cl.phase.status = .committing ∧ p.status = .committing ∧ p.trx = some trx := by
  cases h with
  | newOrder hph | delivery hph => exact ⟨by rw [hph]; rfl, rfl, rfl⟩

theorem Publishes.phase {n : ℕ} (h : Publishes cfg cl trx p n) :
    cl.phase.status = .committing ∧ p.status = .committing ∧ p.trx = some trx := by
  cases h with
  | newOrder hph | payment hph | delivery hph => exact ⟨by rw [hph]; rfl, rfl, rfl⟩

theorem Ends.status (h : Ends trx p) : p.status = .idle := by
  cases h <;> rfl

/-! ## The course of a transaction -/

/-- The stretches of code between two poll loops: what they leave of client `c` in state `cl`. -/
inductive Stretch (cfg : Config) (vec : ClientID → UInt32) (c : ClientID) (cl : Client) :
    Trx → Client → CpuLabel → Prop
  | call (cart : DeliveryCart) {p : Phase} (hidle : cl.phase = .idle)
      (hp : p = .idle ∨ p = .delivery cart 0 .begin) :
      Stretch cfg vec c cl (.delivery cart 0) { cl with phase := p } .resume
  | start {trx : Trx} {p : Phase} {posts : List Post} {vec' : ClientID → UInt32}
      (hvec : vec' =
        if cfg.SNAPSHOT_ACQUISITION_TYPE = .COMPLETE ∧ cfg.SNAPSHOT_CLUSTER_MODE = true then vec
        else cl.localTimestampVector)
      (h : Starts cfg cl.phase trx p posts) :
      Stretch cfg vec c cl trx
        (({ cl with t := cl.t + 1, phase := p, localTimestampVector := vec' } : Client).post trx
          (startPosts cfg ++ posts)) .begin
  | read {trx : Trx} {p : Phase} {posts : List Post} (h : Reads cfg c cl trx p posts) :
      Stretch cfg vec c cl trx (({ cl with phase := p } : Client).post trx posts) .resume
  | snapshot {trx : Trx} {p : Phase} {posts : List Post} (vec' : ClientID → UInt32)
      (hmode : cfg.SNAPSHOT_ACQUISITION_TYPE = .ONLY_READ_SET)
      (hposts : ∀ q ∈ posts, q.verb = .readVector ∨ ∃ id, q.verb = .readVectorEntry id)
      (h : TakesSnapshot cl.phase trx p) :
      Stretch cfg vec c cl trx
        (({ cl with phase := p, localTimestampVector := vec' } : Client).post trx posts) .resume
  | stop {trx : Trx} {p : Phase} {outcome : Outcome} (hst : cl.phase.status = .reading)
      (htrx : cl.phase.trx = some trx) (h : Ends trx p)
      (hout : ∀ cart, trx = .newOrder cart → outcome ≠ .COMMITTED) :
      Stretch cfg vec c cl trx { cl with phase := p } (.finish outcome)
  | lock {trx : Trx} {p : Phase} {posts : List Post} (h : Locks cfg c cl trx p posts) :
      Stretch cfg vec c cl trx (({ cl.advanceEpoch with phase := p } : Client).post trx posts)
        (.acquire (cl.newCommitTimestamp cfg c))
  | giveUp {trx : Trx} {p : Phase} {posts : List Post} (h : GivesUp cfg cl trx p posts) :
      Stretch cfg vec c cl trx (({ cl with phase := p } : Client).post trx posts) .resume
  | abort {trx : Trx} {p : Phase} (hst : cl.phase.status = .reverting)
      (htrx : cl.phase.trx = some trx) (h : Ends trx p) :
      Stretch cfg vec c cl trx { cl with phase := p } (.finish (.ABORTED .UNSUCCESSFUL_LOCK))
  | log {trx : Trx} {p : Phase} (htrx : p.trx = some trx) (h : Won cfg cl p) :
      Stretch cfg vec c cl trx (({ cl.holding c cl.phase.lockCts with phase := p } : Client).postLog
        trx (logServers cfg c)) .resume
  /-- Without a log the commit goes on at once. -/
  | commit {trx : Trx} {p : Phase} {base cl' : Client} (htrx : p.trx = some trx)
      (hbase : cl.phase = p ∧ base = cl ∨ Won cfg cl p ∧ base = cl.holding c cl.phase.lockCts)
      (h : EntersCommit cfg c base p cl') : Stretch cfg vec c cl trx cl' .resume
  /-- The FAA has returned the order id. -/
  | insert {cart : NewOrderCart} {cts : UInt32} (hph : cl.phase = .newOrder cart (.nextOID cts)) :
      Stretch cfg vec c cl (.newOrder cart) (NewOrderTransaction.installStep cfg c cl cart cts
        (NewOrderTransaction.districtV cl).body.D_NEXT_O_ID.toUInt32) .resume
  | register {trx : Trx} {p : Phase} {post : Post} (h : Registers cfg cl trx p post) :
      Stretch cfg vec c cl trx (({ cl with phase := p } : Client).post trx [post]) .resume
  | publish {trx : Trx} {p : Phase} {n : ℕ} (h : Publishes cfg cl trx p n) :
      Stretch cfg vec c cl trx (({ cl with nextHistoryID := n, phase := p } : Client).post trx
        [submitResult c cl.localTimestampVector true]) .resume
  | finishNewOrder {cart : NewOrderCart} (hph : cl.phase = .newOrder cart .publish) :
      Stretch cfg vec c cl (.newOrder cart) (NewOrderTransaction.afterPublish cfg cl cart).1
        (.finish .COMMITTED)
  | finish {trx : Trx} {p : Phase} (h : Ends trx p)
      (hph : (∃ cart, cl.phase = .payment cart .publish ∧ trx = .payment cart) ∨
        ∃ cart dID, cl.phase = .delivery cart dID .publish ∧ trx = .delivery cart dID) :
      Stretch cfg vec c cl trx { cl with phase := p } (.finish .COMMITTED)

/-! ## Inversion -/

theorem stretch_snapshot (ids : List ClientID)
    (hmode : cfg.SNAPSHOT_ACQUISITION_TYPE = .ONLY_READ_SET) (h : TakesSnapshot cl.phase trx p) :
    Stretch cfg vec c cl trx (acquireSnapshot cfg vec { cl with phase := p } trx ids) .resume := by
  obtain ⟨vec', posts, heq, -, hposts⟩ := acquireSnapshot_eq cfg vec cl p trx ids
  rw [heq]
  exact .snapshot vec' hmode hposts h

theorem stretch_start (h : Starts cfg cl.phase trx p posts) :
    Stretch cfg vec c cl trx ((({ cl with t := cl.t + 1 } : Client).startBase cfg vec p).post trx
      (startPosts cfg ++ posts)) .begin := by
  have hbase : ({ cl with t := cl.t + 1 } : Client).startBase cfg vec p =
      { cl with
        t := cl.t + 1
        phase := p
        localTimestampVector :=
          if cfg.SNAPSHOT_ACQUISITION_TYPE = .COMPLETE ∧ cfg.SNAPSHOT_CLUSTER_MODE = true then vec
          else cl.localTimestampVector } := by
    unfold Client.startBase
    split
    · rename_i hmode
      simp [Client.copyVector, hmode]
    · rename_i hmode
      simp [hmode]
  rw [hbase]
  exact .start rfl h

namespace NewOrderTransaction

variable {cart : NewOrderCart} {cts : UInt32}

/-- The stretch from the log to the next poll loop. -/
theorem installs_appendStep (cl : Client) (cts : UInt32) :
    EntersCommit cfg c cl (.newOrder cart (.log cts)) (appendStep cfg c cl cart cts).1 := by
  by_cases hcomm : cfg.APPLY_COMMUTATIVE_UPDATES = true
  · rw [appendStep_of_comm hcomm]
    exact .append cart cts hcomm
  · have hcomm' : cfg.APPLY_COMMUTATIVE_UPDATES = false := by simpa using hcomm
    rw [appendStep_of_not_comm hcomm']
    exact .newOrder cart cts hcomm'

theorem stretch {pc : NewOrderPC} (hph : cl.phase = .newOrder cart pc) :
    Stretch cfg vec c cl (.newOrder cart) (resume cfg c cl cart vec pc).1
      (resume cfg c cl cart vec pc).2 := by
  have hreading : ∀ p, Ends (.newOrder cart) p → cl.phase.status = .reading →
      Stretch cfg vec c cl (.newOrder cart) { cl with phase := p }
        (.finish (.ABORTED .INCONSISTENT_SNAPSHOT)) :=
    fun p hp hst => .stop hst (by rw [hph]; rfl) hp (by simp)
  cases pc with
  | readSet =>
    cases hmode : cfg.SNAPSHOT_ACQUISITION_TYPE with
    | COMPLETE =>
      simp only [resume, afterReadSet, hmode]
      exact .read (.newOrder hph (.inl rfl))
    | ONLY_READ_SET =>
      simp only [resume, afterReadSet, hmode]
      exact stretch_snapshot _ hmode (hph ▸ .newOrder cart)
  | snapshot => exact .read (.newOrder hph (.inr rfl))
  | olderVersions abortFlag =>
    simp only [resume, afterOlderVersions]
    split
    · exact hreading _ (.idle _) (by rw [hph]; rfl)
    · rename_i hcheck
      simp only [Bool.or_eq_true, Bool.not_eq_true', not_or, Bool.not_eq_true,
        Bool.not_eq_false] at hcheck
      obtain ⟨⟨⟨rfl, hw⟩, hd⟩, hc⟩ := hcheck
      exact .lock (.newOrder hph hw hd hc)
  | locks cts =>
    have hcts : cl.phase.lockCts = cts := by rw [hph]; rfl
    simp only [resume, afterLocks]
    split
    · have hwon : Won cfg cl (.newOrder cart (.log cts)) := .newOrder hph
      split
      · have hlog : Stretch cfg vec c cl _ _ _ := .log rfl hwon
        rw [hcts] at hlog
        exact hlog
      · rw [appendStep_label]
        exact .commit rfl (.inr ⟨hwon, by rw [hcts]; rfl⟩) (installs_appendStep _ cts)
    · exact .giveUp (.newOrder hph)
  | reverts => exact .abort (by rw [hph]; rfl) (by rw [hph]; rfl) (.idle _)
  | log cts =>
    simp only [resume, appendStep_label]
    exact .commit rfl (.inl ⟨hph, rfl⟩) (installs_appendStep cl cts)
  | nextOID cts => exact .insert hph
  | install cts assignedOID => exact .register (.newOrder hph)
  | register => exact .publish (.newOrder hph)
  | publish => exact .finishNewOrder hph

end NewOrderTransaction

namespace PaymentTransaction

variable {cart : PaymentCart} {cID : UInt32}

theorem stretch_checkStep {pc : PaymentPC} (hph : cl.phase = .payment cart pc)
    (hpc : pc = .customer cID ∨ pc = .snapshot cID) :
    Stretch cfg vec c cl (.payment cart) (checkStep cfg c cl cart cID).1
      (checkStep cfg c cl cart cID).2 := by
  unfold checkStep
  split
  · rename_i hcheck
    simp only [Bool.and_eq_true] at hcheck
    exact .lock (.payment hph hpc hcheck.1.1 hcheck.1.2 hcheck.2)
  · exact .stop (by rcases hpc with rfl | rfl <;> rw [hph] <;> rfl) (by rw [hph]; rfl) (.idle _)
      (by simp)

theorem stretch {pc : PaymentPC} (hph : cl.phase = .payment cart pc) :
    Stretch cfg vec c cl (.payment cart) (resume cfg c cl cart vec pc).1
      (resume cfg c cl cart vec pc).2 := by
  cases pc with
  | readSet =>
    simp only [resume, afterReadSet]
    split
    · exact .read (.lookup hph)
    · exact .read (.payment hph (.inl rfl) _)
  | lookup =>
    simp only [resume, afterLookup]
    split
    · exact .read (.payment hph (.inr rfl) _)
    · exact .stop (by rw [hph]; rfl) (by rw [hph]; rfl) (.idle _) (by simp)
  | customer cID =>
    cases hmode : cfg.SNAPSHOT_ACQUISITION_TYPE with
    | COMPLETE =>
      simp only [resume, afterCustomer, hmode]
      exact stretch_checkStep hph (.inl rfl)
    | ONLY_READ_SET =>
      simp only [resume, afterCustomer, hmode]
      exact stretch_snapshot _ hmode (hph ▸ .payment cart cID)
  | snapshot cID => exact stretch_checkStep hph (.inr rfl)
  | locks cID cts =>
    have hcts : cl.phase.lockCts = cts := by rw [hph]; rfl
    simp only [resume, afterLocks]
    split
    · have hwon : Won cfg cl (.payment cart (.log cID cts)) := .payment hph
      split
      · have hlog : Stretch cfg vec c cl _ _ _ := .log rfl hwon
        rw [hcts] at hlog
        exact hlog
      · exact .commit rfl (.inr ⟨hwon, by rw [hcts]; rfl⟩) (.payment cart cID cts)
    · exact .giveUp (.payment hph)
  | reverts => exact .abort (by rw [hph]; rfl) (by rw [hph]; rfl) (.idle _)
  | log cID cts => exact .commit rfl (.inl ⟨hph, rfl⟩) (.payment cart cID cts)
  | install => exact .publish (.payment hph)
  | publish => exact .finish (.idle _) (.inl ⟨cart, hph, rfl⟩)

end PaymentTransaction

namespace DeliveryTransaction

variable {cart : DeliveryCart} {dID : UInt8} {cID : UInt32}

theorem ends_next (cfg : Config) (cl : Client) (cart : DeliveryCart) (dID : UInt8)
    (outcome : Outcome) : ∃ p, Ends (.delivery cart dID) p ∧
      next cfg cl cart dID outcome = ({ cl with phase := p }, .finish outcome) := by
  unfold next
  split
  · exact ⟨_, .next cart dID, rfl⟩
  · exact ⟨_, .idle _, rfl⟩

theorem stretch_checkStep {pc : DeliveryPC} (hph : cl.phase = .delivery cart dID pc)
    (hpc : pc = .customer cID ∨ pc = .snapshot cID) :
    Stretch cfg vec c cl (.delivery cart dID) (checkStep cfg c cl cart dID cID).1
      (checkStep cfg c cl cart dID cID).2 := by
  have hstop : Stretch cfg vec c cl (.delivery cart dID)
      (next cfg cl cart dID (.ABORTED .INCONSISTENT_SNAPSHOT)).1
      (next cfg cl cart dID (.ABORTED .INCONSISTENT_SNAPSHOT)).2 := by
    obtain ⟨p, hp, heq⟩ := ends_next cfg cl cart dID (.ABORTED .INCONSISTENT_SNAPSHOT)
    rw [heq]
    exact .stop (by rcases hpc with rfl | rfl <;> rw [hph] <;> rfl) (by rw [hph]; rfl) hp (by simp)
  unfold checkStep
  split
  swap
  · exact hstop
  rename_i hrows
  split
  · exact hstop
  · rename_i hfetch
    refine .lock (.delivery hph (.inl ⟨hpc, hrows⟩) ?_)
    unfold fetchOlderVersion at hfetch
    split at hfetch
    · assumption
    · simp at hfetch
  · rename_i hfetch
    exact .read (.olderVersion hph hpc hrows hfetch)

theorem stretch {pc : DeliveryPC} (hph : cl.phase = .delivery cart dID pc) (hpc : pc ≠ .begin) :
    Stretch cfg vec c cl (.delivery cart dID) (resume cfg c cl cart dID vec pc).1
      (resume cfg c cl cart dID vec pc).2 := by
  have hstop : ∀ outcome, cl.phase.status = .reading → Stretch cfg vec c cl (.delivery cart dID)
      (next cfg cl cart dID outcome).1 (next cfg cl cart dID outcome).2 := by
    intro outcome hst
    obtain ⟨p, hp, heq⟩ := ends_next cfg cl cart dID outcome
    rw [heq]
    exact .stop hst (by rw [hph]; rfl) hp (by simp)
  cases pc with
  | begin => exact absurd rfl hpc
  | oldest =>
    simp only [resume, afterOldest]
    split
    · exact .read (.orderRows hph)
    · exact hstop _ (by rw [hph]; rfl)
  | orderRows => exact .read (.delivery hph _)
  | customer cID =>
    cases hmode : cfg.SNAPSHOT_ACQUISITION_TYPE with
    | COMPLETE =>
      simp only [resume, afterCustomer, hmode]
      exact stretch_checkStep hph (.inl rfl)
    | ONLY_READ_SET =>
      simp only [resume, afterCustomer, hmode]
      exact stretch_snapshot _ hmode (hph ▸ .delivery cart dID cID)
  | snapshot cID => exact stretch_checkStep hph (.inr rfl)
  | olderVersion cID =>
    simp only [resume, afterOlderVersion]
    split
    · exact .lock (.delivery hph (.inr rfl) ‹_›)
    · exact hstop _ (by rw [hph]; rfl)
  | locks cID cts =>
    have hcts : cl.phase.lockCts = cts := by rw [hph]; rfl
    simp only [resume, afterLocks]
    split
    · rename_i hlocked
      have hwon : Won cfg cl (.delivery cart dID (.log cID cts)) := .delivery hph hlocked
      split
      · have hlog : Stretch cfg vec c cl _ _ _ := .log rfl hwon
        rw [hcts] at hlog
        exact hlog
      · exact .commit rfl (.inr ⟨hwon, by rw [hcts]; rfl⟩) (.delivery cart dID cID cts)
    · exact .giveUp (.delivery hph)
  | reverts =>
    simp only [resume]
    obtain ⟨p, hp, heq⟩ := ends_next cfg cl cart dID (.ABORTED .UNSUCCESSFUL_LOCK)
    rw [heq]
    exact .abort (by rw [hph]; rfl) (by rw [hph]; rfl) hp
  | log cID cts => exact .commit rfl (.inl ⟨hph, rfl⟩) (.delivery cart dID cID cts)
  | install => exact .register (.delivery hph)
  | register => exact .publish (.delivery hph)
  | publish =>
    simp only [resume]
    obtain ⟨p, hp, heq⟩ := ends_next cfg cl cart dID .COMMITTED
    rw [heq]
    exact .finish hp (.inr ⟨cart, dID, hph, rfl⟩)

end DeliveryTransaction

def Client.recount (cl : Client) (n m : ℕ) : Client :=
  { cl with sendCQ := n, outstandingSendCompletionCnt := m }

theorem Client.startBase_t : (cl.startBase cfg vec p).t = cl.t := by
  unfold startBase
  split <;> rfl

/-- **Every step of a client's CPU is a stretch** of the course of its transaction. The poll loop
before it has changed the counters of completions. -/
theorem ClientStep.stretch (h : ClientStep cfg vec c cl cl' o l) :
    ∃ n m trx, o = ⟨cl'.t, trx⟩ ∧ Stretch cfg vec c (cl.recount n m) trx cl' l := by
  cases h with
  | newOrder hc hidle cart =>
    have heq : NewOrderTransaction.start cfg { cl with t := cl.t + 1 } cart vec = _ :=
      start_eq { cl with t := cl.t + 1 } vec _
    have hstart : Starts cfg .idle _ _ _ := .newOrder cart
    rw [← hidle] at hstart
    rw [heq]
    refine ⟨cl.sendCQ, cl.outstandingSendCompletionCnt, .newOrder cart, ?_, stretch_start hstart⟩
    rw [Client.post, Client.startBase_t]
  | payment hc hidle cart =>
    have heq : PaymentTransaction.start cfg { cl with t := cl.t + 1 } cart vec = _ :=
      start_eq { cl with t := cl.t + 1 } vec _
    have hstart : Starts cfg .idle _ _ _ := .payment cart
    rw [← hidle] at hstart
    rw [heq]
    refine ⟨cl.sendCQ, cl.outstandingSendCompletionCnt, .payment cart, ?_, stretch_start hstart⟩
    rw [Client.post, Client.startBase_t]
  | delivery hc hidle cart =>
    refine ⟨cl.sendCQ, cl.outstandingSendCompletionCnt, _, rfl, .call cart hidle ?_⟩
    split
    · exact .inr rfl
    · exact .inl rfl
  | resume htrx hpoll =>
    have hphase : (cl.poll cfg).phase = cl.phase := rfl
    refine ⟨(cl.poll cfg).sendCQ, (cl.poll cfg).outstandingSendCompletionCnt, _, rfl, ?_⟩
    change Stretch cfg vec c (cl.poll cfg) _ _ _
    cases hph : cl.phase with
    | idle => simp [hph, Phase.trx] at htrx
    | newOrder cart pc =>
      obtain rfl : Trx.newOrder cart = _ := by simpa [hph, Phase.trx] using htrx
      simp only [Client.resume, hphase, hph]
      exact NewOrderTransaction.stretch (hphase.trans hph)
    | payment cart pc =>
      obtain rfl : Trx.payment cart = _ := by simpa [hph, Phase.trx] using htrx
      simp only [Client.resume, hphase, hph]
      exact PaymentTransaction.stretch (hphase.trans hph)
    | delivery cart dID pc =>
      obtain rfl : Trx.delivery cart dID = _ := by simpa [hph, Phase.trx] using htrx
      simp only [Client.resume, hphase, hph]
      by_cases hpc : pc = .begin
      · subst hpc
        have heq : (DeliveryTransaction.beginStep cfg (cl.poll cfg) cart dID vec).1 = _ :=
          start_eq { cl.poll cfg with t := cl.t + 1 } vec _
        have hstart : Starts cfg (.delivery cart dID .begin) _ _ _ := .delivery cart dID
        rw [← hph, ← hphase] at hstart
        simp only [DeliveryTransaction.resume]
        rw [heq]
        exact stretch_start hstart
      · exact DeliveryTransaction.stretch (hphase.trans hph) hpc

end RdmaSnapshot
