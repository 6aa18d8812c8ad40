import RdmaSnapshot.Acceptance
import RdmaSnapshot.Completions
import RdmaSnapshot.LostUpdate
import RdmaSnapshot.OrderIDs

/-!
# Transactions over whole runs

No client waits for another one, since a transaction that meets a lock gives up. From every
reachable state, whatever the other clients hold, the transaction of a client comes to its end by
steps of that client's CPU and of its network interface alone.

What transactions find in the records and what they leave there does not depend on how their steps
interleave either: which versions a reader can meet, on what a transaction has decided when it
locks, that every lock is released once and that no payment is lost.
-/

namespace RdmaSnapshot

variable {cfg : Config} {s s' : State} {c : ClientID} {cl cl' : Client} {l : CpuLabel} {trx : Trx}
  {vec : ClientID → UInt32} {n : ℕ} {k : Key} {ts : List Ticket}

/-! ## Poll loops ahead -/

/-- At most so many poll loops are ahead of a client. A Delivery passes at most twelve for every
district; the districts after `dID` are counted from the next value of the loop variable. -/
def Phase.ahead (cfg : Config) : Phase → ℕ
  | .idle => 0
  | .newOrder _ pc =>
    match pc with
    | .readSet => 9
    | .snapshot => 8
    | .olderVersions _ => 7
    | .locks _ => 6
    | .log _ => 5
    | .nextOID _ => 4
    | .install _ _ => 3
    | .register => 2
    | .reverts | .publish => 1
  | .payment _ pc =>
    match pc with
    | .readSet => 8
    | .lookup => 7
    | .customer _ => 6
    | .snapshot _ => 5
    | .locks _ _ => 4
    | .log _ _ => 3
    | .install => 2
    | .reverts | .publish => 1
  | .delivery _ dID pc =>
    12 * (cfg.DISTRICT_PER_WAREHOUSE - (dID + 1).toNat) +
      match pc with
      | .begin => 12
      | .oldest => 11
      | .orderRows => 10
      | .customer _ => 9
      | .snapshot _ => 8
      | .olderVersion _ => 7
      | .locks _ _ => 6
      | .log _ _ => 5
      | .install => 4
      | .register => 3
      | .reverts | .publish => 2

/-- An iteration of a Delivery is followed by one for a district of the warehouse. -/
theorem DeliveryTransaction.lt_of_resume {cart cart' : DeliveryCart} {dID d : UInt8}
    {pc : DeliveryPC}
    (h : (resume cfg c cl cart dID vec pc).1.phase = .delivery cart' d .begin) :
    d.toNat < cfg.DISTRICT_PER_WAREHOUSE := by
  have hnext : ∀ o, (next cfg cl cart dID o).1.phase = .delivery cart' d .begin →
      d.toNat < cfg.DISTRICT_PER_WAREHOUSE := by
    intro o hph
    simp only [next] at hph
    split at hph
    · cases hph
      assumption
    · cases hph
  have hcheck : ∀ cID, (checkStep cfg c cl cart dID cID).1.phase = .delivery cart' d .begin →
      d.toNat < cfg.DISTRICT_PER_WAREHOUSE := by
    intro cID hph
    unfold checkStep at hph
    split at hph
    · split at hph
      · exact hnext _ hph
      · cases hph
      · cases hph
    · exact hnext _ hph
  cases pc with
  | begin =>
    simp only [resume, beginStep] at h
    split at h
    · cases (getReadTimestamp_phase ..).symm.trans h
    · cases h
  | oldest =>
    simp only [resume, afterOldest] at h
    split at h
    · cases h
    · exact hnext _ h
  | customer cID =>
    simp only [resume, afterCustomer] at h
    split at h
    · exact hcheck _ h
    · cases (acquireSnapshot_phase ..).symm.trans h
  | snapshot cID => exact hcheck _ h
  | olderVersion cID =>
    simp only [resume, afterOlderVersion] at h
    split at h
    · cases h
    · exact hnext _ h
  | locks cID cts =>
    simp only [resume, afterLocks] at h
    split at h
    · split at h <;> cases h
    · cases h
  | reverts | publish => exact hnext _ h
  | orderRows | log | install | register => cases h

/-- **Every stretch of code brings a transaction nearer to its end.** -/
theorem Stretch.ahead_lt (h : Stretch cfg vec c cl trx cl' l) (hne : cl.phase ≠ .idle)
    (hdistricts : cfg.DISTRICT_PER_WAREHOUSE ≤ 255)
    (hbegin : ∀ cart dID pc, cl.phase = .delivery cart dID pc →
      cl'.phase = .delivery cart (dID + 1) .begin → (dID + 1).toNat < cfg.DISTRICT_PER_WAREHOUSE) :
    cl'.phase.ahead cfg < cl.phase.ahead cfg := by
  -- the end of a transaction, from any of its poll loops
  have hends : ∀ {p : Phase}, Ends trx p → cl.phase.trx = some trx → cl.phase.status ≠ .idle →
      cl'.phase = p → cl'.phase.ahead cfg < cl.phase.ahead cfg := by
    intro p hp htrx hst heq
    cases hph : cl.phase with
    | idle => exact absurd hph hne
    | newOrder cart pc | payment cart pc =>
      rw [hph] at htrx
      cases htrx
      cases hp
      rw [heq]
      cases pc <;> simp [Phase.ahead]
    | delivery cart dID pc =>
      rw [hph] at htrx hst
      cases htrx
      cases hp with
      | idle =>
        rw [heq]
        cases pc <;> simp [Phase.ahead]
      | next =>
        have hlt := hbegin cart dID pc hph heq
        have hsucc : (dID + 1 + 1).toNat = (dID + 1).toNat + 1 := by
          rw [UInt8.toNat_add, UInt8.toNat_one]
          omega
        rw [heq]
        simp only [Phase.ahead, hsucc]
        cases pc <;> first | exact absurd rfl hst | (simp only; omega)
  obtain ⟨ph, hph⟩ : ∃ ph, cl.phase = ph := ⟨_, rfl⟩
  cases h with
  | call cart hidle => exact absurd hidle hne
  | start hvec h =>
    rw [hph] at h hne ⊢
    cases h with
    | newOrder | payment => exact absurd rfl hne
    | delivery => simp [Client.post, Phase.ahead]
  | read h =>
    cases h with
    | lookup hph | orderRows hph | delivery hph => simp [hph, Client.post, Phase.ahead]
    | newOrder hph hpc | payment hph hpc | olderVersion hph hpc =>
      rcases hpc with rfl | rfl <;> simp [hph, Client.post, Phase.ahead]
  | snapshot vec' hmode hposts h =>
    rw [hph] at h ⊢
    cases h <;> simp [Client.post, Phase.ahead]
  | stop hst htrx h | abort hst htrx h => exact hends h htrx (by rw [hst]; simp) rfl
  | lock h =>
    cases h with
    | newOrder hph => simp [hph, Client.post, Phase.ahead]
    | payment hph hpc => rcases hpc with rfl | rfl <;> simp [hph, Client.post, Phase.ahead]
    | delivery hph hpc =>
      rcases hpc with ⟨rfl | rfl, -⟩ | rfl <;> simp [hph, Client.post, Phase.ahead]
  | giveUp h =>
    cases h with
    | newOrder hph | payment hph | delivery hph => simp [hph, Client.post, Phase.ahead]
  | log htrx h =>
    cases h with
    | newOrder hph | payment hph | delivery hph => simp [hph, Client.postLog, Phase.ahead]
  | commit htrx hbase h =>
    have hlog : ∀ {p : Phase}, Won cfg cl p → p.ahead cfg ≤ cl.phase.ahead cfg := by
      intro p hwon
      cases hwon with
      | newOrder hph | payment hph | delivery hph => simp [hph, Phase.ahead]
    refine Nat.lt_of_lt_of_le ?_ (hbase.elim (fun hp => Nat.le_of_eq (by rw [hp.1]))
      fun hp => hlog hp.1)
    cases h <;> simp [Client.post, NewOrderTransaction.installStep_phase,
      PaymentTransaction.installStep, DeliveryTransaction.installStep, Phase.ahead]
  | insert hph => simp [hph, NewOrderTransaction.installStep_phase, Phase.ahead]
  | register h =>
    cases h with
    | newOrder hph | delivery hph => simp [hph, Client.post, Phase.ahead]
  | publish h =>
    cases h with
    | newOrder hph | payment hph | delivery hph => simp [hph, Client.post, Phase.ahead]
  | finishNewOrder hph => simp [hph, NewOrderTransaction.afterPublish, Phase.ahead]
  | finish h hfinish =>
    refine hends h ?_ ?_ rfl
    all_goals
      rcases hfinish with ⟨cart, hph, rfl⟩ | ⟨cart, dID, hph, rfl⟩ <;>
        simp [hph, Phase.trx, Phase.status]

/-! ## What is found in a record -/

/-- A NewOrder has locked its five stocks. -/
theorem exists_midway : ∃ s, Reachable (.shipped 1) s ∧ NoWrap (.shipped 1) s ∧
    (s.mem (.stock 0 1)).head.writeTimestamp.isLocked = true ∧
    (s.clients 0).phase.status = .locking ∧
    (s.clients 0).pollCnt (.shipped 1) ≤ (s.clients 0).sendCQ ∧
    s.trace.length = 30 ∧ (s.clients 0).phase.ahead (.shipped 1) = 6 := by
  obtain ⟨s, hs, hwrap, h⟩ := exists_reachable (init_plain (.shipped 1))
    ((newOrderAlone 0).take 30) (fun s =>
      (s.mem (.stock 0 1)).head.writeTimestamp.isLocked = true ∧
        (s.clients 0).phase.status = .locking ∧
        (s.clients 0).pollCnt (.shipped 1) ≤ (s.clients 0).sendCQ ∧
        s.trace.length = 30 ∧ (s.clients 0).phase.ahead (.shipped 1) = 6)
    (by decide) (by decide +kernel)
  exact ⟨s, hs, hwrap, of_decide_eq_true h⟩

/-- **Whatever is read of a record is a version it has had.** An unlocked head is the newest
version; a locked one has the body of the newest version behind the word of its holder; a slot of
the ring that is not marked as deleted holds a version that was a head. No two versions have the
same writer. -/
theorem genuine_of_reachable (h : Reachable cfg s) (hwrap : NoWrap cfg s)
    (hk : k.versioned = true) :
    ((s.mem k).head.writeTimestamp.isLocked = false → SameVersion k (s.mem k).head (s.current k)) ∧
    ((s.mem k).head.writeTimestamp.isLocked = true →
      ∃ t stage, s.holder k = some (t, stage) ∧ (s.mem k).head.writeTimestamp = t.word) ∧
    k.mask (s.mem k).head.body = k.mask (s.current k).body ∧
    (∀ slot, ((s.mem k).olderVersions slot).writeTimestamp.isDeleted = true ∨
      ∃ v ∈ s.versions k, SameVersion k ((s.mem k).olderVersions slot) v) ∧
    ((s.versions k).map fun v => v.writeTimestamp.writer).Nodup := by
  have hrec := (inv_of_reachable h hwrap).records k hk
  refine ⟨fun hunlocked => hrec.head_of_free ?_, hrec.held_of_locked, hrec.body, hrec.ring,
    hrec.lockWord.nodup⟩
  rw [← Option.not_isSome_iff_eq_none, ← hrec.isLocked_iff, hunlocked]
  simp

theorem genuine_of_reachable_midway : ∃ s, Reachable (.shipped 1) s ∧
    (∃ t stage, s.holder (.stock 0 1) = some (t, stage) ∧
      (s.mem (.stock 0 1)).head.writeTimestamp = t.word) ∧
    (s.mem (.stock 0 1)).head.body = (s.current (.stock 0 1)).body := by
  obtain ⟨s, hs, hwrap, hlocked, -⟩ := exists_midway
  obtain ⟨-, hheld, hbody, -⟩ := genuine_of_reachable (k := .stock 0 1) hs hwrap rfl
  exact ⟨s, hs, hheld hlocked, hbody⟩

/-- **What a transaction has decided on when it locks.** All it has read is accessible to its
snapshot; its copy of a record it is about to write is a version of the record, and the current one
as soon as it holds the lock. -/
theorem accepted_of_locking (h : Reachable cfg s) (hwrap : NoWrap cfg s)
    (hlocking : (s.clients c).phase.status = .locking) :
    (∀ w ∈ (s.clients c).readWords cfg, (s.clients c).isRecordAccessible c w = true) ∧
    ∀ p ∈ (s.clients c).phase.writeSet cfg,
      (∃ u ∈ s.versions p.1, SameVersion p.1 ((s.clients c).copy p.1 p.2) u) ∧
      (s.mine c p.1 ≠ none → SameVersion p.1 ((s.clients c).copy p.1 p.2) (s.current p.1)) := by
  have hcl := (inv_of_reachable h hwrap).clients c
  refine ⟨(vetted_of_reachable h hwrap c).accepted hlocking, fun p hp =>
    ⟨hcl.genuine p hp, fun hmine => ?_⟩⟩
  have hne : (s.clients c).phase ≠ .idle := fun hidle => by
    simp [hidle, Phase.status] at hlocking
  obtain ⟨trx, htrx⟩ := Phase.exists_trx hne
  cases hcl.locking trx htrx p hp with
  | pending _ hnone | refused _ _ hnone => exact absurd hnone hmine
  | acquired _ _ _ hcur => exact hcur

theorem accepted_of_locking_midway : ∃ s, Reachable (.shipped 1) s ∧
    (s.clients 0).phase.status = .locking ∧
    ∀ w ∈ (s.clients 0).readWords (.shipped 1), (s.clients 0).isRecordAccessible 0 w = true := by
  obtain ⟨s, hs, hwrap, -, hlocking, -⟩ := exists_midway
  exact ⟨s, hs, hlocking, (accepted_of_locking hs hwrap hlocking).1⟩

/-! ## Locks and releases -/

/-- **Every lock is released exactly once.** The CASes that swapped the word of a record are as
many as the WRITEs that put a word back and the versions that were installed, and one more while
the record is locked. -/
theorem locks_balance (h : Reachable cfg s) (hwrap : NoWrap cfg s) (hk : k.versioned = true) :
    (s.locked k).length + 1 = (s.reverted k).length + (s.versions k).length +
      if (s.mem k).head.writeTimestamp.isLocked = true then 1 else 0 := by
  have hholder : ((s.mem k).head.writeTimestamp.isLocked = true) = ((s.holder k).isSome = true) :=
    propext ((inv_of_reachable h hwrap).records k hk).isLocked_iff
  simp only [hholder]
  clear hholder
  induction h with
  | start hs => simp [State.locked, State.reverted, hs.trace, hs.versions, hs.holder]
  | next hs _ ha ih =>
    have hwrap' := hwrap.of_step ha
    have hinv := inv_of_reachable hs hwrap'
    have hsum := ih hwrap'
    rcases step_cases ha with ⟨c, vec, cl, o, l, -, -, rfl⟩ | ⟨c, i, wr, answer, -, ho, rfl⟩ |
      ⟨g, -, rfl⟩
    · exact hsum
    · cases hinv.recordStep ho hk with
      | other hv =>
        rw [State.locked_effect_of_ne fun _ _ _ hv' => by simp [hv', Verb.mutates] at hv,
          State.reverted_effect_of_ne fun _ hv' => by simp [hv', Verb.mutates] at hv,
          State.versions_effect_of_ne fun _ hv' => by simp [hv', Verb.mutates] at hv,
          State.holder_effect_of_not_mutates hv]
        exact hsum
      | refused hv hw =>
        simpa [State.locked_effect_of_ne, State.reverted_effect_of_ne, State.versions_effect_of_ne,
          State.holder_effect_noSwap hv hw, hv, hw] using hsum
      | acquired hv hfree =>
        have hw := ((hinv.records k hk).head_of_free hfree).1
        simpa [State.locked_effect_swap hv hw, State.reverted_effect_of_ne,
          State.versions_effect_of_ne, State.holder_effect_swap hv hw, hv, hfree] using hsum
      | reverted hv hh =>
        simp only [hh, Option.isSome_some, if_true] at hsum
        simp [State.locked_effect_of_ne, State.reverted_effect_writeTimestamp hv,
          State.versions_effect_of_ne, State.holder_effect_writeTimestamp hv, hv]
        omega
      | pushed hv hh =>
        simpa [State.locked_effect_of_ne, State.reverted_effect_of_ne, State.versions_effect_of_ne,
          State.holder_effect_writePointerList hv, hv] using hsum
      | saved hv hh =>
        simpa [State.locked_effect_of_ne, State.reverted_effect_of_ne, State.versions_effect_of_ne,
          State.holder_effect_writeOlderVersion hv, hv] using hsum
      | installed hv hh =>
        simp only [hh, Option.isSome_some, if_true] at hsum
        simp [State.locked_effect_of_ne, State.reverted_effect_of_ne,
          State.versions_effect_writeHead hv, State.holder_effect_writeHead hv, hv]
        omega
    · exact hsum

theorem locks_balance_midway : ∃ s, Reachable (.shipped 1) s ∧
    (s.locked (.stock 0 1)).length + 1 =
      (s.reverted (.stock 0 1)).length + (s.versions (.stock 0 1)).length + 1 := by
  obtain ⟨s, hs, hwrap, hlocked, -⟩ := exists_midway
  have hbalance := locks_balance (k := .stock 0 1) hs hwrap rfl
  rw [if_pos hlocked] at hbalance
  exact ⟨s, hs, hbalance⟩

/-- A client that holds a record has its WRITEs to it outstanding or ahead. -/
theorem ClientOK.busy_of_mine (h : ClientOK cfg s c cl) (hk : k.versioned = true)
    (hmine : s.mine c k ≠ none) :
    cl.phase.isInert = false ∨
      ∃ wr ∈ cl.outstanding, wr.verb.mutates k = true ∧ wr.verb.lands = false := by
  by_contra hnot
  obtain ⟨hinert, hout⟩ := not_or.1 hnot
  obtain ⟨hwrite, -, hplan⟩ : cl.phase.writeSet cfg = [] ∧ _ ∧ cl.plan cfg c = [] :=
    Client.sets_of_isInert (by simpa using hinert)
  have hconf := h.conforms k hk (by simp [hwrite])
  have hops : cl.ops k = [] := by
    rw [List.eq_nil_iff_forall_not_mem]
    intro p hp
    have hlands := hconf.lands_eq_false p (List.mem_append_left _ hp)
    rw [Client.ops, opsOn, List.mem_filter] at hp
    obtain ⟨wr, hwr, rfl⟩ := List.mem_map.1 hp.1
    exact hout ⟨wr, hwr, hp.2, hlands⟩
  rw [hops, hplan] at hconf
  exact hmine hconf.mine_eq_none

/-- **No lock is left behind.** As long as the word of a record is locked, the client it names is
executing a transaction that has yet to post its WRITEs, or has a WRITE to the record in a queue. -/
theorem holder_at_work (h : Reachable cfg s) (hwrap : NoWrap cfg s) (hk : k.versioned = true)
    (hlocked : (s.mem k).head.writeTimestamp.isLocked = true) :
    (s.clients (s.mem k).head.writeTimestamp.clientID).phase.isInert = false ∨
      ∃ wr ∈ (s.clients (s.mem k).head.writeTimestamp.clientID).outstanding,
        wr.verb.mutates k = true ∧ wr.verb.lands = false := by
  have hinv := inv_of_reachable h hwrap
  have hrec := hinv.records k hk
  obtain ⟨t, stage, hholder, hword⟩ := hrec.held_of_locked hlocked
  have hclient : t.word.clientID = t.client := by
    rw [(hrec.ticket t stage hholder).word_eq]
    rfl
  rw [hword, hclient]
  refine (hinv.clients t.client).busy_of_mine hk ?_
  rw [State.mine_eq_some.2 ⟨hholder, rfl⟩]
  simp

theorem holder_at_work_midway : ∃ s, Reachable (.shipped 1) s ∧
    ((s.clients (s.mem (.stock 0 1)).head.writeTimestamp.clientID).phase.isInert = false ∨
      ∃ wr ∈ (s.clients (s.mem (.stock 0 1)).head.writeTimestamp.clientID).outstanding,
        wr.verb.mutates (.stock 0 1) = true ∧ wr.verb.lands = false) := by
  obtain ⟨s, hs, hwrap, hlocked, -⟩ := exists_midway
  exact ⟨s, hs, holder_at_work hs hwrap rfl hlocked⟩

/-! ## Payments -/

/-- What a transaction makes of a year-to-date sum: a Payment adds its amount. -/
def Ticket.pay (t : Ticket) (ytd : Float32) : Float32 :=
  match t.owner.trx with
  | .payment cart => ytd + cart.hAmount
  | _ => ytd

/-- What every transaction computes from the version before it is accumulated along the history. -/
theorem Computed.foldr {β : Type} (f : Row k.table → β) (g : Ticket → β → β)
    {v₀ : Version (Row k.table)} {vs : List (Version (Row k.table))}
    (hmask : ∀ row, f (k.mask row) = f row)
    (hg : ∀ {t y v}, Built cfg t k y v → f v.body = g t (f y.body))
    (h : Computed cfg k v₀ ts vs) : ∀ v ∈ vs.head?, f v.body = ts.foldr g (f v₀.body) := by
  induction h with
  | start =>
    intro v hv
    cases hv
    rfl
  | @install ts x y w past t h hy hb ih =>
    intro v hv
    cases hv
    rw [List.foldr_cons, ← ih x rfl, ← hmask x.body, ← hy.2, hmask]
    exact hg hb

/-- **No payment is lost.** The year-to-date sums of an unlocked warehouse, district and customer
are those of the population with the amounts of the Payments that locked the record and did not put
its word back added one after the other, in the order of their locks. -/
theorem payments_add_up (h : Reachable cfg s) (hwrap : NoWrap cfg s) (wID : UInt16) (dID : UInt8)
    (cID : UInt32) :
    ((s.mem (.warehouse wID)).head.writeTimestamp.isLocked = false →
      (s.mem (.warehouse wID)).head.body.W_YTD = (s.lockers (.warehouse wID)).foldr Ticket.pay
        (s.populated (.warehouse wID)).head.body.W_YTD) ∧
    ((s.mem (.district wID dID)).head.writeTimestamp.isLocked = false →
      (s.mem (.district wID dID)).head.body.D_YTD = (s.lockers (.district wID dID)).foldr Ticket.pay
        (s.populated (.district wID dID)).head.body.D_YTD) ∧
    ((s.mem (.customer wID dID cID)).head.writeTimestamp.isLocked = false →
      (s.mem (.customer wID dID cID)).head.body.C_YTD_PAYMENT =
        (s.lockers (.customer wID dID cID)).foldr Ticket.pay
          (s.populated (.customer wID dID cID)).head.body.C_YTD_PAYMENT) := by
  have hsum : ∀ (k : Key) (f : Row k.table → Float32), k.versioned = true →
      (∀ row, f (k.mask row) = f row) →
      (∀ {t y v}, Built cfg t k y v → f v.body = t.pay (f y.body)) →
      (s.mem k).head.writeTimestamp.isLocked = false →
      f (s.mem k).head.body = (s.lockers k).foldr Ticket.pay (f (s.populated k).head.body) := by
    intro k f hk hmask hbuilt hunlocked
    obtain ⟨hhead, hcomp⟩ := computed_of_unlocked h hwrap hk hunlocked
    rw [← hcomp.foldr f Ticket.pay hmask hbuilt _ (s.head?_versions k), ← hmask, hhead.2, hmask]
  refine ⟨hsum (.warehouse wID) Warehouse.W_YTD rfl (fun _ => rfl) fun hb => ?_,
    hsum (.district wID dID) District.D_YTD rfl (fun _ => rfl) fun hb => ?_,
    hsum (.customer wID dID cID) Customer.C_YTD_PAYMENT rfl (fun _ => rfl) fun hb => ?_⟩
  · cases hb with
    | warehouse ht => simp [Ticket.pay, ht, PaymentTransaction.newWarehouseV]
  · cases hb with
    | nextOID ht => simp [Ticket.pay, ht, NewOrderTransaction.newDistrictV]
    | district ht => simp [Ticket.pay, ht, PaymentTransaction.newDistrictV]
  · cases hb with
    | customer _ ht =>
      simp [Ticket.pay, ht, PaymentTransaction.newCustomerV, PaymentTransaction.newCustomer]
    | delivered _ _ ht => simp [Ticket.pay, ht, DeliveryTransaction.newCustomerV]

set_option maxRecDepth 100000 in
/-- A NewOrder draws its order id within a Payment. -/
theorem payments_add_up_once : ∃ s, Reachable (.shipped 2) s ∧
    (s.lockers (.district 0 0)).countP Ticket.isPayment = 1 ∧
    (s.mem (.district 0 0)).head.body.D_YTD = (s.lockers (.district 0 0)).foldr Ticket.pay
      (s.populated (.district 0 0)).head.body.D_YTD := by
  obtain ⟨s, hs, hwrap, h⟩ := exists_reachable (init_plain (.shipped 2))
    (paymentAround (newOrderAlone 1)) (fun s =>
      (s.mem (.district 0 0)).head.writeTimestamp.isLocked = false ∧
        (s.lockers (.district 0 0)).countP Ticket.isPayment = 1) (by decide) (by decide +kernel)
  obtain ⟨hunlocked, hcount⟩ := of_decide_eq_true h
  exact ⟨s, hs, hcount, (payments_add_up hs hwrap 0 0 0).2.1 hunlocked⟩

/-! ## One client alone -/

/-- A step of the CPU or of the network interface of client `c`. -/
def Action.IsOf (c : ClientID) (a : Action) : Prop :=
  a = .cpu c ∨ ∃ i answer, a = .nic c i answer

/-- The states reached from `s` while only client `c` makes steps. -/
abbrev Solo (cfg : Config) (c : ClientID) (s : State) : State → Prop :=
  Transition.ReachableBy (· = s) (step cfg) fun _ a => a.IsOf c

/-- Once there is a vector to copy there always is one. -/
theorem readerVectorOf_of_step {a : Action} (ha : step cfg s a = some s')
    (h : s.readerVectorOf cfg c ≠ none) : s'.readerVectorOf cfg c ≠ none := by
  unfold State.readerVectorOf at h ⊢
  split at h
  · rename_i hmode
    rw [if_pos hmode]
    rcases step_cases ha with ⟨c', _, cl, o, l, -, -, rfl⟩ | ⟨c', i, wr, answer, -, -, rfl⟩ |
      ⟨g, -, rfl⟩
    · exact h
    · exact h
    · by_cases hg : cfg.instanceNum c = g <;> simp [State.readOracle, hg, h]
  · rename_i hmode
    simp [hmode]

/-- A client in a transaction has a vector to copy. -/
theorem readerVectorOf_of_reachable (h : Reachable cfg s) :
    (s.clients c).phase ≠ .idle → s.readerVectorOf cfg c ≠ none := by
  induction h with
  | start hs => exact fun hne => absurd (hs.clients c).phase hne
  | next _ _ ha ih =>
    intro hne
    refine readerVectorOf_of_step ha ?_
    rcases step_client_cases ha c with ⟨vec, cl, o, l, ⟨hvec, -⟩, -, -⟩ | ⟨i, wr, answer, -, rfl⟩ |
      helse
    · simp [hvec]
    · rw [State.effect_clients_self] at hne
      exact ih hne
    · rw [helse.1] at hne
      exact ih hne

/-- What client `c` has posted takes effect, while its CPU waits. -/
theorem exists_drained (cfg : Config) (c : ClientID) (s : State) : ∃ s', Solo cfg c s s' ∧
    (s'.clients c).outstanding = [] ∧ (s'.clients c).phase = (s.clients c).phase ∧
      ∀ c', s'.acquired c' = s.acquired c' := by
  induction hn : (s.clients c).outstanding.length generalizing s with
  | zero => exact ⟨s, .start rfl, List.length_eq_zero_iff.1 hn, rfl, fun _ => rfl⟩
  | succ n ih =>
    obtain ⟨wr, rest, hout⟩ := List.exists_cons_of_length_eq_add_one hn
    have hstep : step cfg s (.nic c 0 .nothing) = some (s.effect c 0 wr .nothing) := by
      simp [step, State.nic, hout, Client.isOldest]
    have hrest : ((s.effect c 0 wr .nothing).clients c).outstanding = rest := by
      rw [State.effect_clients_self]
      simp [Client.complete, State.land, hout]
    obtain ⟨s', hs', hnil, hphase, hacq⟩ := ih (s.effect c 0 wr .nothing) (by
      rw [hrest]
      simpa [hout] using hn)
    refine ⟨s', hs'.trans ?_, hnil, hphase.trans (by rw [State.effect_clients_self]; rfl),
      fun c' => (hacq c').trans State.acquired_effect⟩
    rintro t rfl
    exact .next (.start rfl) (.inr ⟨0, .nothing, rfl⟩) hstep

/-- **Poll loops are exact.** A poll loop that is over has taken all completions of its client, and
everything that the code behind it reads has landed: what is still in the queues is WRITEs that
nobody waits for. -/
theorem rested_of_polled (h : Reachable cfg s) (hwrap : NoWrap cfg s)
    (hpoll : (s.clients c).pollCnt cfg ≤ (s.clients c).sendCQ) :
    ((s.clients c).poll cfg).Rested := by
  have hp := ((inv_of_reachable h hwrap).clients c).poll hpoll
  refine ⟨hp.sendCQ, hp.counted, fun wr hwr => ?_, hp.landed⟩
  simpa using List.countP_eq_zero.1 hp.unsignaled wr hwr

theorem rested_of_polled_midway : ∃ s, Reachable (.shipped 1) s ∧
    ((s.clients 0).poll (.shipped 1)).Rested := by
  obtain ⟨s, hs, hwrap, -, -, hpoll, -⟩ := exists_midway
  exact ⟨s, hs, rested_of_polled hs hwrap hpoll⟩

/-- The commit timestamps fit in 32 bits even if every client acquires `n` more. -/
def NoWrapFor (cfg : Config) (s : State) (n : ℕ) : Prop :=
  ∀ c, c.toNat < cfg.clientCnt → (s.acquired c + n) * cfg.clientCnt + c.toNat < 2 ^ 32

theorem NoWrapFor.mono {m : ℕ} (h : NoWrapFor cfg s n)
    (hle : ∀ c, s'.acquired c + m ≤ s.acquired c + n) : NoWrapFor cfg s' m := fun c hc =>
  Nat.lt_of_le_of_lt (Nat.add_le_add_right (Nat.mul_le_mul_right _ (hle c)) _) (h c hc)

theorem NoWrapFor.noWrap (h : NoWrapFor cfg s n) : NoWrap cfg s := fun c hc =>
  Nat.lt_of_le_of_lt (Nat.add_le_add_right (Nat.mul_le_mul_right _ (Nat.le_add_right _ _)) _)
    (h c hc)

/-- A client whose requests have all taken effect leaves its poll loop. -/
theorem exists_resumed (h : Reachable cfg s) (hwrap : NoWrap cfg s)
    (hdistricts : cfg.DISTRICT_PER_WAREHOUSE ≤ 255) (hne : (s.clients c).phase ≠ .idle)
    (hnil : (s.clients c).outstanding = []) :
    ∃ s', step cfg s (.cpu c) = some s' ∧
      (s'.clients c).phase.ahead cfg < (s.clients c).phase.ahead cfg ∧
      ∀ c', s'.acquired c' ≤ s.acquired c' + 1 := by
  obtain ⟨trx, htrx⟩ := Phase.exists_trx hne
  obtain ⟨vec, hvec⟩ := Option.ne_none_iff_exists'.1 (readerVectorOf_of_reachable h hne)
  have hcount := ((inv_of_reachable h hwrap).clients c).count
  rw [hnil, List.countP_nil, Nat.add_zero] at hcount
  have hpoll : (s.clients c).pollCnt cfg ≤ (s.clients c).sendCQ := Nat.le_of_eq hcount.symm
  have hstep : ClientStep cfg vec c (s.clients c) _ _ _ := .resume htrx hpoll
  obtain ⟨n, m, trx', -, hstretch⟩ := hstep.stretch
  refine ⟨_, by simp only [step, State.cpu, htrx, hvec, if_pos hpoll]; rfl, ?_, fun c' => ?_⟩
  · rw [State.setClient_clients_self]
    refine hstretch.ahead_lt hne hdistricts fun cart dID pc hph hnext => ?_
    have hresume : ((s.clients c).poll cfg).phase = .delivery cart dID pc := hph
    rw [Client.resume, hresume] at hnext
    exact DeliveryTransaction.lt_of_resume hnext
  · rw [State.acquired_setClient]
    split <;> omega

/-- **Transactions finish.** From every reachable state a client comes to the end of its
transaction, with nothing left in its queues, by steps of its own: no client waits for another
one, and no poll loop for a completion that never comes. The loop over the districts ends because
its variable does not wrap. -/
theorem finishes_alone (h : Reachable cfg s) (c : ClientID)
    (hdistricts : cfg.DISTRICT_PER_WAREHOUSE ≤ 255)
    (hwrap : NoWrapFor cfg s ((s.clients c).phase.ahead cfg)) :
    ∃ s', Solo cfg c s s' ∧ (s'.clients c).phase = .idle ∧ (s'.clients c).outstanding = [] ∧
      ∀ k, k.versioned = true → s'.mine c k = none := by
  -- the commit timestamps left to acquire are bounded by the measure itself
  refine Transition.ReachableBy.exists_of_measure (fun s => (s.clients c).phase.ahead cfg)
    (P := fun s => Reachable cfg s ∧ NoWrapFor cfg s ((s.clients c).phase.ahead cfg))
    (fun s hs => ?_) ⟨h, hwrap⟩
  obtain ⟨h, hwrap⟩ := hs
  obtain ⟨s₁, hs₁, hnil, hphase, hacq⟩ := exists_drained cfg c s
  have hreach : Reachable cfg s₁ := Transition.Leads.reachable hs₁.reachable h
  have hwrap₁ : NoWrapFor cfg s₁ ((s.clients c).phase.ahead cfg) :=
    hwrap.mono fun c' => Nat.le_of_eq (by rw [hacq])
  by_cases hidle : (s₁.clients c).phase = .idle
  · refine .inl ⟨s₁, hs₁, hidle, hnil, fun k hk => by_contra fun hmine => ?_⟩
    have hbusy := ((inv_of_reachable hreach hwrap₁.noWrap).clients c).busy_of_mine hk hmine
    simp [hidle, hnil, Phase.isInert] at hbusy
  · obtain ⟨s₂, hstep, hahead, hacq₂⟩ :=
      exists_resumed hreach hwrap₁.noWrap hdistricts hidle hnil
    rw [hphase] at hahead
    refine .inr ⟨s₂, hs₁.next (.inl rfl) hstep,
      ⟨hreach.next trivial hstep, hwrap₁.mono fun c' => ?_⟩, hahead⟩
    have := hacq₂ c'
    omega

theorem finishes_alone_midway : ∃ s, Reachable (.shipped 1) s ∧
    (s.mem (.stock 0 1)).head.writeTimestamp.isLocked = true ∧
    ∃ s', Solo (.shipped 1) 0 s s' ∧ (s'.clients 0).phase = .idle ∧
      (s'.clients 0).outstanding = [] ∧ ∀ k, k.versioned = true → s'.mine 0 k = none := by
  obtain ⟨s, hs, -, hlocked, -, -, hlength, hahead⟩ := exists_midway
  refine ⟨s, hs, hlocked, finishes_alone hs 0 (by decide) fun c hc => ?_⟩
  have hacq : s.acquired c ≤ 30 := hlength ▸ List.countP_le_length
  have hcnt : (Config.shipped 1).clientCnt = 1 := rfl
  rw [hahead]
  rw [hcnt] at hc ⊢
  omega

end RdmaSnapshot
