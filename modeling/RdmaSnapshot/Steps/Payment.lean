import RdmaSnapshot.Steps.Batch

/-!
# The steps of a Payment keep the invariant

One lemma for each stretch of `PaymentTransaction::doOne` between two poll loops. The WRITEs of a
commit are all posted in one batch whose only signaled request is the last one, so the poll loop
that follows covers one queue pair, that of the History row; the WRITEs on the others may take
effect at any time later.
-/

namespace RdmaSnapshot.PaymentTransaction

open DBExecutor

variable {cfg : Config} {s : State} {c : ClientID} {cl cl' : Client} {k : Key} {o : Owner}
  {cart : PaymentCart} {q : QueuePair} {p : Post} {cID : UInt32}

def servers (cfg : Config) (cart : PaymentCart) : List QueuePair :=
  [cfg.qpOf cart.wID, cfg.qpOf cart.residentWarehouseID]

def slots (cart : PaymentCart) (cID : UInt32) : List (Key × ℕ) :=
  [(.warehouse cart.wID, 0), (.district cart.wID cart.dID, 0),
    (.customer cart.residentWarehouseID cart.dID cID, 0)]

abbrev paidBy (cart : PaymentCart) (cID : UInt32) : Key :=
  .customer cart.residentWarehouseID cart.dID cID

structure NamedCopies (cart : PaymentCart) (cID : UInt32) (cl : Client) : Prop where
  warehouse : (Key.warehouse cart.wID).Names (warehouseV cl).body
  district : (Key.district cart.wID cart.dID).Names (districtV cl).body
  customer : (paidBy cart cID).Names (customerV cl).body

/-! ## Read set -/

theorem mem_readSetPosts (cfg : Config) (h : p ∈ readSetPosts cart) :
    p.qp cfg = cfg.qpOf cart.wID ∧ p.verb.Passive ∧
      ∀ cl : Client, cl.phase = .payment cart .readSet → cl.awaits cfg p.verb := by
  simp only [readSetPosts, List.mem_cons, List.not_mem_nil, or_false] at h
  rcases h with rfl | rfl | rfl | rfl
  all_goals
    refine ⟨rfl, fun k _ => rfl, fun cl hcl => ?_⟩
    simp [retrieveWarehouse, retrieveWarehousePointerList, retrieveDistrict,
      retrieveDistrictPointerList, Client.awaits, hcl, Phase.readsHeads, Phase.readSet]

theorem start_ok (h : Polled cfg s c cl) (hidle : cl.phase = .idle) (hc : c.toNat < cfg.clientCnt)
    (vec : ClientID → UInt32) :
    ClientOK cfg (s.setClient c (start cfg cl cart vec) o .begin) c (start cfg cl cart vec) := by
  have heq : start cfg cl cart vec = (cl.startBase cfg vec (.payment cart .readSet)).post
      (.payment cart) (startPosts cfg ++ readSetPosts cart) := start_eq cl vec _
  rw [heq]
  refine h.start hc (by simp) (by rw [hidle]; rfl) vec rfl rfl rfl rfl (by simp) ?_ ?_ ?_ ?_
  · intro p hp
    refine ⟨(mem_readSetPosts cfg hp).2.1, ?_⟩
    rw [(mem_readSetPosts cfg hp).1]
    exact QueuePair.noConfusion
  · intro cl' hcl' q hq hne
    have hq' : q = .oracle ∨ q = cfg.qpOf cart.wID := by simpa [Client.waits, hcl'] using hq
    obtain rfl := hq'.resolve_left hne
    exact ⟨endedOn_concat [_, _, _] rfl rfl, _, List.mem_cons_self, rfl⟩
  · intro cl' hcl' p hp _
    rw [(mem_readSetPosts cfg hp).1]
    exact ⟨by simp [Client.waits, hcl'], (mem_readSetPosts cfg hp).2.2 cl' hcl'⟩
  · intro x hx
    rcases List.mem_pair.1 hx with rfl | rfl
    · exact ⟨retrieveWarehouse cart.wID false, by simp [readSetPosts], rfl⟩
    · exact ⟨retrieveDistrict cart.wID cart.dID false, by simp [readSetPosts], rfl⟩

theorem customerStep_ok (h : Polled cfg s c cl) {pc : PaymentPC}
    (hph : cl.phase = .payment cart pc) (hpc : pc = .readSet ∨ pc = .lookup) :
    ClientOK cfg (s.setClient c (customerStep cl cart cID).1 o (customerStep cl cart cID).2) c
      (customerStep cl cart cID).1 := by
  have hhome : cfg.qpOf cart.wID ∈ cl.waits cfg := by
    rcases hpc with rfl | rfl <;> simp [Client.waits, hph]
  have hreadSet : cl.phase.readSet =
      [(.warehouse cart.wID, 0), (.district cart.wID cart.dID, 0)] := by
    rcases hpc with rfl | rfl <;> simp [Phase.readSet, hph]
  refine h.passive (posted_post rfl rfl rfl rfl rfl rfl) (h.active (by simp [hph]))
    (by simp [customerStep]) rfl (by rcases hpc with rfl | rfl <;> rw [hph] <;> rfl) rfl ?_
    (fun cart' hcart' => by cases hcart') ?_ ?_ ?_
  · intro p hp k _
    rcases List.mem_pair.1 hp with rfl | rfl <;> rfl
  · intro q hq
    have hresident : EndedOn cfg (cfg.qpOf cart.residentWarehouseID) (customerPosts cart cID) :=
      endedOn_concat [_] rfl rfl
    have hother : ∀ q, q ≠ cfg.qpOf cart.residentWarehouseID →
        EndedOn cfg q (customerPosts cart cID) := by
      intro q hne
      refine endedOn_of_ne fun p hp => ?_
      rcases List.mem_pair.1 hp with rfl | rfl <;> exact hne.symm
    have hq' : q = .oracle ∨ q = cfg.qpOf cart.wID ∨ q = cfg.qpOf cart.residentWarehouseID := by
      simpa [Client.waits, customerStep, Client.post] using hq
    by_cases hqr : q = cfg.qpOf cart.residentWarehouseID
    · subst hqr
      exact ⟨hresident, .inl ⟨_, List.mem_cons_self, rfl⟩⟩
    · refine ⟨hother q hqr, .inr ?_⟩
      rcases hq' with rfl | rfl | rfl
      · simp [Client.waits]
      · exact hhome
      · exact absurd rfl hqr
  · intro p hp _
    rcases List.mem_pair.1 hp with rfl | rfl
    all_goals
      refine ⟨?_, ?_⟩
      · simp [Client.waits, customerStep, Client.post, Post.qp, retrieveCustomer,
          retrieveCustomerPointerList, Verb.qp, Config.serverOf, Config.qpOf]
      · simp [customerStep, Client.post, retrieveCustomer, retrieveCustomerPointerList,
          Client.awaits, Phase.readsHeads, Phase.readSet]
  · intro x hx
    have hx' : x ∈ slots cart cID := hx
    simp only [slots, List.mem_cons, List.not_mem_nil, or_false] at hx'
    have hold : x ∈ cl.phase.readSet → Seen s x.1 ((customerStep cl cart cID).1.copy x.1 x.2) := by
      intro hxr
      have hseen := h.reads x hxr
      simp only [Client.copy, Client.buffers, hph] at hseen
      exact hseen
    rcases hx' with rfl | rfl | rfl
    · exact .inr (hold (by simp [hreadSet]))
    · exact .inr (hold (by simp [hreadSet]))
    · exact .inl ⟨_, List.mem_cons_self, rfl⟩

theorem afterReadSet_ok (h : Polled cfg s c cl) (hph : cl.phase = .payment cart .readSet) :
    ClientOK cfg (s.setClient c (afterReadSet cfg cl cart).1 o (afterReadSet cfg cl cart).2) c
      (afterReadSet cfg cl cart).1 := by
  cases hmode : cart.customerSelectionMode with
  | ID =>
    simp only [afterReadSet, hmode]
    exact customerStep_ok h hph (.inl rfl)
  | LAST_NAME =>
    simp only [afterReadSet, hmode]
    refine h.passive (posted_post rfl rfl rfl rfl rfl rfl) (h.active (by simp [hph])) (by simp)
      rfl (by rw [hph]; rfl) rfl ?_
      (fun cart' hcart' => by cases hcart') ?_ ?_ ?_
    · intro p hp k _
      rw [List.mem_singleton.1 hp]
      rfl
    · intro q hq
      refine ⟨endedOn_of_forall (by simp [lookupCustomerByLastName]), ?_⟩
      have hq' : q = .oracle ∨ q = cfg.qpOf cart.wID ∨
          q = cfg.qpOf cart.residentWarehouseID := by
        simpa [Client.waits, Client.post] using hq
      rcases hq' with rfl | rfl | rfl
      · exact .inr (by simp [Client.waits])
      · exact .inr (by simp [Client.waits, hph])
      · exact .inl ⟨_, List.mem_singleton_self _, rfl⟩
    · intro p hp _
      rw [List.mem_singleton.1 hp]
      refine ⟨?_, fun _ => rfl⟩
      simp [Client.waits, Client.post, Post.qp, lookupCustomerByLastName, Verb.qp, Config.qpOf]
    · intro x hx
      right
      have hseen := h.reads x (by rw [hph]; exact hx)
      simp only [Client.copy, Client.buffers, hph] at hseen
      exact hseen

theorem afterLookup_ok (h : Polled cfg s c cl) (hph : cl.phase = .payment cart .lookup) :
    ClientOK cfg (s.setClient c (afterLookup cfg cl cart).1 o (afterLookup cfg cl cart).2) c
      (afterLookup cfg cl cart).1 := by
  unfold afterLookup
  simp only
  split
  · exact customerStep_ok h hph (.inr rfl)
  · exact h.finish (by simp) rfl rfl rfl rfl (.inl rfl) (by rw [hph]; rfl)

/-! ## Version check and locks -/

theorem nodup_slots : ((slots cart cID).map Prod.fst).Nodup := by
  simp [slots]

/-- The CASes are those of the write set. -/
theorem lockPosts_verbs {cts : UInt32} (h : NamedCopies cart cID cl)
    (hbuffers : cl'.buffers = cl.localMemory .payment) : (lockPosts c cl cts).map (·.verb) =
      (slots cart cID).flatMap fun p => [cl'.lockVerb c cts p] := by
  obtain ⟨hw, ⟨hd₁, hd₂⟩, hc₁, hc₂, hc₃⟩ := h
  have hw₁ : (warehouseV cl).body.W_ID = cart.wID := hw
  simp only [lockPosts, slots, List.map_cons, List.map_nil, List.flatMap_cons, List.flatMap_nil,
    List.singleton_append, lockWarehouse, lockDistrict, lockCustomer, lock, customerKey,
    Client.lockVerb, Client.copy_of_buffers hbuffers, hw₁, hd₁, hd₂, hc₁, hc₂, hc₃]
  rfl

/-- The CASes cover the queue pairs of the transaction, although the first is not signaled. -/
theorem endedOn_lockPosts {cts : UInt32} (h : NamedCopies cart cID cl) :
    EndedOn cfg q (lockPosts c cl cts) := by
  have hdistrict : (lockDistrict (districtV cl)
      (lockTimestamp (districtV cl).writeTimestamp c cts) true).qp cfg = cfg.qpOf cart.wID := by
    simp [lockDistrict, lock, Post.qp, Verb.qp, Config.serverOf, h.district.1, Config.qpOf]
  have hwarehouse : (lockWarehouse (warehouseV cl)
      (lockTimestamp (warehouseV cl).writeTimestamp c cts) false).qp cfg =
      cfg.qpOf cart.wID := by
    have hw₁ : (warehouseV cl).body.W_ID = cart.wID := h.warehouse
    simp [lockWarehouse, lock, Post.qp, Verb.qp, Config.serverOf, hw₁, Config.qpOf]
  have hlast : EndedOn cfg q [lockCustomer (customerV cl)
      (lockTimestamp (customerV cl).writeTimestamp c cts) true] :=
    endedOn_of_forall (by simp [lockCustomer, lock])
  refine Fifo.Ended.append (l := [_, _]) ?_ hlast
  by_cases hhome : q = cfg.qpOf cart.wID
  · subst hhome
    exact endedOn_concat [_] rfl hdistrict
  · refine endedOn_of_ne fun p hp => ?_
    rcases List.mem_pair.1 hp with rfl | rfl
    · rw [hwarehouse]
      exact Ne.symm hhome
    · rw [hdistrict]
      exact Ne.symm hhome

section

variable (h : Polled cfg s c cl) (hrec : RecordsOK cfg s)

include h hrec

theorem lock_ok {pc : PaymentPC} (hph : cl.phase = .payment cart pc)
    (hpc : pc = .customer cID ∨ pc = .snapshot cID)
    (haccess : ∀ x ∈ slots cart cID, cl.isRecordAccessible c
      ((cl.localMemory .payment).head x.1.table x.2).writeTimestamp = true)
    (hcts : (cl.newCommitTimestamp cfg c).toNat = s.nextCts cfg c)
    (hcl' : cl' = ({ cl.advanceEpoch with
      phase := .payment cart (.locks cID (cl.newCommitTimestamp cfg c)) } : Client).post
        (.payment cart) (lockPosts c cl (cl.newCommitTimestamp cfg c))) :
    ClientOK cfg (s.setClient c cl' o (.acquire (cl.newCommitTimestamp cfg c))) c cl' := by
  have hp : Posted cfg cl cl' (.payment cart)
      ([] ++ lockPosts c cl (cl.newCommitTimestamp cfg c)) := by
    rw [hcl']
    exact posted_post rfl rfl rfl rfl rfl rfl
  have hph' : cl'.phase = .payment cart (.locks cID (cl.newCommitTimestamp cfg c)) := by
    rw [hcl']
    rfl
  have hbuffers : cl'.buffers = cl.localMemory .payment := by
    rw [hcl']
    rfl
  have hvector : cl'.localTimestampVector = cl.localTimestampVector := by
    rw [hcl']
    rfl
  have hwaits : cl.waits cfg = .oracle :: servers cfg cart := by
    rcases hpc with rfl | rfl <;> rw [Client.waits, hph] <;> rfl
  have hwaits' : cl'.waits cfg = .oracle :: servers cfg cart := by
    rw [Client.waits, hph']
    rfl
  have hwriteSet : cl'.phase.writeSet cfg = slots cart cID := by
    rw [hph']
    rfl
  have hcopy : ∀ k b, cl'.copy k b = (cl.localMemory .payment).head k.table b :=
    Client.copy_of_buffers hbuffers
  have hseen : ∀ x ∈ slots cart cID,
      Seen s x.1 ((cl.localMemory .payment).head x.1.table x.2) := by
    intro x hx
    have hreadSet : cl.phase.readSet = slots cart cID := by
      rcases hpc with rfl | rfl <;> rw [hph] <;> rfl
    have hsx := h.reads x (hreadSet ▸ hx)
    simp only [Client.copy, Client.buffers, hph] at hsx
    exact hsx
  have hnames : ∀ x ∈ slots cart cID, x.1.versioned = true →
      x.1.Names ((cl.localMemory .payment).head x.1.table x.2).body :=
    fun x hx hk => (hseen x hx).names (haccess x hx) (hrec _ hk)
  have hnamed : NamedCopies cart cID cl :=
    ⟨hnames (.warehouse cart.wID, 0) (by simp [slots]) rfl,
      hnames (.district cart.wID cart.dID, 0) (by simp [slots]) rfl,
      hnames (paidBy cart cID, 0) (by simp [slots]) rfl⟩
  refine h.lockAll hrec hp (by simp [hph]) hcts (by rw [hcl']; rfl)
    (by rcases hpc with rfl | rfl <;> rw [hph] <;> rfl) (by rw [hph']; rfl) (by rw [hph']; rfl)
    (by rw [hwriteSet]; exact nodup_slots) (by simp) ?_ ?_ ?_ ?_ ?_
  · rw [hwriteSet]
    exact lockPosts_verbs hnamed hbuffers
  · intro x hx
    simp only [hwriteSet, slots, List.mem_cons, List.not_mem_nil, or_false] at hx
    rw [hwaits, hwaits']
    rcases hx with rfl | rfl | rfl <;> simp [servers, Config.serverOf, Config.qpOf]
  · rw [hwriteSet]
    intro x hx
    rw [hcopy]
    exact hseen x hx
  · rw [hwriteSet]
    intro x hx
    rw [hcopy, Client.isRecordAccessible, hvector]
    exact haccess x hx
  · intro q hq
    rw [hwaits'] at hq
    rw [hwaits]
    exact ⟨endedOn_lockPosts hnamed, .inr hq⟩

theorem checkStep_ok {pc : PaymentPC} (hph : cl.phase = .payment cart pc)
    (hpc : pc = .customer cID ∨ pc = .snapshot cID)
    (hwrap : NoWrap cfg (s.setClient c (checkStep cfg c cl cart cID).1 o
      (checkStep cfg c cl cart cID).2)) :
    ClientOK cfg (s.setClient c (checkStep cfg c cl cart cID).1 o
      (checkStep cfg c cl cart cID).2) c (checkStep cfg c cl cart cID).1 := by
  unfold checkStep at hwrap ⊢
  split
  · rename_i hcheck
    rw [if_pos hcheck] at hwrap
    simp only [Bool.and_eq_true] at hcheck
    obtain ⟨⟨hwh, hdi⟩, hcu⟩ := hcheck
    have hcts := h.newCommitTimestamp_toNat (h.active (by simp [hph])) (by
      have hw := hwrap c (h.active (by simp [hph]))
      rwa [State.acquired_setClient_acquire] at hw)
    refine lock_ok h hrec hph hpc (fun x hx => ?_) hcts rfl
    simp only [slots, List.mem_cons, List.not_mem_nil, or_false] at hx
    rcases hx with rfl | rfl | rfl
    · exact hwh
    · exact hdi
    · exact hcu
  · exact h.finish (by simp) rfl rfl rfl rfl (.inl rfl)
      (by rcases hpc with rfl | rfl <;> rw [hph] <;> rfl)

theorem afterCustomer_ok (hph : cl.phase = .payment cart (.customer cID)) (vec : ClientID → UInt32)
    (hwrap : NoWrap cfg (s.setClient c (afterCustomer cfg c cl cart vec cID).1 o
      (afterCustomer cfg c cl cart vec cID).2)) :
    ClientOK cfg (s.setClient c (afterCustomer cfg c cl cart vec cID).1 o
      (afterCustomer cfg c cl cart vec cID).2) c (afterCustomer cfg c cl cart vec cID).1 := by
  cases hmode : cfg.SNAPSHOT_ACQUISITION_TYPE with
  | COMPLETE =>
    simp only [afterCustomer, hmode] at hwrap ⊢
    exact checkStep_ok h hrec hph (.inl rfl) hwrap
  | ONLY_READ_SET =>
    simp only [afterCustomer, hmode]
    refine h.snapshot (h.active (by simp [hph])) (by rw [hph]; rfl) vec _ rfl rfl rfl rfl (by simp)
      ?_ ?_ ?_
    · intro cl' hcl' q hq
      simpa [Client.waits, hph, hcl'] using hq
    · rw [hph]
      rfl
    · rw [hph]
      rfl

/-! ## Giving up -/

theorem locked_names
    {cts : UInt32} (hph : cl.phase = .payment cart (.locks cID cts)) : NamedCopies cart cID cl := by
  have hwriteSet : cl.phase.writeSet cfg = slots cart cID := by
    rw [hph]
    rfl
  have hnames : ∀ x ∈ slots cart cID,
      x.1.Names ((cl.localMemory .payment).head x.1.table x.2).body := by
    intro x hx
    have hx' := h.names hrec (hwriteSet ▸ hx)
    simp only [Client.copy, Client.buffers, hph] at hx'
    exact hx'
  exact ⟨hnames (.warehouse cart.wID, 0) (by simp [slots]),
    hnames (.district cart.wID cart.dID, 0) (by simp [slots]),
    hnames (.customer cart.residentWarehouseID cart.dID cID, 0) (by simp [slots])⟩

theorem revertPosts_verbs {cts : UInt32} (hph : cl.phase = .payment cart (.locks cID cts)) :
    (revertPosts cl).map (·.verb) = (cl.swapped cfg).flatMap fun p => [cl.revertVerb p] := by
  obtain ⟨hw, ⟨hd₁, hd₂⟩, hc₁, hc₂, hc₃⟩ := locked_names h hrec hph
  have hw₁ : (warehouseV cl).body.W_ID = cart.wID := hw
  have hbuffers : cl.buffers = cl.localMemory .payment := by rw [Client.buffers, hph]; rfl
  have hcopy := Client.copy_of_buffers hbuffers
  have hresult := Client.lockResult_of_buffers hbuffers
  have hslots : cl.phase.writeSet cfg = slots cart cID := by
    rw [hph]
    rfl
  have hwl : warehouseLocked cl = decide (cl.lockResult (.warehouse cart.wID) 0 =
      (cl.copy (.warehouse cart.wID) 0).writeTimestamp) := by
    rw [warehouseLocked, Timestamp.isEqual_eq_decide, hcopy, hresult]
    rfl
  have hdl : districtLocked cl = decide (cl.lockResult (.district cart.wID cart.dID) 0 =
      (cl.copy (.district cart.wID cart.dID) 0).writeTimestamp) := by
    rw [districtLocked, Timestamp.isEqual_eq_decide, hcopy, hresult]
    rfl
  have hcl : customerLocked cl =
      decide (cl.lockResult (.customer cart.residentWarehouseID cart.dID cID) 0 =
        (cl.copy (.customer cart.residentWarehouseID cart.dID cID) 0).writeTimestamp) := by
    rw [customerLocked, Timestamp.isEqual_eq_decide, hcopy, hresult]
    rfl
  have hsplit : slots cart cID = [(Key.warehouse cart.wID, 0)] ++
      [(.district cart.wID cart.dID, 0)] ++
      [(.customer cart.residentWarehouseID cart.dID cID, 0)] := rfl
  rw [← List.map_eq_flatMap, Client.swapped, hslots, hsplit, revertPosts]
  simp only [List.filter_append, List.map_append, List.filter_cons, List.filter_nil, hwl, hdl, hcl]
  congr 1
  · congr 1
    · split
      · simp only [List.map_cons, List.map_nil, revertWarehouseLock, hw₁, Client.revertVerb, hcopy]
        rfl
      · rfl
    · split
      · simp only [List.map_cons, List.map_nil, revertDistrictLock, hd₁, hd₂, Client.revertVerb,
          hcopy]
        rfl
      · rfl
  · split
    · simp only [List.map_cons, List.map_nil, revertCustomerLock, customerKey, hc₁, hc₂, hc₃,
        Client.revertVerb, hcopy]
      rfl
    · rfl

theorem giveUp_ok {cts : UInt32} (hph : cl.phase = .payment cart (.locks cID cts))
    (hcl' : cl' = ({ cl with phase := .payment cart .reverts } : Client).post
      (.payment cart) (revertPosts cl)) :
    ClientOK cfg (s.setClient c cl' o .resume) c cl' := by
  have hp : Posted cfg cl cl' (.payment cart) ([] ++ revertPosts cl) := by
    rw [hcl']
    exact posted_post rfl rfl rfl rfl rfl rfl
  have hph' : cl'.phase = .payment cart .reverts := by
    rw [hcl']
    rfl
  refine h.revert (by rw [hph]; rfl) (by rw [hph]; rfl) hp (by rw [hph']; rfl) (by rw [hcl']; rfl)
    (by rw [hph]; exact nodup_slots) (by simp) (revertPosts_verbs h hrec hph)
    (waits_of_signaled ?_ ?_)
  · intro p hpm
    simp only [List.nil_append, revertPosts, List.mem_append] at hpm
    rcases hpm with (hpm | hpm) | hpm
    all_goals
      split at hpm
      · rw [List.mem_singleton.1 hpm]
        rfl
      · cases hpm
  · intro q hq
    simpa [Client.waits, hph, hph'] using hq

end

/-! ## Commit -/

/-- The client that holds all its locks, as it enters the poll loop of the log or passes it. -/
def committing (c : ClientID) (cl : Client) (cart : PaymentCart) (cID cts : UInt32) : Client :=
  { cl with
    localTimestampVector := Function.update cl.localTimestampVector c cts
    phase := .payment cart (.log cID cts) }

def savedList (cfg : Config) (cl : Client) : Key × ℕ → List Timestamp
  | (.warehouse _, _) => pushedLists cfg cl .warehouseTS
  | (.district _ _, _) => pushedLists cfg cl .districtTS
  | _ => pushedLists cfg cl .customerTS

def newHead (cfg : Config) (c : ClientID) (cl : Client) (cart : PaymentCart) (cID cts : UInt32) :
    (x : Key × ℕ) → Version (Row x.1.table)
  | (.warehouse _, _) => newWarehouseV cfg c cart cts (warehouseV cl)
  | (.district _ _, _) => newDistrictV cfg c cart cts (districtV cl)
  | (.customer _ _ _, _) => newCustomerV cfg c cart cID cts (customerV cl)
  | x => cl.copy x.1 x.2

theorem appendPosts_verbs (h : NamedCopies cart cID cl)
    (hbuffers : cl'.buffers = cl.localMemory .payment) :
    (appendPosts cfg cl).map (·.verb) =
      (slots cart cID).flatMap (cl'.saveVerbs (savedList cfg cl)) := by
  obtain ⟨hwp, hws, -⟩ := updateWarehouse_verbs _ h.warehouse
    (pushedLists cfg cl .warehouseTS) false
  obtain ⟨hdp, hds, -⟩ := updateDistrict_verbs _ h.district (pushedLists cfg cl .districtTS) false
  obtain ⟨hcp, hcs, -⟩ := updateCustomer_verbs _ h.customer (pushedLists cfg cl .customerTS) false
  simp only [appendPosts, List.map_cons, List.map_nil, hwp, hws, hdp, hds, hcp, hcs, slots,
    List.flatMap_cons, List.flatMap_nil, Client.saveVerbs, Client.copy_of_buffers hbuffers]
  rfl

theorem installPosts_verbs (h : NamedCopies cart cID cl) (cts : UInt32) :
    (installPosts cfg c cl cart cID cts).map (·.verb) =
      ((slots cart cID).flatMap fun x => [.writeHead x.1 (newHead cfg c cl cart cID cts x)]) ++
        [.writeHead (historyKey cfg c cl.nextHistoryID (newHistoryV c cl cart cts).body)
          (newHistoryV c cl cart cts)] := by
  obtain ⟨-, -, hw⟩ := updateWarehouse_verbs (newWarehouseV cfg c cart cts (warehouseV cl))
    h.warehouse [] false
  obtain ⟨-, -, hd⟩ := updateDistrict_verbs (newDistrictV cfg c cart cts (districtV cl))
    h.district [] false
  obtain ⟨-, -, hc⟩ := updateCustomer_verbs (newCustomerV cfg c cart cID cts (customerV cl))
    h.customer [] false
  simp only [installPosts, List.map_cons, List.map_nil, hw, hd, hc]
  rfl

theorem commit_ok (h : Polled cfg s c cl) (hrec : RecordsOK cfg s)
    {cts : UInt32} (hph : cl.phase = .payment cart (.locks cID cts))
    (hlocked : (warehouseLocked cl && districtLocked cl && customerLocked cl) = true) :
    Polled cfg s c (committing c cl cart cID cts) := by
  have hnamed : NamedCopies cart cID cl := locked_names h hrec hph
  simp only [Bool.and_eq_true] at hlocked
  obtain ⟨⟨hwl, hdl⟩, hcl⟩ := hlocked
  have hwriteSet : cl.phase.writeSet cfg = slots cart cID := by rw [hph]; rfl
  have hbuffers : cl.buffers = cl.localMemory .payment := by rw [Client.buffers, hph]; rfl
  have hcopy := Client.copy_of_buffers hbuffers
  have hresult := Client.lockResult_of_buffers hbuffers
  refine h.commitAll (savedList cfg cl) (newHead cfg c cl cart cID cts) (by rw [hph]; rfl)
    (by rw [hph]; rfl) rfl rfl ?_ (by rw [hwriteSet]; exact nodup_slots) ?_ (fun k hk => ?_)
    (fun x hx t ht hclient hcts => ?_)
  · intro q hq
    simpa [Client.waits, hph, committing] using hq
  · intro x hx
    rw [hcopy, hresult]
    simp only [hwriteSet, slots, List.mem_cons, List.not_mem_nil, or_false] at hx
    rcases hx with rfl | rfl | rfl
    · exact Timestamp.isEqual_iff.1 hwl
    · exact Timestamp.isEqual_iff.1 hdl
    · exact Timestamp.isEqual_iff.1 hcl
  · have hhistory : opsOn k (tagged ⟨cl.t, .payment cart⟩ [.writeHead (historyKey cfg c
        cl.nextHistoryID (newHistoryV c cl cart cts).body) (newHistoryV c cl cart cts)]) = [] :=
      opsOn_tagged_of_passive hk (List.forall_mem_singleton.2 (Verb.passive_writeHead rfl _))
    have hplan : (committing c cl cart cID cts).plan cfg c =
        tagged ⟨cl.t, .payment cart⟩ (commitPlan cfg c cl cart cID cts) := rfl
    rw [hplan, commitPlan, List.map_append, appendPosts_verbs hnamed hbuffers,
      installPosts_verbs hnamed, ← List.append_assoc, tagged_append, opsOn_append, hhistory,
      List.append_nil, hwriteSet]
  · rw [hcopy]
    have hcts : t.word.timestamp = cts := by rw [hcts, hph]; rfl
    simp only [hwriteSet, slots, List.mem_cons, List.not_mem_nil, or_false] at hx
    rw [← hcts, ← hclient]
    rcases hx with rfl | rfl | rfl
    · exact .warehouse ht _
    · exact .district ht _
    · exact .customer cID ht _

/-! ## Install -/

/-- The WRITEs of a commit are what was planned; none of them leaves a result. -/
theorem mem_commitPosts {cts : UInt32}
    (h : p ∈ appendPosts cfg cl ++ installPosts cfg c cl cart cID cts) :
    p.verb.lands = false ∧ p.qp cfg ≠ .oracle := by
  simp only [appendPosts, installPosts, List.mem_append, List.mem_cons, List.not_mem_nil,
    or_false] at h
  rcases h with (rfl | rfl | rfl | rfl | rfl | rfl) | rfl | rfl | rfl | rfl
  all_goals exact ⟨rfl, QueuePair.noConfusion⟩

theorem installStep_ok (h : Polled cfg s c cl) {cts : UInt32}
    (hph : cl.phase = .payment cart (.log cID cts)) :
    ClientOK cfg (s.setClient c (installStep cfg c cl cart cID cts).1 o
      (installStep cfg c cl cart cID cts).2) c (installStep cfg c cl cart cID cts).1 := by
  have hp : Posted cfg cl (installStep cfg c cl cart cID cts).1 (.payment cart)
      (appendPosts cfg cl ++ installPosts cfg c cl cart cID cts) :=
    posted_post rfl rfl rfl rfl rfl rfl
  have hplan : cl.plan cfg c = tagged ⟨cl.t, .payment cart⟩ (commitPlan cfg c cl cart cID cts) := by
    rw [Client.plan, hph]
  refine h.post hp (h.standing hp (h.active (by simp [hph])) ?_ (by rw [hph]; rfl) rfl rfl ?_
    (fun cart' hcart' => by cases hcart')) ?_ ?_ (fun x hx => by cases hx)
  · have hlabel : (installStep cfg c cl cart cID cts).2 = .resume := rfl
    rw [hlabel, State.acquired_setClient_of_label (by simp), ← h.epoch]
    rfl
  · intro k _
    have hplan' : (installStep cfg c cl cart cID cts).1.plan cfg c = [] := rfl
    rw [hplan', hplan, opsOn_nil, List.append_nil]
    rfl
  · intro q hq
    have hhistory : (((installStep cfg c cl cart cID cts).1.localMemory .payment).head
        .history 0) = newHistoryV c cl cart cts := by
      simp [installStep, Client.post, Client.setLocal, installed]
    have hq' : q = .oracle ∨ q = cfg.qpOf (newHistoryV c cl cart cts).body.H_W_ID := by
      rw [← hhistory]
      simpa [Client.waits, installStep, Client.post] using hq
    rcases hq' with rfl | rfl
    · exact ⟨endedOn_of_ne fun p hpm => (mem_commitPosts hpm).2, .inr (by simp [Client.waits])⟩
    · refine ⟨?_, .inl ⟨insertIntoHistory cfg c cl.nextHistoryID (newHistoryV c cl cart cts) true,
        by simp [installPosts], rfl⟩⟩
      have hsplit : appendPosts cfg cl ++ installPosts cfg c cl cart cID cts =
          (appendPosts cfg cl ++ (installPosts cfg c cl cart cID cts).take 3) ++
          [insertIntoHistory cfg c cl.nextHistoryID (newHistoryV c cl cart cts) true] := rfl
      rw [hsplit]
      exact endedOn_concat _ rfl rfl
  · intro p hpm hl
    simp [(mem_commitPosts hpm).1] at hl

theorem installStep_setPhase (ph : Phase) (cts : UInt32) :
    installStep cfg c { cl with phase := ph } cart cID cts = installStep cfg c cl cart cID cts := by
  cases cl
  rfl

theorem afterLocks_ok (h : Polled cfg s c cl) (hrec : RecordsOK cfg s)
    {cts : UInt32} (hph : cl.phase = .payment cart (.locks cID cts)) :
    ClientOK cfg (s.setClient c (afterLocks cfg c cl cart cID cts).1 o
      (afterLocks cfg c cl cart cID cts).2) c (afterLocks cfg c cl cart cID cts).1 := by
  unfold afterLocks
  split
  · rename_i hlocked
    have hcommit := commit_ok h hrec hph hlocked
    simp only
    split
    · exact hcommit.log rfl rfl
    · -- without a log the commit goes on at once
      rw [← installStep_setPhase (.payment cart (.log cID cts))]
      exact installStep_ok hcommit rfl
  · exact giveUp_ok h hrec hph rfl

theorem afterInstall_ok (h : Polled cfg s c cl) (hph : cl.phase = .payment cart .install) :
    ClientOK cfg (s.setClient c (afterInstall cfg c cl cart).1 o (afterInstall cfg c cl cart).2) c
      (afterInstall cfg c cl cart).1 := by
  refine h.request (posted_post rfl rfl rfl rfl rfl rfl) (by rw [hph]; rfl) rfl rfl rfl
    (fun _ _ => rfl) (fun q hq => ?_) nofun
  have hq' : q = .oracle := by simpa [Client.waits, afterInstall, Client.post] using hq
  simp [hq', Client.waits]

/-- **Payment.** Every stretch of `doOne` keeps the invariant of the client. -/
theorem resume_ok (h : Polled cfg s c cl) (hrec : RecordsOK cfg s)
    {pc : PaymentPC} (hph : cl.phase = .payment cart pc) (vec : ClientID → UInt32)
    (hwrap : NoWrap cfg (s.setClient c (resume cfg c cl cart vec pc).1 o
      (resume cfg c cl cart vec pc).2)) :
    ClientOK cfg (s.setClient c (resume cfg c cl cart vec pc).1 o
      (resume cfg c cl cart vec pc).2) c (resume cfg c cl cart vec pc).1 := by
  cases pc with
  | readSet => exact afterReadSet_ok h hph
  | lookup => exact afterLookup_ok h hph
  | customer cID => exact afterCustomer_ok h hrec hph vec hwrap
  | snapshot cID => exact checkStep_ok h hrec hph (.inr rfl) hwrap
  | locks cID cts => exact afterLocks_ok h hrec hph
  | reverts | publish =>
    exact h.finish (by simp [resume]) rfl rfl rfl rfl (.inl rfl) (by rw [hph]; rfl)
  | log cID cts => exact installStep_ok h hph
  | install => exact afterInstall_ok h hph

end RdmaSnapshot.PaymentTransaction
