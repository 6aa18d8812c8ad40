import RdmaSnapshot.Steps.Batch

/-!
# The steps of a Delivery iteration keep the invariant

One lemma for each stretch of an iteration of `DeliveryTransaction::doOne` between two poll loops.
Of the records an iteration locks, only the customer is versioned; the order rows are passive as
far as the lock protocol of versioned records is concerned.
-/

namespace RdmaSnapshot.DeliveryTransaction

open DBExecutor

variable {cfg : Config} {s : State} {c : ClientID} {cl cl' : Client} {k : Key} {o : Owner}
  {cart : DeliveryCart} {dID : UInt8} {q : QueuePair} {p : Post} {cID : UInt32}

theorem waits_eq {pc : DeliveryPC} (h : cl.phase = .delivery cart dID pc) (hpc : pc ≠ .begin) :
    cl.waits cfg = [.oracle, cfg.qpOf cart.wID] := by
  unfold Client.waits
  rw [h]
  cases pc with
  | begin => exact absurd rfl hpc
  | _ => rfl

theorem waits_of_home {posts : List Post} {pc : DeliveryPC}
    (hph' : cl'.phase = .delivery cart dID pc) (hpc : pc ≠ .begin)
    (hhome : cfg.qpOf cart.wID ∈ cl.waits cfg)
    (hqp : ∀ p ∈ posts, p.qp cfg = cfg.qpOf cart.wID)
    (hend : EndedOn cfg (cfg.qpOf cart.wID) posts) :
    ∀ q ∈ cl'.waits cfg, EndedOn cfg q posts ∧ (PostsOn cfg q posts ∨ q ∈ cl.waits cfg) := by
  intro q hq
  rw [waits_eq hph' hpc] at hq
  rcases List.mem_pair.1 hq with rfl | rfl
  · refine ⟨endedOn_of_ne fun p hp => ?_, .inr (by simp [Client.waits])⟩
    rw [hqp p hp]
    exact QueuePair.noConfusion
  · exact ⟨hend, .inr hhome⟩

theorem next_ok (h : Polled cfg s c cl) {pc : DeliveryPC} (hph : cl.phase = .delivery cart dID pc)
    (hinert : cl.phase.isInert = true) (outcome : Outcome) :
    ClientOK cfg (s.setClient c (next cfg cl cart dID outcome).1 o
      (next cfg cl cart dID outcome).2) c (next cfg cl cart dID outcome).1 := by
  refine h.finish (by simp [next]) rfl rfl rfl rfl ?_ hinert
  by_cases hlast : (dID + 1).toNat < cfg.DISTRICT_PER_WAREHOUSE
  · right
    exact ⟨h.active (by simp [hph]), cart, dID + 1, by rw [next, if_pos hlast]⟩
  · left
    rw [next, if_neg hlast]

/-! ## Read set -/

theorem beginStep_ok (h : Polled cfg s c cl) (hph : cl.phase = .delivery cart dID .begin)
    (vec : ClientID → UInt32) :
    ClientOK cfg (s.setClient c (beginStep cfg cl cart dID vec).1 o
      (beginStep cfg cl cart dID vec).2) c (beginStep cfg cl cart dID vec).1 := by
  have heq : (beginStep cfg cl cart dID vec).1 =
      (({ cl with t := cl.t + 1 } : Client).startBase cfg vec (.delivery cart dID .oldest)).post
        (.delivery cart dID)
        (startPosts cfg ++ [getOldestUndeliveredOrder cfg cart.wID dID true]) :=
    start_eq { cl with t := cl.t + 1 } vec _
  rw [heq]
  refine (h.setRound (.inr ⟨cart, dID, hph⟩) (cl.t + 1)).start (h.active (by simp [hph]))
    (by simp [beginStep]) (by simp [hph, Phase.isInert]) vec rfl rfl rfl rfl (by simp) ?_ ?_ ?_
    (fun x hx => by cases hx)
  · intro p hp
    rw [List.mem_singleton.1 hp]
    exact ⟨fun k _ => rfl, QueuePair.noConfusion⟩
  · intro cl' hcl' q hq hne
    rw [waits_eq hcl' (by simp)] at hq
    have hq' : q = cfg.qpOf cart.wID := by simpa [hne] using hq
    subst hq'
    exact ⟨endedOn_concat [] rfl rfl, _, List.mem_singleton_self _, rfl⟩
  · intro cl' hcl' p hp _
    rw [List.mem_singleton.1 hp, waits_eq hcl' (by simp)]
    refine ⟨by simp [Post.qp, getOldestUndeliveredOrder, Verb.qp, Config.qpOf], fun _ => ?_⟩
    rw [hcl']
    rfl

theorem afterOldest_ok (h : Polled cfg s c cl) (hph : cl.phase = .delivery cart dID .oldest) :
    ClientOK cfg (s.setClient c (afterOldest cfg cl cart dID).1 o
      (afterOldest cfg cl cart dID).2) c (afterOldest cfg cl cart dID).1 := by
  unfold afterOldest
  split
  · have hqp : ∀ p ∈ orderRowsPosts cfg cl cart, p.qp cfg = cfg.qpOf cart.wID := by
      intro p hp
      simp only [orderRowsPosts, List.mem_cons, List.not_mem_nil, or_false] at hp
      rcases hp with rfl | rfl | rfl <;> rfl
    refine h.passive (posted_post rfl rfl rfl rfl rfl rfl) (h.active (by simp [hph])) (by simp) rfl
      (by rw [hph]; rfl) rfl ?_ (fun cart' hcart' => by cases hcart') ?_ ?_
      (fun x hx => by cases hx)
    · intro p hp k _
      simp only [orderRowsPosts, List.mem_cons, List.not_mem_nil, or_false] at hp
      rcases hp with rfl | rfl | rfl <;> rfl
    · refine waits_of_home rfl (by simp) (by simp [Client.waits, hph]) hqp ?_
      exact endedOn_concat [_, _] rfl rfl
    · intro p hp _
      rw [hqp p hp, waits_eq rfl (by simp)]
      refine ⟨by simp, ?_⟩
      simp only [orderRowsPosts, List.mem_cons, List.not_mem_nil, or_false] at hp
      rcases hp with rfl | rfl | rfl
      · exact ⟨rfl, (fun hk => by cases hk), by simp [orderKey]⟩
      · exact ⟨rfl, (fun hk => by cases hk), by simp [newOrderKey]⟩
      · exact rfl
  · exact next_ok h hph (by rw [hph]; rfl) _

theorem afterOrderRows_ok (h : Polled cfg s c cl) (hph : cl.phase = .delivery cart dID .orderRows) :
    ClientOK cfg (s.setClient c (afterOrderRows cl cart dID).1 o (afterOrderRows cl cart dID).2) c
      (afterOrderRows cl cart dID).1 := by
  have hqp : ∀ p ∈ customerPosts cart dID (orderV cl).body.O_C_ID,
      p.qp cfg = cfg.qpOf cart.wID := by
    intro p hp
    rcases List.mem_pair.1 hp with rfl | rfl <;> rfl
  refine h.passive (posted_post rfl rfl rfl rfl rfl rfl) (h.active (by simp [hph]))
    (by simp [afterOrderRows]) rfl (by rw [hph]; rfl) rfl ?_
    (fun cart' hcart' => by cases hcart') ?_ ?_ ?_
  · intro p hp k _
    rcases List.mem_pair.1 hp with rfl | rfl <;> rfl
  · refine waits_of_home rfl (by simp) (by simp [Client.waits, hph]) hqp ?_
    exact endedOn_concat [_] rfl rfl
  · intro p hp _
    rw [hqp p hp, waits_eq rfl (by simp)]
    refine ⟨by simp, ?_⟩
    rcases List.mem_pair.1 hp with rfl | rfl
    · exact ⟨rfl, fun _ => List.mem_singleton_self _, by simp⟩
    · exact rfl
  · intro x hx
    obtain rfl := List.mem_singleton.1 hx
    exact .inl ⟨_, List.mem_cons_self, rfl⟩

/-! ## Version check and locks -/

theorem mem_rowLocks {cts : UInt32} (h : p ∈ rowLocks cfg c cl cart cts) :
    p.qp cfg = cfg.qpOf cart.wID ∧ p.verb.Passive ∧
      ∀ cl' : Client, cl'.phase.isLocks = true → cl'.awaits cfg p.verb := by
  rcases List.mem_append.1 h with h | h
  · rcases List.mem_pair.1 h with rfl | rfl
    all_goals
      refine ⟨rfl, Verb.passive_compareAndSwap rfl _ _ _, fun cl' hcl' => ⟨hcl', fun hk => ?_⟩⟩
      cases hk
  · obtain ⟨n, -, rfl⟩ := List.mem_map.1 h
    refine ⟨rfl, Verb.passive_compareAndSwap rfl _ _ _, fun cl' hcl' => ⟨hcl', fun hk => ?_⟩⟩
    cases hk

section

variable (h : Polled cfg s c cl) (hrec : RecordsOK cfg s)

include h hrec

theorem lockStep_ok {pc : DeliveryPC} (hph : cl.phase = .delivery cart dID pc)
    (hpc : pc = .customer cID ∨ pc = .snapshot cID ∨ pc = .olderVersion cID)
    (haccess : cl.isRecordAccessible c (customerV cl).writeTimestamp = true)
    (hwrap : NoWrap cfg (s.setClient c (lockStep cfg c cl cart dID cID).1 o
      (lockStep cfg c cl cart dID cID).2)) :
    ClientOK cfg (s.setClient c (lockStep cfg c cl cart dID cID).1 o
      (lockStep cfg c cl cart dID cID).2) c (lockStep cfg c cl cart dID cID).1 := by
  have hactive := h.active (by simp [hph])
  have hcts := h.newCommitTimestamp_toNat hactive (by
    have hw := hwrap c hactive
    simp only [lockStep] at hw
    rwa [State.acquired_setClient_acquire] at hw)
  have hp : Posted cfg cl (lockStep cfg c cl cart dID cID).1 (.delivery cart dID)
      (rowLocks cfg c cl cart (cl.newCommitTimestamp cfg c) ++ [lockCustomer (customerV cl)
        (lockTimestamp (customerV cl).writeTimestamp c (cl.newCommitTimestamp cfg c)) true]) :=
    posted_post rfl rfl rfl rfl rfl rfl
  have hwaits : cl.waits cfg = [.oracle, cfg.qpOf cart.wID] :=
    waits_eq hph (by rcases hpc with rfl | rfl | rfl <;> simp)
  have hwriteSet : (lockStep cfg c cl cart dID cID).1.phase.writeSet cfg =
      [(.customer cart.wID dID cID, 0)] := rfl
  have hseen : Seen s (.customer cart.wID dID cID) (customerV cl) := by
    have hsx := h.reads (.customer cart.wID dID cID, 0) (by
      rcases hpc with rfl | rfl | rfl <;> simp [hph, Phase.readSet])
    simp only [Client.copy, Client.buffers, hph] at hsx
    exact hsx
  have hkey : customerKey (customerV cl).body = .customer cart.wID dID cID := by
    obtain ⟨h₁, h₂, h₃⟩ := hseen.names haccess (hrec _ rfl)
    rw [customerKey, h₁, h₂, h₃]
  have hverb : (lockCustomer (customerV cl) (lockTimestamp (customerV cl).writeTimestamp c
      (cl.newCommitTimestamp cfg c)) true).verb = (lockStep cfg c cl cart dID cID).1.lockVerb c
        (cl.newCommitTimestamp cfg c) (.customer cart.wID dID cID, 0) := by
    simp only [lockCustomer, lock, hkey, Client.lockVerb]
    rfl
  have hqp : ∀ p ∈ rowLocks cfg c cl cart (cl.newCommitTimestamp cfg c) ++ [lockCustomer
      (customerV cl) (lockTimestamp (customerV cl).writeTimestamp c (cl.newCommitTimestamp cfg c))
      true], p.qp cfg = cfg.qpOf cart.wID := by
    intro p hpm
    rcases List.mem_append.1 hpm with hpm | hpm
    · exact (mem_rowLocks hpm).1
    · rw [List.mem_singleton.1 hpm, Post.qp, hverb]
      rfl
  have hwaits' : (lockStep cfg c cl cart dID cID).1.waits cfg = [.oracle, cfg.qpOf cart.wID] :=
    waits_eq rfl (by simp)
  refine h.lockAll hrec hp (by simp [hph]) hcts rfl
    (by rcases hpc with rfl | rfl | rfl <;> rw [hph] <;> rfl) rfl rfl
    (by rw [hwriteSet]; exact List.nodup_singleton _) ?_ ?_ ?_ ?_ ?_ ?_
  · intro p hpm
    rw [hwaits', (mem_rowLocks hpm).1]
    exact ⟨(mem_rowLocks hpm).2.1, by simp, (mem_rowLocks hpm).2.2 _ rfl⟩
  · rw [List.map_singleton, hverb, hwriteSet]
    rfl
  · rw [hwriteSet, hwaits, hwaits']
    intro x hx
    obtain rfl := List.mem_singleton.1 hx
    simp [Config.serverOf, Config.qpOf]
  · rw [hwriteSet]
    intro x hx
    obtain rfl := List.mem_singleton.1 hx
    exact hseen
  · rw [hwriteSet]
    intro x hx
    obtain rfl := List.mem_singleton.1 hx
    exact haccess
  · exact waits_of_home rfl (by simp) (by simp [hwaits]) hqp
      (endedOn_concat _ rfl (hqp _ (List.mem_append_right _ (List.mem_singleton_self _))))

theorem checkStep_ok {pc : DeliveryPC} (hph : cl.phase = .delivery cart dID pc)
    (hpc : pc = .customer cID ∨ pc = .snapshot cID)
    (hwrap : NoWrap cfg (s.setClient c (checkStep cfg c cl cart dID cID).1 o
      (checkStep cfg c cl cart dID cID).2)) :
    ClientOK cfg (s.setClient c (checkStep cfg c cl cart dID cID).1 o
      (checkStep cfg c cl cart dID cID).2) c (checkStep cfg c cl cart dID cID).1 := by
  have hinert : cl.phase.isInert = true := by rcases hpc with rfl | rfl <;> rw [hph] <;> rfl
  unfold checkStep at hwrap ⊢
  split
  swap
  · exact next_ok h hph hinert _
  rename_i hrows
  rw [if_pos hrows] at hwrap
  split
  · exact next_ok h hph hinert _
  · rename_i hfetch
    rw [hfetch] at hwrap
    refine lockStep_ok h hrec hph (hpc.imp_right .inl) ?_ hwrap
    -- nothing is fetched only if the head is accessible
    unfold fetchOlderVersion at hfetch
    split at hfetch
    · assumption
    · simp at hfetch
  · rename_i posts hfetch hne
    have hposts : ∀ p ∈ posts, p.signaled = true ∧ p.qp cfg = cfg.qpOf cart.wID ∧
        p.verb.Passive ∧ ∀ cl' : Client, cl'.phase = .delivery cart dID (.olderVersion cID) →
          cl'.awaits cfg p.verb := by
      intro p hp
      obtain ⟨ind, ts, rfl⟩ := mem_fetchOlderVersion hne hp
      rw [retrieveCustomerOlderVersion]
      rcases retrieveOlderVersion_cases cfg (.customer cart.wID dID cID) ind ts with
        ⟨slot, heq⟩ | heq
      all_goals
        rw [heq]
        refine ⟨rfl, rfl, fun k _ => rfl, fun cl' hcl' => ?_⟩
        simp [Client.awaits, hcl', Phase.fetches, Phase.readSet]
    refine h.passive (posted_post rfl rfl rfl rfl rfl rfl) (h.active (by simp [hph])) (by simp) rfl
      hinert rfl (fun p hp => (hposts p hp).2.2.1) (fun cart' hcart' => by cases hcart') ?_ ?_ ?_
    · refine waits_of_home rfl (by simp) ?_ (fun p hp => (hposts p hp).2.1)
        (endedOn_of_forall fun p hp => (hposts p hp).1)
      rcases hpc with rfl | rfl <;> simp [Client.waits, hph]
    · intro p hp _
      rw [(hposts p hp).2.1, waits_eq rfl (by simp)]
      exact ⟨by simp, (hposts p hp).2.2.2 _ rfl⟩
    · intro x hx
      right
      have hseen := h.reads x (by rcases hpc with rfl | rfl <;> rw [hph] <;> exact hx)
      simp only [Client.copy, Client.buffers, hph] at hseen
      exact hseen

theorem afterCustomer_ok
    (hph : cl.phase = .delivery cart dID (.customer cID)) (vec : ClientID → UInt32)
    (hwrap : NoWrap cfg (s.setClient c (afterCustomer cfg c cl cart dID vec cID).1 o
      (afterCustomer cfg c cl cart dID vec cID).2)) :
    ClientOK cfg (s.setClient c (afterCustomer cfg c cl cart dID vec cID).1 o
      (afterCustomer cfg c cl cart dID vec cID).2) c
      (afterCustomer cfg c cl cart dID vec cID).1 := by
  cases hmode : cfg.SNAPSHOT_ACQUISITION_TYPE with
  | COMPLETE =>
    simp only [afterCustomer, hmode] at hwrap ⊢
    exact checkStep_ok h hrec hph (.inl rfl) hwrap
  | ONLY_READ_SET =>
    simp only [afterCustomer, hmode]
    refine h.snapshot (h.active (by simp [hph])) (by rw [hph]; rfl) vec _ rfl rfl rfl rfl (by simp)
      ?_ ?_ ?_
    · intro cl' hcl' q hq
      simpa [Client.waits, hph, hcl'] using hq
    · rw [hph]
      rfl
    · rw [hph]
      rfl

theorem afterOlderVersion_ok (hph : cl.phase = .delivery cart dID (.olderVersion cID))
    (hwrap : NoWrap cfg (s.setClient c (afterOlderVersion cfg c cl cart dID cID).1 o
      (afterOlderVersion cfg c cl cart dID cID).2)) :
    ClientOK cfg (s.setClient c (afterOlderVersion cfg c cl cart dID cID).1 o
      (afterOlderVersion cfg c cl cart dID cID).2) c
      (afterOlderVersion cfg c cl cart dID cID).1 := by
  unfold afterOlderVersion at hwrap ⊢
  split
  · rename_i haccess
    rw [if_pos haccess] at hwrap
    exact lockStep_ok h hrec hph (.inr (.inr rfl)) haccess hwrap
  · exact next_ok h hph (by rw [hph]; rfl) _

/-! ## Giving up -/

theorem customer_names {cts : UInt32} (hph : cl.phase = .delivery cart dID (.locks cID cts)) :
    (Key.customer cart.wID dID cID).Names (customerV cl).body := by
  have hmem : (Key.customer cart.wID dID cID, 0) ∈ cl.phase.writeSet cfg := by
    simp [hph, Phase.writeSet]
  have hnames := h.names hrec hmem
  simp only [Client.copy, Client.buffers, hph] at hnames
  exact hnames

end

theorem customerLocked_eq {cts : UInt32} (hph : cl.phase = .delivery cart dID (.locks cID cts)) :
    customerLocked cl = decide (cl.lockResult (.customer cart.wID dID cID) 0 =
      (cl.copy (.customer cart.wID dID cID) 0).writeTimestamp) := by
  rw [customerLocked, Timestamp.isEqual_eq_decide, Client.lockResult, Client.copy, Client.buffers,
    hph]
  rfl

theorem mem_rowReverts (h : p ∈ rowReverts cfg cl cart) :
    p.qp cfg = cfg.qpOf cart.wID ∧ p.verb.Passive ∧ p.verb.lands = false := by
  simp only [rowReverts, List.mem_append] at h
  rcases h with (h | h) | h
  · split at h
    · rw [List.mem_singleton.1 h]
      exact ⟨rfl, Verb.passive_writeTimestamp rfl _, rfl⟩
    · cases h
  · split at h
    · rw [List.mem_singleton.1 h]
      exact ⟨rfl, Verb.passive_writeTimestamp rfl _, rfl⟩
    · cases h
  · obtain ⟨n, -, rfl⟩ := List.mem_map.1 h
    exact ⟨rfl, Verb.passive_writeTimestamp rfl _, rfl⟩

theorem endedOn_rowReverts (hq : q = cfg.qpOf cart.wID) (hc : customerLocked cl = false) :
    EndedOn cfg q (rowReverts cfg cl cart) := by
  subst hq
  unfold rowReverts
  rcases List.eq_nil_or_concat (lockedOrderLines cfg cl cart) with hnil | ⟨ns, n, hns⟩
  · rw [hnil, List.map_nil, List.append_nil]
    by_cases hn : newOrderLocked cl = true
    · rw [if_pos hn]
      exact endedOn_concat _ (by simp [revertNewOrderLock, hc]) rfl
    · rw [if_neg hn, List.append_nil]
      split
      · exact endedOn_of_forall (by simp [revertOrderLock, hn, hc])
      · exact endedOn_of_forall (by simp)
  · have hlast : (some n == (lockedOrderLines cfg cl cart).getLast? && !customerLocked cl) =
        true := by
      simp [hns, hc]
    generalize (lockedOrderLines cfg cl cart).getLast? = last at hlast
    rw [hns, List.concat_eq_append, List.map_append, ← List.append_assoc]
    exact endedOn_concat _ hlast rfl

theorem giveUp_ok (h : Polled cfg s c cl) (hrec : RecordsOK cfg s)
    {cts : UInt32} (hph : cl.phase = .delivery cart dID (.locks cID cts))
    (hcl' : cl' = ({ cl with phase := .delivery cart dID .reverts } : Client).post
      (.delivery cart dID) (revertPosts cfg cl cart)) :
    ClientOK cfg (s.setClient c cl' o .resume) c cl' := by
  have hp : Posted cfg cl cl' (.delivery cart dID) (rowReverts cfg cl cart ++
      if customerLocked cl then [revertCustomerLock (customerV cl) true] else []) := by
    rw [hcl']
    exact posted_post rfl rfl rfl rfl rfl rfl
  have hph' : cl'.phase = .delivery cart dID .reverts := by
    rw [hcl']
    rfl
  have hkey : customerKey (customerV cl).body = .customer cart.wID dID cID := by
    obtain ⟨h₁, h₂, h₃⟩ := customer_names h hrec hph
    rw [customerKey, h₁, h₂, h₃]
  have hcopy : cl.copy (.customer cart.wID dID cID) 0 = customerV cl := by
    rw [Client.copy, Client.buffers, hph]
    rfl
  have hcustomer : (if customerLocked cl then [revertCustomerLock (customerV cl) true]
      else []).map (·.verb) = (cl.swapped cfg).flatMap fun p => [cl.revertVerb p] := by
    have hwriteSet : cl.phase.writeSet cfg = [(.customer cart.wID dID cID, 0)] := by
      rw [hph]
      rfl
    rw [← List.map_eq_flatMap, Client.swapped, hwriteSet, customerLocked_eq hph,
      List.filter_cons, List.filter_nil]
    split
    · simp only [List.map_cons, List.map_nil, revertCustomerLock, hkey, Client.revertVerb, hcopy]
    · rfl
  refine h.revert (by rw [hph]; rfl) (by rw [hph]; rfl) hp (by rw [hph']; rfl) (by rw [hcl']; rfl)
    (by rw [hph]; exact List.nodup_singleton _) (fun p hpm => (mem_rowReverts hpm).2) hcustomer
    (waits_of_home hph' (by simp) (by simp [Client.waits, hph]) ?_ ?_)
  · intro p hpm
    rcases List.mem_append.1 hpm with hpm | hpm
    · exact (mem_rowReverts hpm).1
    · split at hpm
      · rw [List.mem_singleton.1 hpm, Post.qp, revertCustomerLock, hkey]
        rfl
      · cases hpm
  · by_cases hcl : customerLocked cl = true
    · rw [if_pos hcl]
      refine endedOn_concat _ rfl ?_
      rw [Post.qp, revertCustomerLock, hkey]
      rfl
    · rw [if_neg hcl, List.append_nil]
      exact endedOn_rowReverts rfl (by simpa using hcl)

/-! ## Commit -/

/-- The client that holds all its locks, as it enters the poll loop of the log or passes it. -/
def committing (c : ClientID) (cl : Client) (cart : DeliveryCart) (dID : UInt8)
    (cID cts : UInt32) : Client :=
  { cl with
    localTimestampVector := Function.update cl.localTimestampVector c cts
    phase := .delivery cart dID (.log cID cts) }

theorem mem_rowPosts {cts : UInt32} (h : p ∈ rowPosts cfg c cl cart cts) :
    p.qp cfg = cfg.qpOf cart.wID ∧ p.verb.Passive ∧ p.verb.lands = false := by
  rcases List.mem_append.1 h with h | h
  · rcases List.mem_pair.1 h with rfl | rfl
    all_goals exact ⟨rfl, Verb.passive_writeHead rfl _, rfl⟩
  · obtain ⟨n, -, rfl⟩ := List.mem_map.1 h
    exact ⟨rfl, Verb.passive_writeHead rfl _, rfl⟩

theorem opsOn_commitPlan (cts : UInt32) (hk : k.versioned = true) :
    opsOn k (tagged o (commitPlan cfg c cl cart cts)) =
      opsOn k (tagged o ((appendPosts cfg cl ++ [headPost cfg c cl cart cts]).map (·.verb))) := by
  have hrows : opsOn k (tagged o ((rowPosts cfg c cl cart cts).map (·.verb))) = [] := by
    refine opsOn_tagged_of_passive hk fun v hv => ?_
    obtain ⟨p, hpm, rfl⟩ := List.mem_map.1 hv
    exact (mem_rowPosts hpm).2.1
  rw [commitPlan, installPosts]
  simp only [List.map_append, tagged_append, opsOn_append, hrows, List.append_nil]

def newHead (cfg : Config) (c : ClientID) (cl : Client) (cart : DeliveryCart) (cts : UInt32) :
    (x : Key × ℕ) → Version (Row x.1.table)
  | (.customer _ _ _, _) => newCustomerV c cts (sumOfOrderLinesAmount cfg cl cart) (customerV cl)
  | x => cl.copy x.1 x.2

theorem commit_ok (h : Polled cfg s c cl) (hrec : RecordsOK cfg s)
    {cts : UInt32} (hph : cl.phase = .delivery cart dID (.locks cID cts))
    (hlocked : customerLocked cl = true) : Polled cfg s c (committing c cl cart dID cID cts) := by
  have hc := customer_names h hrec hph
  have hwriteSet : cl.phase.writeSet cfg = [(.customer cart.wID dID cID, 0)] := by rw [hph]; rfl
  have hbuffers : cl.buffers = cl.localMemory .delivery := by rw [Client.buffers, hph]; rfl
  have hcopy := Client.copy_of_buffers hbuffers
  refine h.commitAll (fun _ => pushedLists cfg cl .customerTS) (newHead cfg c cl cart cts)
    (by rw [hph]; rfl) (by rw [hph]; rfl) rfl rfl ?_ (by simp [hwriteSet]) ?_ (fun k hk => ?_)
    (fun x hx t ht hclient hcts => ?_)
  · intro q hq
    simpa [Client.waits, hph, committing] using hq
  · intro x hx
    obtain rfl := List.mem_singleton.1 (hwriteSet ▸ hx)
    rw [customerLocked_eq hph] at hlocked
    exact of_decide_eq_true hlocked
  · obtain ⟨hp, ho, -⟩ := updateCustomer_verbs _ hc (pushedLists cfg cl .customerTS) false
    obtain ⟨-, -, hh⟩ := updateCustomer_verbs (newCustomerV c cts
      (sumOfOrderLinesAmount cfg cl cart) (customerV cl)) hc [] true
    have hplan : (committing c cl cart dID cID cts).plan cfg c =
        tagged ⟨cl.t, .delivery cart dID⟩ (commitPlan cfg c cl cart cts) := rfl
    rw [hplan, opsOn_commitPlan cts hk, hwriteSet]
    simp only [appendPosts, headPost, List.map_append, List.map_cons, List.map_nil, hp, ho, hh,
      List.flatMap_cons, List.flatMap_nil, List.append_nil, Client.saveVerbs, hcopy]
    rfl
  · have hcts : t.word.timestamp = cts := by rw [hcts, hph]; rfl
    obtain rfl := List.mem_singleton.1 (hwriteSet ▸ hx)
    rw [hcopy, ← hcts, ← hclient]
    exact .delivered cID _ ht _

theorem key_of_built {t : Ticket} {x v : Version (Row k.table)} (h : Built cfg t k x v)
    (ht : t.owner.trx = .delivery cart dID) : ∃ cID, k = .customer cart.wID dID cID := by
  cases h with
  | delivered cID amount ht' =>
    rw [ht] at ht'
    cases ht'
    exact ⟨cID, rfl⟩
  | stock ht' | nextOID ht' | warehouse ht' | district ht' | customer _ ht' =>
    rw [ht] at ht'
    cases ht'

/-- The customer that is about to be written is one of the home warehouse: the WRITEs are planned
under a lock that the iteration holds. -/
theorem customer_home (h : Polled cfg s c cl) {cts : UInt32}
    (hph : cl.phase = .delivery cart dID (.log cID cts)) :
    ∃ cID', customerKey (customerV cl).body = .customer cart.wID dID cID' := by
  have hplan : cl.plan cfg c =
      tagged ⟨cl.t, .delivery cart dID⟩ (commitPlan cfg c cl cart cts) := by
    rw [Client.plan, hph]
  have hconf := h.conforms (customerKey (customerV cl).body) rfl
    (by rw [hph]; simp [Phase.writeSet])
  have hmem : ((⟨cl.t, .delivery cart dID⟩ : Owner), Verb.writeHead
      (customerKey (customerV cl).body)
      (newCustomerV c cts (sumOfOrderLinesAmount cfg cl cart) (customerV cl))) ∈
      opsOn (customerKey (customerV cl).body) (cl.plan cfg c) := by
    rw [hplan, commitPlan, installPosts]
    refine List.mem_filter.2 ⟨mem_tagged.2 ⟨rfl, ?_⟩, by simp [Verb.mutates]⟩
    exact List.mem_map.2 ⟨headPost cfg c cl cart cts, by simp, rfl⟩
  obtain ⟨t, stage, y, -, howner, -, hbuilt⟩ := hconf.built_of_mem (List.mem_append_right _ hmem)
  exact key_of_built hbuilt (by rw [howner])

theorem installStep_ok (h : Polled cfg s c cl) {cts : UInt32}
    (hph : cl.phase = .delivery cart dID (.log cID cts)) :
    ClientOK cfg (s.setClient c (installStep cfg c cl cart dID cts).1 o
      (installStep cfg c cl cart dID cts).2) c (installStep cfg c cl cart dID cts).1 := by
  obtain ⟨cID', hkey⟩ := customer_home h hph
  have hp : Posted cfg cl (installStep cfg c cl cart dID cts).1 (.delivery cart dID)
      (installPosts cfg c cl cart cts) := posted_post rfl rfl rfl rfl rfl rfl
  have hplan : cl.plan cfg c =
      tagged ⟨cl.t, .delivery cart dID⟩ (commitPlan cfg c cl cart cts) := by
    rw [Client.plan, hph]
  have hposts : ∀ p ∈ installPosts cfg c cl cart cts,
      p.qp cfg = cfg.qpOf cart.wID ∧ p.verb.lands = false := by
    rw [installPosts]
    intro p hpm
    simp only [List.mem_append, appendPosts, List.mem_cons, List.not_mem_nil, or_false] at hpm
    rcases hpm with ((rfl | rfl) | hpm) | rfl
    · refine ⟨?_, rfl⟩
      rw [Post.qp, updateCustomerPointers, hkey]
      rfl
    · refine ⟨?_, rfl⟩
      simp only [Post.qp, updateCustomerOlderVersions, updateOlderVersions, Verb.qp, hkey]
      rfl
    · exact ⟨(mem_rowPosts hpm).1, (mem_rowPosts hpm).2.2⟩
    · refine ⟨?_, rfl⟩
      have hkey' : customerKey (newCustomerV c cts (sumOfOrderLinesAmount cfg cl cart)
        (customerV cl)).body = .customer cart.wID dID cID' := hkey
      simp only [Post.qp, headPost, updateCustomer, Verb.qp, hkey']
      rfl
  refine h.post hp (h.standing hp (h.active (by simp [hph])) ?_ (by rw [hph]; rfl) rfl rfl ?_
    (fun cart' hcart' => by cases hcart')) ?_ ?_ (fun x hx => by cases hx)
  · have hlabel : (installStep cfg c cl cart dID cts).2 = .resume := rfl
    rw [hlabel, State.acquired_setClient_of_label (by simp), ← h.epoch]
    rfl
  · intro k _
    have hplan' : (installStep cfg c cl cart dID cts).1.plan cfg c = [] := rfl
    rw [hplan', hplan, opsOn_nil, List.append_nil]
    rfl
  · refine waits_of_home rfl (by simp) (by simp [Client.waits, hph])
      (fun p hpm => (hposts p hpm).1) ?_
    have hlast := (hposts (headPost cfg c cl cart cts) (by rw [installPosts]; simp)).1
    rw [installPosts]
    exact endedOn_concat _ rfl hlast
  · intro p hpm hl
    simp [(hposts p hpm).2] at hl

theorem installStep_setPhase (ph : Phase) (cts : UInt32) :
    installStep cfg c { cl with phase := ph } cart dID cts = installStep cfg c cl cart dID cts := by
  cases cl
  rfl

theorem afterLocks_ok (h : Polled cfg s c cl) (hrec : RecordsOK cfg s)
    {cts : UInt32} (hph : cl.phase = .delivery cart dID (.locks cID cts)) :
    ClientOK cfg (s.setClient c (afterLocks cfg c cl cart dID cID cts).1 o
      (afterLocks cfg c cl cart dID cID cts).2) c (afterLocks cfg c cl cart dID cID cts).1 := by
  unfold afterLocks
  split
  · rename_i hlocked
    rw [Bool.and_eq_true] at hlocked
    have hcommit := commit_ok h hrec hph hlocked.2
    simp only
    split
    · exact hcommit.log rfl rfl
    · -- without a log the commit goes on at once
      rw [← installStep_setPhase (.delivery cart dID (.log cID cts))]
      exact installStep_ok hcommit rfl
  · exact giveUp_ok h hrec hph rfl

/-! ## The end of an iteration -/

theorem afterInstall_ok (h : Polled cfg s c cl) (hph : cl.phase = .delivery cart dID .install) :
    ClientOK cfg (s.setClient c (afterInstall cfg cl cart dID).1 o
      (afterInstall cfg cl cart dID).2) c (afterInstall cfg cl cart dID).1 := by
  refine h.request (posted_post rfl rfl rfl rfl rfl rfl) (by rw [hph]; rfl) rfl rfl rfl
    (fun _ _ => rfl) ?_ fun _ => ?_
  · rw [waits_eq hph (by simp), waits_eq rfl (by simp)]
    exact fun q hq => hq
  · rw [waits_eq rfl (by simp)]
    exact ⟨by simp [Post.qp, registerDelivery, Verb.qp, Config.qpOf], fun hreg => by cases hreg⟩

theorem afterRegister_ok (h : Polled cfg s c cl) (hph : cl.phase = .delivery cart dID .register) :
    ClientOK cfg (s.setClient c (afterRegister c cl cart dID).1 o (afterRegister c cl cart dID).2)
      c (afterRegister c cl cart dID).1 := by
  refine h.request (posted_post rfl rfl rfl rfl rfl rfl) (by rw [hph]; rfl) rfl rfl rfl
    (fun _ _ => rfl) ?_ nofun
  rw [waits_eq hph (by simp), waits_eq rfl (by simp)]
  exact fun q hq => hq

/-- **Delivery.** Every stretch of an iteration keeps the invariant of the client. -/
theorem resume_ok (h : Polled cfg s c cl) (hrec : RecordsOK cfg s)
    {pc : DeliveryPC} (hph : cl.phase = .delivery cart dID pc) (vec : ClientID → UInt32)
    (hwrap : NoWrap cfg (s.setClient c (resume cfg c cl cart dID vec pc).1 o
      (resume cfg c cl cart dID vec pc).2)) :
    ClientOK cfg (s.setClient c (resume cfg c cl cart dID vec pc).1 o
      (resume cfg c cl cart dID vec pc).2) c (resume cfg c cl cart dID vec pc).1 := by
  cases pc with
  | begin => exact beginStep_ok h hph vec
  | oldest => exact afterOldest_ok h hph
  | orderRows => exact afterOrderRows_ok h hph
  | customer cID => exact afterCustomer_ok h hrec hph vec hwrap
  | snapshot cID => exact checkStep_ok h hrec hph (.inr rfl) hwrap
  | olderVersion cID => exact afterOlderVersion_ok h hrec hph hwrap
  | locks cID cts => exact afterLocks_ok h hrec hph
  | reverts | publish =>
    exact next_ok h hph (by rw [hph]; rfl) _
  | log cID cts => exact installStep_ok h hph
  | install => exact afterInstall_ok h hph
  | register => exact afterRegister_ok h hph

end RdmaSnapshot.DeliveryTransaction
