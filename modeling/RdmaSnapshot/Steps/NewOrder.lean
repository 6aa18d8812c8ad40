import RdmaSnapshot.Steps.Batch

/-!
# The steps of a NewOrder keep the invariant

One lemma for each stretch of `NewOrderTransaction::doOne` between two poll loops.
-/

namespace RdmaSnapshot.NewOrderTransaction

open DBExecutor

variable {cfg : Config} {s : State} {c : ClientID} {cl cl' : Client} {k : Key} {o : Owner}
  {cart : NewOrderCart} {q : QueuePair} {p : Post} {cts assignedOID : UInt32}
  {x : NewOrderItem × ℕ}

def servers (cfg : Config) (cart : NewOrderCart) : List QueuePair :=
  cfg.qpOf cart.wID :: cart.items.map fun item => cfg.qpOf item.OL_SUPPLY_W_ID

theorem waits_eq {pc : NewOrderPC} (h : cl.phase = .newOrder cart pc)
    (hpc : ∀ cts, pc ≠ .nextOID cts) : cl.waits cfg = .oracle :: servers cfg cart := by
  unfold Client.waits
  rw [h]
  cases pc with
  | nextOID cts => exact absurd rfl (hpc cts)
  | _ => rfl

theorem qpOf_supply_mem {item : NewOrderItem} {n : ℕ} (h : (item, n) ∈ cart.items.zipIdx) :
    cfg.qpOf item.OL_SUPPLY_W_ID ∈ servers cfg cart := by
  have hmem : item ∈ cart.items := List.mem_of_getElem? (List.mem_zipIdx_iff_getElem?.1 h)
  exact List.mem_cons_of_mem _ (List.mem_map_of_mem hmem)

/-! ## Read set -/

def linePosts (cfg : Config) (cart : NewOrderCart) (x : NewOrderItem × ℕ) : List Post :=
  [retrieveItem cfg x.2 x.1.I_ID cart.wID (x.2 == cart.items.length - 1),
    retrieveStock x.2 x.1.I_ID x.1.OL_SUPPLY_W_ID false,
    retrieveStockPointerList x.2 x.1.I_ID x.1.OL_SUPPLY_W_ID true]

theorem readSetPosts_eq : readSetPosts cfg cart =
    [retrieveWarehouse cart.wID false, retrieveWarehousePointerList cart.wID .warehouseTS false,
      retrieveDistrict cart.wID cart.dID false,
      retrieveDistrictPointerList cart.wID cart.dID .districtTS false,
      retrieveCustomer cart.wID cart.dID cart.cID false,
      retrieveCustomerPointerList cart.wID cart.dID cart.cID .customerTS false] ++
    cart.items.zipIdx.flatMap (linePosts cfg cart) := rfl

theorem mem_readSetPosts (h : p ∈ readSetPosts cfg cart) :
    p.qp cfg ∈ servers cfg cart ∧ p.verb.Passive ∧
      ∀ cl : Client, cl.phase = .newOrder cart .readSet → cl.awaits cfg p.verb := by
  rw [readSetPosts_eq, List.mem_append] at h
  rcases h with h | h
  · simp only [List.mem_cons, List.not_mem_nil, or_false] at h
    rcases h with rfl | rfl | rfl | rfl | rfl | rfl
    all_goals
      refine ⟨List.mem_cons_self, fun k _ => rfl, fun cl hcl => ?_⟩
      simp [retrieveWarehouse, retrieveWarehousePointerList, retrieveDistrict,
        retrieveDistrictPointerList, retrieveCustomer, retrieveCustomerPointerList, Client.awaits,
        hcl, Phase.readsHeads, Phase.readSet]
  · obtain ⟨⟨item, n⟩, hx, hp⟩ := List.mem_flatMap.1 h
    have hslot : (Key.stock item.OL_SUPPLY_W_ID item.I_ID, n) ∈ stockSlots cart :=
      mem_stockSlots.2 ⟨item, List.mem_zipIdx_iff_getElem?.1 hx, rfl⟩
    simp only [linePosts, List.mem_cons, List.not_mem_nil, or_false] at hp
    rcases hp with rfl | rfl | rfl
    · refine ⟨List.mem_cons_self, fun k _ => rfl, fun cl hcl => ?_⟩
      simp [retrieveItem, Client.awaits, hcl, Phase.readsHeads, Key.versioned]
    · refine ⟨qpOf_supply_mem hx, fun k _ => rfl, fun cl hcl => ?_⟩
      simp [retrieveStock, Client.awaits, hcl, Phase.readsHeads, Phase.readSet, hslot]
    · refine ⟨qpOf_supply_mem hx, fun k _ => rfl, fun cl hcl => ?_⟩
      simp [retrieveStockPointerList, Client.awaits, hcl, Phase.readsHeads]

theorem exists_readHead {x : Key × ℕ} (h : x ∈ (Phase.newOrder cart .readSet).readSet) :
    ∃ p ∈ readSetPosts cfg cart, p.verb = .readHead x.1 x.2 := by
  rw [readSetPosts_eq]
  simp only [Phase.readSet, List.cons_append, List.nil_append, List.mem_cons] at h
  rcases h with rfl | rfl | rfl | h
  · exact ⟨retrieveWarehouse cart.wID false, by simp, rfl⟩
  · exact ⟨retrieveDistrict cart.wID cart.dID false, by simp, rfl⟩
  · exact ⟨retrieveCustomer cart.wID cart.dID cart.cID false, by simp, rfl⟩
  · obtain ⟨item, hitem, hk⟩ := mem_stockSlots.1 h
    refine ⟨retrieveStock x.2 item.I_ID item.OL_SUPPLY_W_ID false, ?_, by rw [hk]; rfl⟩
    refine List.mem_append_right _ (List.mem_flatMap.2 ⟨(item, x.2), ?_, by simp [linePosts]⟩)
    exact List.mem_zipIdx_iff_getElem?.2 hitem

theorem endedOn_linePosts (h : q ≠ cfg.qpOf cart.wID ∨ x.2 = cart.items.length - 1) :
    EndedOn cfg q (linePosts cfg cart x) := by
  by_cases hs : cfg.qpOf x.1.OL_SUPPLY_W_ID = q
  · exact endedOn_concat [_, _] rfl hs
  · refine endedOn_append_of_ne [_, _] (?_ : EndedOn cfg q [_]) ?_
    · rcases h with hq | hlast
      · exact endedOn_of_ne fun p hp => by
          rw [List.mem_singleton.1 hp]
          exact hq.symm
      · exact endedOn_of_forall (by simp [retrieveItem, hlast])
    · intro p hp
      rcases List.mem_pair.1 hp with rfl | rfl <;> exact hs

theorem exists_last_line (cart : NewOrderCart) :
    ∃ init item, cart.items.zipIdx = init ++ [(item, cart.items.length - 1)] := by
  have hitems := List.dropLast_append_getLast cart.items_ne_nil
  refine ⟨cart.items.dropLast.zipIdx, cart.items.getLast cart.items_ne_nil, ?_⟩
  conv_lhs => rw [← hitems]
  simp [List.zipIdx_append]

/-- Posts to the home warehouse, followed by those of the lines, cover the queue pairs of the
transaction. -/
theorem endedOn_lines {f : NewOrderItem × ℕ → List Post} (first : Post) (pre : List Post)
    (hpre : ∀ p ∈ first :: pre, p.qp cfg = cfg.qpOf cart.wID)
    (hf : ∀ x, q ≠ cfg.qpOf cart.wID ∨ x.2 = cart.items.length - 1 → EndedOn cfg q (f x))
    (hon : ∀ x, PostsOn cfg (cfg.qpOf x.1.OL_SUPPLY_W_ID) (f x)) {posts : List Post}
    (hposts : posts = first :: pre ++ cart.items.zipIdx.flatMap f)
    (hlast : ∀ x, PostsOn cfg (cfg.qpOf cart.wID) (f x)) (hq : q ∈ servers cfg cart) :
    EndedOn cfg q posts ∧ PostsOn cfg q posts := by
  subst hposts
  by_cases hhome : q = cfg.qpOf cart.wID
  · refine ⟨?_, first, List.mem_cons_self, (hpre first List.mem_cons_self).trans hhome.symm⟩
    obtain ⟨init, item, hinit⟩ := exists_last_line cart
    rw [hinit, List.flatMap_append, ← List.append_assoc, List.flatMap_singleton]
    refine (hf _ (.inr rfl)).append_right fun hnil => ?_
    obtain ⟨p, hp, hpq⟩ := hlast (item, cart.items.length - 1)
    exact Fifo.lane_eq_nil_iff.1 hnil p hp (hpq.trans hhome.symm)
  · have hsupply := (List.mem_cons.1 hq).resolve_left hhome
    obtain ⟨item, hitem, rfl⟩ := List.mem_map.1 hsupply
    obtain ⟨n, hn⟩ := List.getElem?_of_mem hitem
    obtain ⟨p, hp, hpq⟩ := hon (item, n)
    refine ⟨Fifo.Ended.append (endedOn_of_ne fun p hp => ?_)
      (Fifo.ended_flatMap fun x _ => hf x (.inl hhome)), p, ?_, hpq⟩
    · rw [hpre p hp]
      exact Ne.symm hhome
    · exact List.mem_append_right _
        (List.mem_flatMap.2 ⟨_, List.mem_zipIdx_iff_getElem?.2 hn, hp⟩)

theorem endedOn_readSetPosts (hq : q ∈ servers cfg cart) :
    EndedOn cfg q (readSetPosts cfg cart) ∧ PostsOn cfg q (readSetPosts cfg cart) := by
  refine endedOn_lines _ _ (fun p hp => ?_) (fun _ => endedOn_linePosts)
    (fun x => ⟨retrieveStock x.2 x.1.I_ID x.1.OL_SUPPLY_W_ID false, by simp [linePosts], rfl⟩)
    readSetPosts_eq (fun x => ⟨_, List.mem_cons_self, rfl⟩) hq
  simp only [List.mem_cons, List.not_mem_nil, or_false] at hp
  rcases hp with rfl | rfl | rfl | rfl | rfl | rfl <;> rfl

theorem start_ok (h : Polled cfg s c cl) (hidle : cl.phase = .idle) (hc : c.toNat < cfg.clientCnt)
    (vec : ClientID → UInt32) :
    ClientOK cfg (s.setClient c (start cfg cl cart vec) o .begin) c (start cfg cl cart vec) := by
  have heq : start cfg cl cart vec = (cl.startBase cfg vec (.newOrder cart .readSet)).post
      (.newOrder cart) (startPosts cfg ++ readSetPosts cfg cart) := start_eq cl vec _
  rw [heq]
  refine h.start hc (by simp) (by rw [hidle]; rfl) vec rfl rfl rfl rfl (by simp) ?_ ?_ ?_ ?_
  · intro p hp
    refine ⟨(mem_readSetPosts hp).2.1, fun horacle => ?_⟩
    have hmem := (mem_readSetPosts hp).1
    simp [horacle, servers, Config.qpOf] at hmem
  · intro cl' hcl' q hq hne
    rw [waits_eq hcl' (by simp)] at hq
    exact endedOn_readSetPosts ((List.mem_cons.1 hq).resolve_left hne)
  · intro cl' hcl' p hp _
    rw [waits_eq hcl' (by simp)]
    exact ⟨List.mem_cons_of_mem _ (mem_readSetPosts hp).1, (mem_readSetPosts hp).2.2 cl' hcl'⟩
  · exact fun x hx => exists_readHead hx

/-! ## Version check -/

theorem exists_of_mem_checkVersions (h : p ∈ (checkVersions cfg c cl cart).1) :
    ∃ k ind ts, p = retrieveOlderVersion cfg k ind ts true ∧
      k ∈ [Key.warehouse cart.wID, .district cart.wID cart.dID,
        .customer cart.wID cart.dID cart.cID] := by
  suffices hkey : ∃ k ∈ [Key.warehouse cart.wID, .district cart.wID cart.dID,
      .customer cart.wID cart.dID cart.cID], ∃ ind ts, p = retrieveOlderVersion cfg k ind ts true by
    obtain ⟨k, hk, ind, ts, hp⟩ := hkey
    exact ⟨k, ind, ts, hp, hk⟩
  simp only [List.exists_mem_cons_iff]
  unfold checkVersions at h
  split at h
  · cases h
  rename_i ws hws
  split at h
  · exact .inl (mem_fetchOlderVersion hws h)
  rename_i ds hds
  split at h
  · exact (List.mem_append.1 h).imp (mem_fetchOlderVersion hws)
      fun h => .inl (mem_fetchOlderVersion hds h)
  rename_i cs hcs
  simp only [List.mem_append, or_assoc] at h
  exact h.imp (mem_fetchOlderVersion hws) (Or.imp (mem_fetchOlderVersion hds)
    fun h => .inl (mem_fetchOlderVersion hcs h))

theorem mem_checkVersions (h : p ∈ (checkVersions cfg c cl cart).1) :
    p.signaled = true ∧ p.qp cfg = cfg.qpOf cart.wID ∧ p.verb.Passive ∧
      ∀ (cl' : Client) (flag : Bool), cl'.phase = .newOrder cart (.olderVersions flag) →
        cl'.awaits cfg p.verb := by
  obtain ⟨k, ind, ts, rfl, hk⟩ := exists_of_mem_checkVersions h
  have hkey : .server (cfg.serverOf k) = cfg.qpOf cart.wID ∧ k.table ≠ .stock ∧
      (k, 0) ∈ (Phase.newOrder cart .readSet).readSet := by
    simp only [List.mem_cons, List.not_mem_nil, or_false] at hk
    rcases hk with rfl | rfl | rfl
    all_goals exact ⟨rfl, by simp, by simp [Phase.readSet]⟩
  rcases retrieveOlderVersion_cases cfg k ind ts with ⟨slot, heq⟩ | heq
  all_goals
    rw [heq]
    refine ⟨rfl, hkey.1, fun k _ => rfl, fun cl' flag hcl' => ?_⟩
    simp only [Client.awaits, hcl']
    exact ⟨rfl, hkey.2.2, hkey.2.1⟩

theorem checkVersions_stock (h : (checkVersions cfg c cl cart).2 = false) {b : ℕ}
    (hb : b < cart.items.length) : cl.isRecordAccessible c (stockV cl b).writeTimestamp = true := by
  unfold checkVersions at h
  repeat' split at h
  all_goals try cases h
  simp only [List.any_eq_false, Prod.forall, Bool.or_eq_true, Bool.not_eq_true', not_or,
    Bool.not_eq_false] at h
  obtain ⟨item, hitem⟩ : ∃ item, cart.items[b]? = some item := ⟨_, List.getElem?_eq_getElem hb⟩
  exact (h item b (List.mem_zipIdx_iff_getElem?.2 hitem)).2

theorem checkStep_ok (h : Polled cfg s c cl) {pc : NewOrderPC}
    (hph : cl.phase = .newOrder cart pc) (hpc : pc = .readSet ∨ pc = .snapshot) :
    ClientOK cfg (s.setClient c (checkStep cfg c cl cart).1 o (checkStep cfg c cl cart).2) c
      (checkStep cfg c cl cart).1 := by
  have hidle : cl.phase ≠ .idle := by simp [hph]
  have hwaits : cl.waits cfg = .oracle :: servers cfg cart :=
    waits_eq hph (by rcases hpc with rfl | rfl <;> simp)
  have hreadSet : cl.phase.readSet = (Phase.newOrder cart .readSet).readSet := by
    rcases hpc with rfl | rfl <;> rw [hph]
    rfl
  refine h.passive (posted_post rfl rfl rfl rfl rfl rfl) (h.active hidle) (by simp [checkStep]) rfl
    (by rcases hpc with rfl | rfl <;> rw [hph] <;> rfl) rfl ?_ ?_ ?_ ?_ ?_
  · exact fun p hp => (mem_checkVersions hp).2.2.1
  · intro cart' hcart' b hb
    obtain ⟨rfl, hflag⟩ : cart = cart' ∧ (checkVersions cfg c cl cart).2 = false := by
      simpa [checkStep, Client.post] using hcart'
    exact checkVersions_stock hflag hb
  · refine waits_of_signaled (fun p hp => (mem_checkVersions hp).1) fun q hq => ?_
    rw [waits_eq rfl (by simp)] at hq
    rw [hwaits]
    exact hq
  · intro p hp _
    rw [waits_eq rfl (by simp), (mem_checkVersions hp).2.1]
    exact ⟨by simp [servers], (mem_checkVersions hp).2.2.2 _ _ rfl⟩
  · intro x hx
    right
    have hseen := h.reads x (hreadSet ▸ hx)
    simp only [Client.copy, Client.buffers, hph] at hseen
    exact hseen

theorem afterReadSet_ok (h : Polled cfg s c cl) (hph : cl.phase = .newOrder cart .readSet)
    (vec : ClientID → UInt32) :
    ClientOK cfg (s.setClient c (afterReadSet cfg c cl cart vec).1 o
      (afterReadSet cfg c cl cart vec).2) c (afterReadSet cfg c cl cart vec).1 := by
  cases hmode : cfg.SNAPSHOT_ACQUISITION_TYPE with
  | COMPLETE =>
    simp only [afterReadSet, hmode]
    exact checkStep_ok h hph (.inl rfl)
  | ONLY_READ_SET =>
    simp only [afterReadSet, hmode]
    refine h.snapshot (h.active (by simp [hph])) (by rw [hph]; rfl) vec _ rfl rfl rfl rfl (by simp)
      ?_ ?_ ?_
    · intro cl' hcl' q hq
      rw [waits_eq hcl' (by simp)] at hq
      rw [waits_eq hph (by simp)]
      exact hq
    · rw [hph]
      rfl
    · rw [hph]
      rfl

/-! ## Locks -/

def lineKey (x : NewOrderItem × ℕ) : Key := .stock x.1.OL_SUPPLY_W_ID x.1.I_ID

theorem nodup_lineKey : (cart.items.zipIdx.map lineKey).Nodup := by
  have hkeys : cart.items.zipIdx.map lineKey =
      cart.items.map fun item => Key.stock item.OL_SUPPLY_W_ID item.I_ID := by
    conv_rhs => rw [← List.zipIdx_map_fst 0 cart.items, List.map_map]
    rfl
  rw [hkeys]
  refine List.Nodup.of_map (f := fun k => match k with | .stock _ i => i | _ => 0) ?_
  rw [List.map_map]
  exact cart.items_nodup

theorem nodup_writeSet (cts : UInt32) :
    (((Phase.newOrder cart (.locks cts)).writeSet cfg).map Prod.fst).Nodup := by
  have hstock : ((stockSlots cart).map Prod.fst).Nodup := by
    rw [stockSlots, List.map_map]
    exact nodup_lineKey
  simp only [Phase.writeSet, List.map_append]
  split
  · simpa using hstock
  · simp only [List.map_cons, List.map_nil, List.singleton_append, List.nodup_cons]
    refine ⟨fun hmem => ?_, hstock⟩
    obtain ⟨x, hx, hkey⟩ := List.mem_map.1 hmem
    have htable := table_of_mem_stockSlots hx
    rw [hkey] at htable
    cases htable

theorem lockPosts_verbs (hd : cfg.APPLY_COMMUTATIVE_UPDATES = false →
      (Key.district cart.wID cart.dID).Names (districtV cl).body)
    (hbuffers : cl'.localMemory .newOrder = cl.localMemory .newOrder)
    (hph : cl'.phase = .newOrder cart (.locks cts)) :
    (lockPosts cfg c cl cart cts).map (·.verb) =
      (cl'.phase.writeSet cfg).flatMap fun p => [cl'.lockVerb c cts p] := by
  have hcopy : ∀ k b, cl'.copy k b = (cl.localMemory .newOrder).head k.table b :=
    Client.copy_of_buffers (by rw [Client.buffers, hph]; exact hbuffers)
  rw [← List.map_eq_flatMap, hph]
  simp only [lockPosts, Phase.writeSet, List.map_append, stockSlots, List.map_map]
  congr 1
  · split
    · rfl
    · rename_i hcomm
      obtain ⟨hw, hdID⟩ := hd (by simpa using hcomm)
      simp only [List.map_cons, List.map_nil, lockDistrict, lock, Client.lockVerb, hcopy, hw, hdID]
      rfl
  · refine List.map_congr_left fun x _ => ?_
    simp only [Function.comp_apply, Client.lockVerb, hcopy]
    rfl

theorem mem_writeSet (hc : ∀ b < cart.items.length,
      cl.isRecordAccessible c (stockV cl b).writeTimestamp = true)
    (hd : cl.isRecordAccessible c (districtV cl).writeTimestamp = true) {x : Key × ℕ}
    (hx : x ∈ (Phase.newOrder cart (.locks cts)).writeSet cfg) :
    x ∈ (Phase.newOrder cart .readSet).readSet ∧
      cl.isRecordAccessible c ((cl.localMemory .newOrder).head x.1.table x.2).writeTimestamp =
        true ∧ .server (cfg.serverOf x.1) ∈ servers cfg cart := by
  rcases List.mem_append.1 hx with hx | hx
  · split at hx
    · cases hx
    · obtain rfl := List.mem_singleton.1 hx
      exact ⟨by simp [Phase.readSet], hd, List.mem_cons_self⟩
  · obtain ⟨item, hitem, hk⟩ := mem_stockSlots.1 hx
    obtain ⟨k, b⟩ := x
    obtain rfl : k = _ := hk
    obtain ⟨hb, -⟩ := List.getElem?_eq_some_iff.1 hitem
    refine ⟨List.mem_append_right _ hx, hc b hb, ?_⟩
    exact qpOf_supply_mem (List.mem_zipIdx_iff_getElem?.2 hitem)

theorem lock_ok (h : Polled cfg s c cl) (hrec : RecordsOK cfg s)
    (hph : cl.phase = .newOrder cart (.olderVersions false))
    (hdistrict : cl.isRecordAccessible c (districtV cl).writeTimestamp = true)
    (hcts : (cl.newCommitTimestamp cfg c).toNat = s.nextCts cfg c)
    (hcl' : cl' = ({ cl.advanceEpoch with
      phase := .newOrder cart (.locks (cl.newCommitTimestamp cfg c)) } : Client).post
        (.newOrder cart) (lockPosts cfg c cl cart (cl.newCommitTimestamp cfg c))) :
    ClientOK cfg (s.setClient c cl' o (.acquire (cl.newCommitTimestamp cfg c))) c cl' := by
  have hp : Posted cfg cl cl' (.newOrder cart)
      ([] ++ lockPosts cfg c cl cart (cl.newCommitTimestamp cfg c)) := by
    rw [hcl']
    exact posted_post rfl rfl rfl rfl rfl rfl
  have hph' : cl'.phase = .newOrder cart (.locks (cl.newCommitTimestamp cfg c)) := by
    rw [hcl']
    rfl
  have hbuffers : cl'.localMemory .newOrder = cl.localMemory .newOrder := by
    rw [hcl']
    rfl
  have hvector : cl'.localTimestampVector = cl.localTimestampVector := by
    rw [hcl']
    rfl
  have hwaits : cl.waits cfg = .oracle :: servers cfg cart := waits_eq hph (by simp)
  have hwaits' : cl'.waits cfg = .oracle :: servers cfg cart := waits_eq hph' (by simp)
  have hcopy : ∀ k b, cl'.copy k b = (cl.localMemory .newOrder).head k.table b :=
    Client.copy_of_buffers (by rw [Client.buffers, hph']; exact hbuffers)
  have hstock : ∀ b < cart.items.length,
      cl.isRecordAccessible c (stockV cl b).writeTimestamp = true := by
    intro b hb
    have hchk := h.checked cart hph b hb
    simp only [Client.buffers, hph] at hchk
    exact hchk
  have hseen : ∀ x ∈ (Phase.newOrder cart .readSet).readSet,
      Seen s x.1 ((cl.localMemory .newOrder).head x.1.table x.2) := by
    intro x hx
    have hsx := h.reads x (by rw [hph]; exact hx)
    simp only [Client.copy, Client.buffers, hph] at hsx
    exact hsx
  have hset : ∀ x ∈ cl'.phase.writeSet cfg, x ∈ (Phase.newOrder cart .readSet).readSet ∧
      cl.isRecordAccessible c ((cl.localMemory .newOrder).head x.1.table x.2).writeTimestamp =
        true ∧ .server (cfg.serverOf x.1) ∈ servers cfg cart := by
    rw [hph']
    exact fun x hx => mem_writeSet hstock hdistrict hx
  have hnames : (Key.district cart.wID cart.dID).Names (districtV cl).body :=
    (hseen (.district cart.wID cart.dID, 0) (by simp [Phase.readSet])).names hdistrict (hrec _ rfl)
  refine h.lockAll hrec hp (by simp [hph]) hcts (by rw [hcl']; rfl) (by rw [hph]; rfl)
    (by rw [hph']; rfl) (by rw [hph']; rfl) (by rw [hph']; exact nodup_writeSet _) (by simp)
    (lockPosts_verbs (fun _ => hnames) hbuffers hph') ?_ ?_ ?_ (waits_of_signaled ?_ ?_)
  · intro x hx
    rw [hwaits, hwaits']
    exact ⟨List.mem_cons_of_mem _ (hset x hx).2.2, List.mem_cons_of_mem _ (hset x hx).2.2⟩
  · intro x hx
    rw [hcopy]
    exact hseen x (hset x hx).1
  · intro x hx
    rw [hcopy, Client.isRecordAccessible, hvector]
    exact (hset x hx).2.1
  · intro p hpm
    rw [List.nil_append] at hpm
    rcases List.mem_append.1 hpm with hpm | hpm
    · split at hpm
      · cases hpm
      · rw [List.mem_singleton.1 hpm]
        rfl
    · obtain ⟨x, -, rfl⟩ := List.mem_map.1 hpm
      rfl
  · rw [hwaits, hwaits']
    exact fun q hq => hq

theorem afterOlderVersions_ok (h : Polled cfg s c cl) (hrec : RecordsOK cfg s) {abortFlag : Bool}
    (hph : cl.phase = .newOrder cart (.olderVersions abortFlag))
    (hwrap : NoWrap cfg (s.setClient c (afterOlderVersions cfg c cl cart abortFlag).1 o
      (afterOlderVersions cfg c cl cart abortFlag).2)) :
    ClientOK cfg (s.setClient c (afterOlderVersions cfg c cl cart abortFlag).1 o
      (afterOlderVersions cfg c cl cart abortFlag).2) c
      (afterOlderVersions cfg c cl cart abortFlag).1 := by
  unfold afterOlderVersions at hwrap ⊢
  split
  · exact h.finish (by simp) rfl rfl rfl rfl (.inl rfl) (by rw [hph]; rfl)
  · rename_i hcheck
    rw [if_neg hcheck] at hwrap
    simp only [Bool.or_eq_true, Bool.not_eq_true', not_or, Bool.not_eq_true,
      Bool.not_eq_false] at hcheck
    obtain ⟨⟨⟨rfl, -⟩, hdistrict⟩, -⟩ := hcheck
    have hcts := h.newCommitTimestamp_toNat (h.active (by simp [hph])) (by
      have hw := hwrap c (h.active (by simp [hph]))
      rwa [State.acquired_setClient_acquire] at hw)
    exact lock_ok h hrec hph hdistrict hcts rfl

/-! ## Giving up -/

theorem revertPosts_verbs (hph : cl.phase = .newOrder cart (.locks cts))
    (hd : cfg.APPLY_COMMUTATIVE_UPDATES = false →
      (Key.district cart.wID cart.dID).Names (districtV cl).body) :
    (revertPosts cfg cl cart).map (·.verb) =
      (cl.swapped cfg).flatMap fun p => [cl.revertVerb p] := by
  have hbuffers : cl.buffers = cl.localMemory .newOrder := by rw [Client.buffers, hph]; rfl
  have hcopy := Client.copy_of_buffers hbuffers
  have hresult := Client.lockResult_of_buffers hbuffers
  have hstock : ∀ x : NewOrderItem × ℕ, stockLocked cl x.2 =
      decide (cl.lockResult (.stock x.1.OL_SUPPLY_W_ID x.1.I_ID) x.2 =
        (cl.copy (.stock x.1.OL_SUPPLY_W_ID x.1.I_ID) x.2).writeTimestamp) := by
    intro x
    rw [stockLocked, Timestamp.isEqual_eq_decide, hcopy, hresult]
    rfl
  rw [← List.map_eq_flatMap, Client.swapped, hph]
  simp only [revertPosts, Phase.writeSet, List.map_append, List.filter_append, stockSlots,
    List.map_map, List.filter_map]
  congr 1
  · by_cases hcomm : cfg.APPLY_COMMUTATIVE_UPDATES = true
    · simp [hcomm]
    · have hcomm' : cfg.APPLY_COMMUTATIVE_UPDATES = false := by simpa using hcomm
      obtain ⟨hw, hdID⟩ := hd hcomm'
      have hdistrict : districtLocked cfg cl =
          decide (cl.lockResult (.district cart.wID cart.dID) 0 =
            (cl.copy (.district cart.wID cart.dID) 0).writeTimestamp) := by
        rw [districtLocked, hcomm', Bool.false_or, Timestamp.isEqual_eq_decide, hcopy, hresult]
        rfl
      simp only [hcomm', hdistrict, Bool.not_false, Bool.true_and, Bool.false_eq_true, if_false,
        List.filter_cons, List.filter_nil]
      split
      · simp only [List.map_cons, List.map_nil, revertDistrictLock, hw, hdID, Client.revertVerb,
          hcopy]
        rfl
      · rfl
  · simp only [Function.comp_def, hstock, Client.revertVerb, hcopy]
    rfl

theorem district_names (h : Polled cfg s c cl) (hrec : RecordsOK cfg s)
    (hph : cl.phase = .newOrder cart (.locks cts))
    (hcomm : cfg.APPLY_COMMUTATIVE_UPDATES = false) :
    (Key.district cart.wID cart.dID).Names (districtV cl).body := by
  have hmem : (Key.district cart.wID cart.dID, 0) ∈ cl.phase.writeSet cfg := by
    simp [hph, Phase.writeSet, hcomm]
  have hnames := h.names hrec hmem
  simp only [Client.copy, Client.buffers, hph] at hnames
  exact hnames

theorem stock_names (h : Polled cfg s c cl) (hrec : RecordsOK cfg s)
    (hph : cl.phase = .newOrder cart (.locks cts)) (hx : x ∈ cart.items.zipIdx) :
    (Key.stock x.1.OL_SUPPLY_W_ID x.1.I_ID).Names (stockV cl x.2).body := by
  have hslot : (Key.stock x.1.OL_SUPPLY_W_ID x.1.I_ID, x.2) ∈ stockSlots cart :=
    mem_stockSlots.2 ⟨x.1, List.mem_zipIdx_iff_getElem?.1 hx, rfl⟩
  have hmem : (Key.stock x.1.OL_SUPPLY_W_ID x.1.I_ID, x.2) ∈ cl.phase.writeSet cfg := by
    rw [hph]
    exact List.mem_append_right _ hslot
  have hnames := h.names hrec hmem
  simp only [Client.copy, Client.buffers, hph] at hnames
  exact hnames

theorem giveUp_ok (h : Polled cfg s c cl) (hrec : RecordsOK cfg s)
    (hph : cl.phase = .newOrder cart (.locks cts))
    (hcl' : cl' = ({ cl with phase := .newOrder cart .reverts } : Client).post
      (.newOrder cart) (revertPosts cfg cl cart)) :
    ClientOK cfg (s.setClient c cl' o .resume) c cl' := by
  have hp : Posted cfg cl cl' (.newOrder cart) ([] ++ revertPosts cfg cl cart) := by
    rw [hcl']
    exact posted_post rfl rfl rfl rfl rfl rfl
  have hph' : cl'.phase = .newOrder cart .reverts := by
    rw [hcl']
    rfl
  refine h.revert (by rw [hph]; rfl) (by rw [hph]; rfl) hp (by rw [hph']; rfl) (by rw [hcl']; rfl)
    (by rw [hph]; exact nodup_writeSet cts) (by simp)
    (revertPosts_verbs hph (district_names h hrec hph)) (waits_of_signaled ?_ ?_)
  · intro p hpm
    rw [List.nil_append] at hpm
    rcases List.mem_append.1 hpm with hpm | hpm
    · split at hpm
      · rw [List.mem_singleton.1 hpm]
        rfl
      · cases hpm
    · obtain ⟨x, -, rfl⟩ := List.mem_map.1 hpm
      rfl
  · rw [waits_eq hph (by simp), waits_eq hph' (by simp)]
    exact fun q hq => hq

/-! ## Commit -/

/-- The WRITEs on the stock of one line before its head is written. -/
def appendVerbs (cfg : Config) (cl : Client) (cart : NewOrderCart) (x : NewOrderItem × ℕ) :
    List Verb :=
  [(updateStockPointers (stockV cl x.2) x.1.OL_SUPPLY_W_ID
      (pushedLists cfg cl cart (.stockTS x.2)) false).verb,
    (updateStockOlderVersions (stockV cl x.2) x.1.OL_SUPPLY_W_ID false).verb]

def headVerb (cfg : Config) (c : ClientID) (cl : Client) (cts : UInt32) (x : NewOrderItem × ℕ) :
    Verb :=
  (updateStock (newStockV cfg c cts x.1 (stockV cl x.2)) x.1.OL_SUPPLY_W_ID true).verb

/-- The WRITEs on the district before its head is written. -/
def districtVerbs (cfg : Config) (cl : Client) (cart : NewOrderCart) : List Verb :=
  if cfg.APPLY_COMMUTATIVE_UPDATES then []
  else [(updateDistrictPointers (districtV cl) (pushedLists cfg cl cart .districtTS) false).verb,
    (updateDistrictOlderVersions (districtV cl) false).verb]

theorem appendPosts_verbs : (appendPosts cfg cl cart).map (·.verb) =
    districtVerbs cfg cl cart ++ cart.items.zipIdx.flatMap (appendVerbs cfg cl cart) := by
  rw [appendPosts, List.map_append, List.map_flatMap, districtVerbs]
  congr 1
  split <;> rfl

theorem stockPlan_eq (cts : UInt32) : stockPlan cfg c cl cart cts =
    cart.items.zipIdx.flatMap fun x => [headVerb cfg c cl cts x] := by
  rw [stockPlan, ← List.map_eq_flatMap]
  rfl

def savedList (cfg : Config) (cl : Client) (cart : NewOrderCart) : Key × ℕ → List Timestamp
  | (.district _ _, _) => pushedLists cfg cl cart .districtTS
  | (_, olNumber) => pushedLists cfg cl cart (.stockTS olNumber)

def newHead (cfg : Config) (c : ClientID) (cl : Client) (cart : NewOrderCart) (cts : UInt32) :
    (x : Key × ℕ) → Version (Row x.1.table)
  | (.district _ _, _) => newDistrictV cfg c cts (districtV cl)
  | (.stock _ _, olNumber) => installedHeads cfg c cl cart cts 0 .stock olNumber
  | x => cl.copy x.1 x.2

theorem appendVerbs_eq (hs : (lineKey x).Names (stockV cl x.2).body)
    (hbuffers : cl'.buffers = cl.localMemory .newOrder) :
    appendVerbs cfg cl cart x = cl'.saveVerbs (savedList cfg cl cart) (lineKey x, x.2) := by
  obtain ⟨hp, ho, -⟩ := updateStock_verbs _ hs (pushedLists cfg cl cart (.stockTS x.2)) false
  simp only [appendVerbs, hp, ho, Client.saveVerbs, Client.copy_of_buffers hbuffers]
  rfl

theorem headVerb_eq (hx : x ∈ cart.items.zipIdx) (hs : (lineKey x).Names (stockV cl x.2).body) :
    headVerb cfg c cl cts x =
      .writeHead (lineKey x) (newHead cfg c cl cart cts (lineKey x, x.2)) := by
  obtain ⟨-, -, hh⟩ := updateStock_verbs (newStockV cfg c cts x.1 (stockV cl x.2)) hs [] true
  rw [headVerb, hh]
  simp only [lineKey, newHead, installedHeads, List.mem_zipIdx_iff_getElem?.1 hx]

/-- The planned WRITEs: the lists and rings of all records come before the heads. -/
theorem commitPlan_eq (hd : cfg.APPLY_COMMUTATIVE_UPDATES = false →
      (Key.district cart.wID cart.dID).Names (districtV cl).body)
    (hs : ∀ x ∈ cart.items.zipIdx, (lineKey x).Names (stockV cl x.2).body)
    (hbuffers : cl.buffers = cl.localMemory .newOrder) :
    commitPlan cfg c cl cart cts =
      ((Phase.newOrder cart (.locks cts)).writeSet cfg).flatMap
        (cl.saveVerbs (savedList cfg cl cart)) ++
      ((Phase.newOrder cart (.locks cts)).writeSet cfg).flatMap
        fun x => [.writeHead x.1 (newHead cfg c cl cart cts x)] := by
  have happend : cart.items.zipIdx.flatMap (appendVerbs cfg cl cart) =
      (stockSlots cart).flatMap (cl.saveVerbs (savedList cfg cl cart)) := by
    rw [stockSlots, List.flatMap_map]
    exact List.flatMap_congr fun x hx => appendVerbs_eq (hs x hx) hbuffers
  have hheads : stockPlan cfg c cl cart cts = (stockSlots cart).flatMap
      fun x => [.writeHead x.1 (newHead cfg c cl cart cts x)] := by
    rw [stockPlan_eq, stockSlots, List.flatMap_map]
    exact List.flatMap_congr fun x hx => by rw [headVerb_eq hx (hs x hx)]; rfl
  rw [commitPlan, appendPosts_verbs, happend, hheads, Phase.writeSet, districtVerbs]
  by_cases hcomm : cfg.APPLY_COMMUTATIVE_UPDATES = true
  · simp [hcomm]
  · have hcomm' : cfg.APPLY_COMMUTATIVE_UPDATES = false := by simpa using hcomm
    obtain ⟨hp, ho, -⟩ := updateDistrict_verbs _ (hd hcomm')
      (pushedLists cfg cl cart .districtTS) false
    obtain ⟨-, -, hh⟩ := updateDistrict_verbs (newDistrictV cfg c cts (districtV cl)) (hd hcomm')
      [] true
    simp only [hcomm', Bool.false_eq_true, if_false, hp, ho, hh, List.flatMap_append,
      List.flatMap_cons, List.flatMap_nil, List.append_nil, List.append_assoc, Client.saveVerbs,
      Client.copy_of_buffers hbuffers]
    rfl

/-- The client that holds all its locks, as it enters the poll loop of the log or passes it. -/
def committing (c : ClientID) (cl : Client) (cart : NewOrderCart) (cts : UInt32) : Client :=
  { cl with
    localTimestampVector := Function.update cl.localTimestampVector c cts
    phase := .newOrder cart (.log cts) }

theorem commit_ok (h : Polled cfg s c cl) (hrec : RecordsOK cfg s)
    (hph : cl.phase = .newOrder cart (.locks cts))
    (hlocked : (districtLocked cfg cl &&
      cart.items.zipIdx.all fun x => stockLocked cl x.2) = true) :
    Polled cfg s c (committing c cl cart cts) := by
  rw [Bool.and_eq_true, List.all_eq_true] at hlocked
  have hbuffers : cl.buffers = cl.localMemory .newOrder := by rw [Client.buffers, hph]; rfl
  have hcopy := Client.copy_of_buffers hbuffers
  have hresult := Client.lockResult_of_buffers hbuffers
  have hwriteSet : cl.phase.writeSet cfg = (Phase.newOrder cart (.locks cts)).writeSet cfg := by
    rw [hph]
  refine h.commitAll (savedList cfg cl cart) (newHead cfg c cl cart cts) (by rw [hph]; rfl)
    (by rw [hph]; rfl) rfl rfl ?_ (by rw [hwriteSet]; exact nodup_writeSet _) ?_ (fun k _ => ?_)
    (fun x hx t ht hclient hcts => ?_)
  · rw [waits_eq hph (by simp), waits_eq rfl (by simp)]
    exact fun q hq => hq
  · intro x hx
    rw [hcopy, hresult]
    rcases List.mem_append.1 (hwriteSet ▸ hx) with hx | hx
    · split at hx
      · cases hx
      · rename_i hcomm
        obtain rfl := List.mem_singleton.1 hx
        have hdl := hlocked.1
        rw [districtLocked, Bool.or_eq_true, Timestamp.isEqual_iff] at hdl
        exact hdl.resolve_left hcomm
    · obtain ⟨y, hy, rfl⟩ := List.mem_map.1 hx
      exact Timestamp.isEqual_iff.1 (hlocked.2 y hy)
  · have hplan : (committing c cl cart cts).plan cfg c =
        tagged ⟨cl.t, .newOrder cart⟩ (commitPlan cfg c cl cart cts) := rfl
    rw [hplan, commitPlan_eq (district_names h hrec hph) (fun x hx => stock_names h hrec hph hx)
      hbuffers, hwriteSet]
  · have hcts : t.word.timestamp = cts := by rw [hcts, hph]; rfl
    rw [hcopy, ← hcts, ← hclient]
    rcases List.mem_append.1 (hwriteSet ▸ hx) with hx | hx
    · split at hx
      · cases hx
      · obtain rfl := List.mem_singleton.1 hx
        exact .nextOID ht _
    · obtain ⟨⟨item, n⟩, hy, rfl⟩ := List.mem_map.1 hx
      have hitem := List.mem_zipIdx_iff_getElem?.1 hy
      simp only [newHead, installedHeads, hitem]
      exact .stock ht (List.mem_of_getElem? hitem) _

/-! ## Install -/

def installLine (cfg : Config) (c : ClientID) (cl : Client) (cart : NewOrderCart)
    (cts assignedOID : UInt32) (x : NewOrderItem × ℕ) : List Post :=
  [updateStock (newStockV cfg c cts x.1 (stockV cl x.2)) x.1.OL_SUPPLY_W_ID true,
    insertIntoOrderLine cfg c (cl.nextOrderLineID + x.2) cart.wID
      (orderLineV c cl cart cts assignedOID x.1 x.2) (x.2 == cart.items.length - 1)]

theorem installPosts_eq (cts assignedOID : UInt32) : installPosts cfg c cl cart cts assignedOID =
    [insertIntoOrder cfg c cl.nextOrderID cart.wID (orderV c cart cts assignedOID) false,
      insertIntoNewOrder cfg c cl.nextNewOrderID cart.wID (newOrderV c cart cts assignedOID)
        false] ++
    cart.items.zipIdx.flatMap (installLine cfg c cl cart cts assignedOID) := rfl

theorem opsOn_installPosts (cts assignedOID : UInt32) (hk : k.versioned = true) :
    opsOn k (batch o (installPosts cfg c cl cart cts assignedOID)) =
      opsOn k (tagged o (stockPlan cfg c cl cart cts)) := by
  have hrows : opsOn k (tagged o ([insertIntoOrder cfg c cl.nextOrderID cart.wID
        (orderV c cart cts assignedOID) false, insertIntoNewOrder cfg c cl.nextNewOrderID cart.wID
        (newOrderV c cart cts assignedOID) false].map (·.verb))) = [] := by
    refine opsOn_tagged_of_passive hk fun v hv => ?_
    rcases List.mem_pair.1 hv with rfl | rfl
    · exact Verb.passive_writeHead rfl _
    · exact Verb.passive_writeHead rfl _
  rw [batch, installPosts_eq, stockPlan_eq, List.map_append, tagged_append, opsOn_append, hrows,
    List.nil_append, List.map_flatMap]
  refine opsOn_flatMap_congr fun x _ => ?_
  have hline : opsOn k (tagged o [(insertIntoOrderLine cfg c (cl.nextOrderLineID + x.2) cart.wID
      (orderLineV c cl cart cts assignedOID x.1 x.2) (x.2 == cart.items.length - 1)).verb]) =
      [] := by
    refine opsOn_tagged_of_passive hk fun v hv => ?_
    rw [List.mem_singleton.1 hv]
    exact Verb.passive_writeHead rfl _
  have hsplit : tagged o ((installLine cfg c cl cart cts assignedOID x).map (·.verb)) =
      tagged o [headVerb cfg c cl cts x] ++ tagged o [(insertIntoOrderLine cfg c
        (cl.nextOrderLineID + x.2) cart.wID (orderLineV c cl cart cts assignedOID x.1 x.2)
        (x.2 == cart.items.length - 1)).verb] := rfl
  rw [hsplit, opsOn_append, hline, List.append_nil]

theorem endedOn_installLine (h : q ≠ cfg.qpOf cart.wID ∨ x.2 = cart.items.length - 1) :
    EndedOn cfg q (installLine cfg c cl cart cts assignedOID x) := by
  rcases h with hq | hlast
  · refine endedOn_append_of_ne [_] (?_ : EndedOn cfg q [_]) fun p hp => ?_
    · exact endedOn_of_forall (by simp [updateStock])
    · rw [List.mem_singleton.1 hp]
      exact hq.symm
  · refine endedOn_of_forall fun p hp => ?_
    rcases List.mem_pair.1 hp with rfl | rfl
    · rfl
    · simp [insertIntoOrderLine, hlast]

theorem endedOn_installPosts (hq : q ∈ servers cfg cart) :
    EndedOn cfg q (installPosts cfg c cl cart cts assignedOID) ∧
      PostsOn cfg q (installPosts cfg c cl cart cts assignedOID) := by
  refine endedOn_lines _ _ (fun p hp => ?_) (fun _ => endedOn_installLine)
    (fun x => ⟨_, List.mem_cons_self, rfl⟩) (installPosts_eq cts assignedOID)
    (fun x => ⟨_, List.mem_cons_of_mem _ (List.mem_singleton_self _), rfl⟩) hq
  rcases List.mem_pair.1 hp with rfl | rfl <;> rfl

theorem mem_installPosts (h : p ∈ installPosts cfg c cl cart cts assignedOID) :
    p.verb.lands = false ∧ p.qp cfg ≠ .oracle := by
  rw [installPosts_eq, List.mem_append] at h
  rcases h with h | h
  · rcases List.mem_pair.1 h with rfl | rfl <;> exact ⟨rfl, QueuePair.noConfusion⟩
  · obtain ⟨x, -, hp⟩ := List.mem_flatMap.1 h
    rcases List.mem_pair.1 hp with rfl | rfl <;> exact ⟨rfl, QueuePair.noConfusion⟩

theorem mem_appendPosts (h : p ∈ appendPosts cfg cl cart) :
    p.verb.lands = false ∧ p.qp cfg ≠ .oracle := by
  rcases List.mem_append.1 h with h | h
  · split at h
    · cases h
    · rcases List.mem_pair.1 h with rfl | rfl <;> exact ⟨rfl, QueuePair.noConfusion⟩
  · obtain ⟨x, -, hp⟩ := List.mem_flatMap.1 h
    rcases List.mem_pair.1 hp with rfl | rfl <;> exact ⟨rfl, QueuePair.noConfusion⟩

theorem install_ok (h : Polled cfg s c cl) (pre : List Post) (base : Client)
    {pc : NewOrderPC} (hph : cl.phase = .newOrder cart pc)
    (hw : cl.phase.writeSet cfg = [])
    (hp : Posted cfg cl cl' (.newOrder cart)
      (pre ++ installPosts cfg c base cart cts assignedOID))
    (hph' : cl'.phase = .newOrder cart (.install cts assignedOID))
    (hepoch : cl'.nextEpoch = cl.nextEpoch)
    (hpre : ∀ p ∈ pre, p.verb.lands = false ∧ p.qp cfg ≠ .oracle)
    (hplan : ∀ k, k.versioned = true → opsOn k (batch ⟨cl.t, .newOrder cart⟩ pre) ++
      opsOn k (tagged ⟨cl.t, .newOrder cart⟩ (stockPlan cfg c base cart cts)) =
        opsOn k (cl.plan cfg c)) :
    ClientOK cfg (s.setClient c cl' o .resume) c cl' := by
  have hst : Standing cfg (s.setClient c cl' o .resume) c cl' := by
    refine h.standing hp (h.active (by simp [hph])) ?_ hw (by rw [hph']; rfl) (by rw [hph']; rfl)
      ?_ (by simp [hph'])
    · rw [hepoch, h.epoch, State.acquired_setClient_of_label (by simp)]
    · intro k hk
      have hinstall : opsOn k (batch ⟨cl.t, .newOrder cart⟩
          (installPosts cfg c base cart cts assignedOID)) =
          opsOn k (tagged ⟨cl.t, .newOrder cart⟩ (stockPlan cfg c base cart cts)) :=
        opsOn_installPosts cts assignedOID hk
      have hplan' : cl'.plan cfg c = [] := by simp [Client.plan, hph']
      rw [hplan', opsOn_nil, List.append_nil, ← hplan k hk, ← hinstall]
      simp only [batch, List.map_append, tagged_append, opsOn_append]
  refine h.post hp hst ?_ ?_ (by simp [hph', Phase.readSet])
  · intro q hq
    rw [waits_eq hph' (by simp)] at hq
    rcases List.mem_cons.1 hq with rfl | hq
    · refine ⟨endedOn_of_ne fun p hpm => ?_, .inr (by simp [Client.waits])⟩
      rcases List.mem_append.1 hpm with hpm | hpm
      · exact (hpre p hpm).2
      · exact (mem_installPosts hpm).2
    · obtain ⟨hend, p, hpm, hon⟩ := endedOn_installPosts (c := c) hq
      refine ⟨hend.append_right fun hnil => Fifo.lane_eq_nil_iff.1 hnil p hpm hon,
        .inl ⟨p, List.mem_append_right _ hpm, hon⟩⟩
  · intro p hpm hl
    rcases List.mem_append.1 hpm with hpm | hpm
    · simp [(hpre p hpm).1] at hl
    · simp [(mem_installPosts hpm).1] at hl

theorem posted_install {up : Client} {pre : List Post} (hout : up.outstanding = cl.outstanding ++
      pre.map fun p => ⟨⟨cl.t, .newOrder cart⟩, p.verb, p.signaled⟩)
    (ht : up.t = cl.t) (hcq : up.sendCQ = cl.sendCQ)
    (hcnt : up.outstandingSendCompletionCnt =
      cl.outstandingSendCompletionCnt + pre.countP (·.signaled)) :
    Posted cfg cl (installStep cfg c up cart cts assignedOID) (.newOrder cart)
      (pre ++ installPosts cfg c up cart cts assignedOID) where
  phase_trx := rfl
  t_eq := ht
  outstanding := by simp [installStep, Client.post, Client.setLocal, hout, ht]
  sendCQ := hcq
  pollCnt := by
    simp [installStep, Client.pollCnt, Client.post, Client.setLocal, Phase.isLog, hcnt,
      List.countP_eq_length_filter, Nat.add_assoc]
  quiet := fun hq => by cases hq

theorem installStep_phase : (installStep cfg c cl cart cts assignedOID).phase =
      .newOrder cart (.install cts assignedOID) := rfl

theorem installStep_nextEpoch :
    (installStep cfg c cl cart cts assignedOID).nextEpoch = cl.nextEpoch := rfl

/-- With commutative updates, the FAA follows the WRITEs of lists and rings. -/
theorem nextOID_ok (h : Polled cfg s c cl) (hph : cl.phase = .newOrder cart (.log cts))
    (hcomm : cfg.APPLY_COMMUTATIVE_UPDATES = true)
    (hcl' : cl' = ({ appended cfg cl cart with
      phase := .newOrder cart (.nextOID cts) } : Client).post (.newOrder cart)
        (appendPosts cfg cl cart ++
          [retrieveAndIncrementDistrictNextOID cart.wID cart.dID true])) :
    ClientOK cfg (s.setClient c cl' o .resume) c cl' := by
  have hp : Posted cfg cl cl' (.newOrder cart) (appendPosts cfg cl cart ++
      [retrieveAndIncrementDistrictNextOID cart.wID cart.dID true]) := by
    rw [hcl']
    exact posted_post rfl rfl rfl rfl rfl rfl
  have hph' : cl'.phase = .newOrder cart (.nextOID cts) := by rw [hcl']; rfl
  have hplan' : cl'.plan cfg c = tagged ⟨cl.t, .newOrder cart⟩ (stockPlan cfg c cl cart cts) := by
    have hstock : ∀ n, stockV cl' n = stockV cl n := by
      intro n
      simp [hcl', stockV, buffers, appended, Client.post, Client.setLocal]
    simp only [Client.plan, hph', hp.t_eq, stockPlan, hstock]
  have hst : Standing cfg (s.setClient c cl' o .resume) c cl' := by
    refine h.standing hp (h.active (by simp [hph])) ?_ (by rw [hph]; rfl) (by rw [hph']; rfl)
      (by rw [hph']; rfl) ?_ (by simp [hph'])
    · rw [State.acquired_setClient_of_label (by simp), ← h.epoch, hcl']
      rfl
    · intro k _
      have hplan : cl.plan cfg c =
          tagged ⟨cl.t, .newOrder cart⟩ (commitPlan cfg c cl cart cts) := by
        rw [Client.plan, hph]
      have hfaa : opsOn k (tagged ⟨cl.t, .newOrder cart⟩
          [(retrieveAndIncrementDistrictNextOID cart.wID cart.dID true).verb]) = [] := rfl
      rw [hplan', hplan, batch, List.map_append, tagged_append, opsOn_append, List.map_singleton,
        hfaa, List.append_nil, ← opsOn_append, ← tagged_append, commitPlan, hcomm, if_pos rfl,
        List.append_nil]
  refine h.post hp hst ?_ ?_ (by simp [hph', Phase.readSet])
  · intro q hq
    have hq' : q = .oracle ∨ q = cfg.qpOf cart.wID := by simpa [Client.waits, hph'] using hq
    rcases hq' with rfl | rfl
    · refine ⟨endedOn_of_ne fun p hpm => ?_, .inr (by simp [Client.waits])⟩
      rcases List.mem_append.1 hpm with hpm | hpm
      · exact (mem_appendPosts hpm).2
      · rw [List.mem_singleton.1 hpm]
        exact QueuePair.noConfusion
    · exact ⟨endedOn_concat _ rfl rfl,
        .inl ⟨_, List.mem_append_right _ (List.mem_singleton_self _), rfl⟩⟩
  · intro p hpm hl
    rcases List.mem_append.1 hpm with hpm | hpm
    · simp [(mem_appendPosts hpm).1] at hl
    · rw [List.mem_singleton.1 hpm]
      refine ⟨?_, by simp [retrieveAndIncrementDistrictNextOID, Client.awaits, hph',
        Phase.isNextOID]⟩
      simp [Client.waits, hph', Post.qp, retrieveAndIncrementDistrictNextOID, Verb.qp,
        Config.qpOf]

def districtUpdated (cfg : Config) (c : ClientID) (cl : Client) (cart : NewOrderCart)
    (cts : UInt32) : Client :=
  let posted := (appended cfg cl cart).post (.newOrder cart) (appendPosts cfg cl cart)
  let district := newDistrictV cfg c cts (districtV cl)
  (posted.setLocal .newOrder ((buffers posted).setHead .district 0 district)).post (.newOrder cart)
    [updateDistrict district true]

theorem districtUpdated_nextEpoch :
    (districtUpdated cfg c cl cart cts).nextEpoch = cl.nextEpoch := rfl

theorem stockV_districtUpdated (n : ℕ) :
    stockV (districtUpdated cfg c cl cart cts) n = stockV cl n := by
  simp [stockV, buffers, districtUpdated, appended, Client.post, Client.setLocal,
    LocalMemory.setHead]

theorem stockPlan_districtUpdated : stockPlan cfg c (districtUpdated cfg c cl cart cts) cart cts =
      stockPlan cfg c cl cart cts := by
  simp only [stockPlan, stockV_districtUpdated]

/-- Without commutative updates, the new rows follow the new head of the district at once. -/
theorem appendStep_of_not_comm (hcomm : cfg.APPLY_COMMUTATIVE_UPDATES = false) (cts : UInt32) :
    appendStep cfg c cl cart cts = (installStep cfg c (districtUpdated cfg c cl cart cts) cart cts
      (districtV cl).body.D_NEXT_O_ID.toUInt32, .resume) := by
  simp only [appendStep, districtUpdated, hcomm, Bool.false_eq_true, if_false]

/-- With commutative updates, the FAA follows the lists and rings. -/
theorem appendStep_of_comm (hcomm : cfg.APPLY_COMMUTATIVE_UPDATES = true) (cts : UInt32) :
    appendStep cfg c cl cart cts = (({ appended cfg cl cart with
      phase := .newOrder cart (.nextOID cts) } : Client).post (.newOrder cart)
        (appendPosts cfg cl cart ++
          [retrieveAndIncrementDistrictNextOID cart.wID cart.dID true]), .resume) := by
  simp only [appendStep, hcomm, if_true]
  rw [Client.post_setPhase, Client.post_post]

theorem posted_districtUpdated (cts assignedOID : UInt32) :
    Posted cfg cl (installStep cfg c (districtUpdated cfg c cl cart cts) cart cts assignedOID)
      (.newOrder cart) (appendPosts cfg cl cart ++
        [updateDistrict (newDistrictV cfg c cts (districtV cl)) true] ++ installPosts cfg c
          (districtUpdated cfg c cl cart cts) cart cts assignedOID) := by
  refine posted_install ?_ rfl rfl ?_
  · simp [districtUpdated, appended, Client.post, Client.setLocal]
  · simp [districtUpdated, appended, Client.post, Client.setLocal,
      List.countP_eq_length_filter, Nat.add_assoc]

theorem appendStep_label (cl : Client) (cts : UInt32) :
    (appendStep cfg c cl cart cts).2 = .resume := by
  simp only [appendStep]
  split <;> rfl

theorem appendStep_ok (h : Polled cfg s c cl) (hph : cl.phase = .newOrder cart (.log cts)) :
    ClientOK cfg (s.setClient c (appendStep cfg c cl cart cts).1 o
      (appendStep cfg c cl cart cts).2) c (appendStep cfg c cl cart cts).1 := by
  by_cases hcomm : cfg.APPLY_COMMUTATIVE_UPDATES = true
  · rw [appendStep_of_comm hcomm]
    exact nextOID_ok h hph hcomm rfl
  · have hcomm' : cfg.APPLY_COMMUTATIVE_UPDATES = false := by simpa using hcomm
    have hplan : cl.plan cfg c = tagged ⟨cl.t, .newOrder cart⟩ (commitPlan cfg c cl cart cts) := by
      rw [Client.plan, hph]
    rw [appendStep_of_not_comm hcomm']
    refine install_ok h _ _ hph (by rw [hph]; rfl) (posted_districtUpdated _ _) installStep_phase
      (installStep_nextEpoch.trans districtUpdated_nextEpoch) ?_ ?_
    · intro p hpm
      rcases List.mem_append.1 hpm with hpm | hpm
      · exact mem_appendPosts hpm
      · rw [List.mem_singleton.1 hpm]
        exact ⟨rfl, QueuePair.noConfusion⟩
    · intro k _
      rw [hplan, commitPlan, hcomm', if_neg (by simp), batch, List.map_append, ← opsOn_append,
        ← tagged_append, stockPlan_districtUpdated, List.map_singleton]

theorem afterNextOID_ok (h : Polled cfg s c cl) (hph : cl.phase = .newOrder cart (.nextOID cts)) :
    ClientOK cfg (s.setClient c (afterNextOID cfg c cl cart cts).1 o
      (afterNextOID cfg c cl cart cts).2) c (afterNextOID cfg c cl cart cts).1 := by
  refine install_ok h [] cl hph (by rw [hph]; rfl) ?_ rfl rfl (by simp) ?_
  · exact posted_install (by simp) rfl rfl (by simp)
  · intro k _
    have hplan : cl.plan cfg c = tagged ⟨cl.t, .newOrder cart⟩ (stockPlan cfg c cl cart cts) := by
      rw [Client.plan, hph]
    rw [hplan]
    rfl

theorem installStep_setPhase (ph : Phase) (cts assignedOID : UInt32) :
    installStep cfg c { cl with phase := ph } cart cts assignedOID =
      installStep cfg c cl cart cts assignedOID := by
  cases cl
  rfl

theorem appendStep_setPhase (ph : Phase) (cts : UInt32) :
    appendStep cfg c { cl with phase := ph } cart cts = appendStep cfg c cl cart cts := by
  unfold appendStep
  cases cfg.APPLY_COMMUTATIVE_UPDATES with
  | true => rfl
  | false =>
    simp only [Bool.false_eq_true, if_false, Prod.mk.injEq, and_true]
    conv_rhs => rw [← installStep_setPhase ph]
    exact congrArg (fun up => installStep cfg c up cart cts
      (districtV cl).body.D_NEXT_O_ID.toUInt32) rfl

theorem afterLocks_ok (h : Polled cfg s c cl) (hrec : RecordsOK cfg s)
    (hph : cl.phase = .newOrder cart (.locks cts)) :
    ClientOK cfg (s.setClient c (afterLocks cfg c cl cart cts).1 o
      (afterLocks cfg c cl cart cts).2) c (afterLocks cfg c cl cart cts).1 := by
  unfold afterLocks
  split
  · rename_i hlocked
    have hcommit := commit_ok h hrec hph hlocked
    simp only
    split
    · exact hcommit.log rfl rfl
    · -- without a log the commit goes on at once
      rw [← appendStep_setPhase (.newOrder cart (.log cts))]
      exact appendStep_ok hcommit rfl
  · exact giveUp_ok h hrec hph rfl

theorem afterInstall_ok (h : Polled cfg s c cl)
    (hph : cl.phase = .newOrder cart (.install cts assignedOID)) :
    ClientOK cfg (s.setClient c (afterInstall cfg cl cart assignedOID).1 o
      (afterInstall cfg cl cart assignedOID).2) c (afterInstall cfg cl cart assignedOID).1 := by
  refine h.request (posted_post rfl rfl rfl rfl rfl rfl) (by rw [hph]; rfl) rfl rfl rfl
    (fun _ _ => rfl) ?_ fun _ => ?_
  · rw [waits_eq hph (by simp), waits_eq rfl (by simp)]
    exact fun q hq => hq
  · rw [waits_eq rfl (by simp)]
    exact ⟨by simp [servers, Post.qp, registerOrder, Verb.qp, Config.qpOf],
      fun hreg => by cases hreg⟩

theorem afterRegister_ok (h : Polled cfg s c cl) (hph : cl.phase = .newOrder cart .register) :
    ClientOK cfg (s.setClient c (afterRegister c cl cart).1 o (afterRegister c cl cart).2) c
      (afterRegister c cl cart).1 := by
  refine h.request (posted_post rfl rfl rfl rfl rfl rfl) (by rw [hph]; rfl) rfl rfl rfl
    (fun _ _ => rfl) ?_ nofun
  rw [waits_eq hph (by simp), waits_eq rfl (by simp)]
  exact fun q hq => hq

/-- **NewOrder.** Every stretch of `doOne` keeps the invariant of the client. -/
theorem resume_ok (h : Polled cfg s c cl) (hrec : RecordsOK cfg s)
    {pc : NewOrderPC} (hph : cl.phase = .newOrder cart pc) (vec : ClientID → UInt32)
    (hwrap : NoWrap cfg (s.setClient c (resume cfg c cl cart vec pc).1 o
      (resume cfg c cl cart vec pc).2)) :
    ClientOK cfg (s.setClient c (resume cfg c cl cart vec pc).1 o
      (resume cfg c cl cart vec pc).2) c (resume cfg c cl cart vec pc).1 := by
  cases pc with
  | readSet => exact afterReadSet_ok h hph vec
  | snapshot => exact checkStep_ok h hph (.inr rfl)
  | olderVersions abortFlag => exact afterOlderVersions_ok h hrec hph hwrap
  | locks cts => exact afterLocks_ok h hrec hph
  | reverts =>
    exact h.finish (by simp [resume]) rfl rfl rfl rfl (.inl rfl) (by rw [hph]; rfl)
  | log cts => exact appendStep_ok h hph
  | nextOID cts => exact afterNextOID_ok h hph
  | install cts assignedOID => exact afterInstall_ok h hph
  | register => exact afterRegister_ok h hph
  | publish =>
    exact h.finish (by simp [resume, afterPublish]) rfl rfl rfl rfl (.inl rfl)
      (by rw [hph]; rfl)

end RdmaSnapshot.NewOrderTransaction
