import RdmaSnapshot.Landing

/-!
# Batches and snapshots

What the stretches of code of all transactions have in common: how a batch covers queue pairs, how
a snapshot is taken, and how a transaction starts.
-/

namespace RdmaSnapshot

open DBExecutor

variable {cfg : Config} {s : State} {c : ClientID} {cl cl' : Client} {k : Key} {o : Owner}
  {l : CpuLabel} {trx : Trx} {posts posts' : List Post} {q : QueuePair}

/-! ## Batches -/

theorem endedOn_of_forall (h : ∀ p ∈ posts, p.signaled = true) : EndedOn cfg q posts :=
  Fifo.ended_of_forall h

theorem endedOn_concat (posts : List Post) {p : Post} (hsig : p.signaled = true)
    (hq : p.qp cfg = q) :
    EndedOn cfg q (posts ++ [p]) := by
  refine Fifo.Ended.append_right ?_ (endedOn_of_forall (by simpa using hsig))
  simp [hq]

theorem endedOn_of_ne (hne : ∀ p ∈ posts, p.qp cfg ≠ q) : EndedOn cfg q posts :=
  Fifo.ended_of_lane_eq_nil (Fifo.lane_eq_nil_iff.2 hne)

theorem endedOn_append_of_ne (posts' : List Post) (h : EndedOn cfg q posts)
    (hne : ∀ p ∈ posts', p.qp cfg ≠ q) :
    EndedOn cfg q (posts ++ posts') :=
  h.append (endedOn_of_ne hne)

theorem waits_of_signaled (hsig : ∀ p ∈ posts, p.signaled = true)
    (hsub : ∀ q ∈ cl'.waits cfg, q ∈ cl.waits cfg) :
    ∀ q ∈ cl'.waits cfg, EndedOn cfg q posts ∧ (PostsOn cfg q posts ∨ q ∈ cl.waits cfg) :=
  fun q hq => ⟨endedOn_of_forall hsig, .inr (hsub q hq)⟩

/-- **A batch of passive verbs.** The invariant of a client that has nothing to do with any
versioned record but to read it. -/
theorem Polled.passive (h : Polled cfg s c cl) (hp : Posted cfg cl cl' trx posts)
    (hc : c.toNat < cfg.clientCnt) (hl : ∀ cts, l ≠ .acquire cts)
    (hepoch : cl'.nextEpoch = cl.nextEpoch) (hinert : cl.phase.isInert = true)
    (hinert' : cl'.phase.isInert = true) (hpassive : ∀ p ∈ posts, p.verb.Passive)
    (hchecked : ∀ cart, cl'.phase = .newOrder cart (.olderVersions false) →
      ∀ b < cart.items.length,
        cl'.isRecordAccessible c (cl'.buffers.head .stock b).writeTimestamp = true)
    (hwaits : ∀ q ∈ cl'.waits cfg,
      EndedOn cfg q posts ∧ (PostsOn cfg q posts ∨ q ∈ cl.waits cfg))
    (hlands : ∀ p ∈ posts, p.verb.lands = true →
      p.qp cfg ∈ cl'.waits cfg ∧ cl'.awaits cfg p.verb)
    (hreads : ∀ p ∈ cl'.phase.readSet, (∃ q ∈ posts, q.verb = .readHead p.1 p.2) ∨
      Seen s p.1 (cl'.copy p.1 p.2)) :
    ClientOK cfg (s.setClient c cl' o l) c cl' := by
  obtain ⟨hw, -, hplan⟩ : _ ∧ _ ∧ cl.plan cfg c = [] := Client.sets_of_isInert hinert
  obtain ⟨hw', hlocks, hplan'⟩ : _ ∧ _ ∧ cl'.plan cfg c = [] := Client.sets_of_isInert hinert'
  refine h.post hp (h.standing hp hc ?_ hw hw' hlocks ?_ hchecked) hwaits hlands hreads
  · rw [hepoch, h.epoch, State.acquired_setClient_of_label hl]
  · intro k hk
    rw [hplan, hplan', opsOn_nil, List.append_nil, batch]
    refine opsOn_tagged_of_passive hk fun v hv => ?_
    obtain ⟨p, hpmem, rfl⟩ := List.mem_map.1 hv
    exact hpassive p hpmem

/-- The last poll loops of a transaction, whether it commits or gives up. -/
def Phase.isTail : Phase → Bool
  | .newOrder _ .reverts | .payment _ .reverts | .delivery _ _ .reverts
  | .newOrder _ (.install _ _) | .newOrder _ .register | .newOrder _ .publish
  | .payment _ .install | .payment _ .publish
  | .delivery _ _ .install | .delivery _ _ .register | .delivery _ _ .publish => true
  | _ => false

theorem Phase.sets_of_isTail {ph : Phase} (h : ph.isTail = true) :
    ph ≠ .idle ∧ ph.isInert = true ∧ ph.readSet = [] ∧
      ∀ cart, ph ≠ .newOrder cart (.olderVersions false) := by
  cases ph with
  | idle => cases h
  | newOrder cart pc | payment cart pc | delivery cart dID pc =>
    cases pc <;> first | cases h; done | exact ⟨nofun, rfl, rfl, nofun⟩

theorem Polled.request {post : Post} (h : Polled cfg s c cl) (hp : Posted cfg cl cl' trx [post])
    (htail : cl.phase.isTail = true) (htail' : cl'.phase.isTail = true)
    (hepoch : cl'.nextEpoch = cl.nextEpoch) (hsig : post.signaled = true)
    (hpassive : post.verb.Passive) (hwaits : ∀ q ∈ cl'.waits cfg, q ∈ cl.waits cfg)
    (hlands : post.verb.lands = true → post.qp cfg ∈ cl'.waits cfg ∧ cl'.awaits cfg post.verb) :
    ClientOK cfg (s.setClient c cl' o .resume) c cl' := by
  obtain ⟨hne, hinert, -⟩ := Phase.sets_of_isTail htail
  obtain ⟨-, hinert', hread, hchecked⟩ := Phase.sets_of_isTail htail'
  refine h.passive hp (h.active hne) (by simp) hepoch hinert hinert' ?_
    (fun cart hcart => absurd hcart (hchecked cart)) (waits_of_signaled ?_ hwaits) ?_ ?_
  · exact fun p hmem => List.mem_singleton.1 hmem ▸ hpassive
  · exact fun p hmem => List.mem_singleton.1 hmem ▸ hsig
  · exact fun p hmem => List.mem_singleton.1 hmem ▸ hlands
  · simp [hread]

/-- **Locks.** The invariant of a client that posts its CASes, after `rows` on records that have no
versions. -/
theorem Polled.lockAll {rows locks : List Post} {cts : UInt32} (h : Polled cfg s c cl)
    (hrec : RecordsOK cfg s)
    (hp : Posted cfg cl cl' trx (rows ++ locks)) (hne : cl.phase ≠ .idle)
    (hcts : cts.toNat = s.nextCts cfg c) (hepoch : cl'.nextEpoch = cl.nextEpoch + 1)
    (hinert : cl.phase.isInert = true) (hlocks : cl'.phase.isLocks = true)
    (hlockCts : cl'.phase.lockCts = cts) (hnodup : ((cl'.phase.writeSet cfg).map Prod.fst).Nodup)
    (hrows : ∀ p ∈ rows, p.verb.Passive ∧ p.qp cfg ∈ cl'.waits cfg ∧ cl'.awaits cfg p.verb)
    (hverbs : locks.map (·.verb) = (cl'.phase.writeSet cfg).flatMap fun x => [cl'.lockVerb c cts x])
    (hserver : ∀ x ∈ cl'.phase.writeSet cfg, .server (cfg.serverOf x.1) ∈ cl.waits cfg ∧
      .server (cfg.serverOf x.1) ∈ cl'.waits cfg)
    (hseen : ∀ x ∈ cl'.phase.writeSet cfg, Seen s x.1 (cl'.copy x.1 x.2))
    (haccess : ∀ x ∈ cl'.phase.writeSet cfg,
      cl'.isRecordAccessible c (cl'.copy x.1 x.2).writeTimestamp = true)
    (hwaits : ∀ q ∈ cl'.waits cfg, EndedOn cfg q (rows ++ locks) ∧
      (PostsOn cfg q (rows ++ locks) ∨ q ∈ cl.waits cfg)) :
    ClientOK cfg (s.setClient c cl' o (.acquire cts)) c cl' := by
  obtain ⟨hw, -, hplan⟩ : _ ∧ _ ∧ cl.plan cfg c = [] := Client.sets_of_isInert hinert
  obtain ⟨hread, hplan', hchecked⟩ : _ ∧ cl'.plan cfg c = [] ∧ _ := Client.sets_of_isLocks hlocks
  refine h.post hp (h.lock hrec hp (h.active hne) hcts hepoch hw hplan hlockCts hplan' hnodup ?_
    (fun x hx => (hserver x hx).1) hseen haccess hchecked) hwaits ?_ (by simp [hread])
  · intro k hk
    have hnone : opsOn k (tagged ⟨cl.t, trx⟩ (rows.map (·.verb))) = [] :=
      opsOn_tagged_of_passive hk (List.forall_mem_map.2 fun p hpm => (hrows p hpm).1)
    rw [batch, List.map_append, tagged_append, opsOn_append, hnone, hverbs, List.nil_append]
  · intro p hpm _
    rcases List.mem_append.1 hpm with hpm | hpm
    · exact (hrows p hpm).2
    · obtain ⟨x, hx, hvx⟩ := List.mem_flatMap.1 (hverbs ▸ List.mem_map_of_mem hpm)
      rw [Post.qp, List.mem_singleton.1 hvx]
      exact ⟨(hserver x hx).2, hlocks, fun _ => hx⟩

/-- **Giving up.** The invariant of a client that gives its locks back, after `rows` on records that
have no versions. -/
theorem Polled.revert {rows reverts : List Post} (h : Polled cfg s c cl)
    (htrx : cl.phase.trx = some trx) (hlocks : cl.phase.isLocks = true)
    (hp : Posted cfg cl cl' trx (rows ++ reverts)) (htail : cl'.phase.isTail = true)
    (hepoch : cl'.nextEpoch = cl.nextEpoch)
    (hnodup : ((cl.phase.writeSet cfg).map Prod.fst).Nodup)
    (hrows : ∀ p ∈ rows, p.verb.Passive ∧ p.verb.lands = false)
    (hverbs : reverts.map (·.verb) = (cl.swapped cfg).flatMap fun x => [cl.revertVerb x])
    (hwaits : ∀ q ∈ cl'.waits cfg, EndedOn cfg q (rows ++ reverts) ∧
      (PostsOn cfg q (rows ++ reverts) ∨ q ∈ cl.waits cfg)) :
    ClientOK cfg (s.setClient c cl' o .resume) c cl' := by
  obtain ⟨-, hinert, hread, hchecked⟩ := Phase.sets_of_isTail htail
  obtain ⟨hw', hlocks', hplan'⟩ : _ ∧ _ ∧ cl'.plan cfg c = [] := Client.sets_of_isInert hinert
  obtain ⟨-, hplan, -⟩ : _ ∧ cl.plan cfg c = [] ∧ _ := Client.sets_of_isLocks hlocks
  refine h.post hp (h.giveUp htrx hp (by simp) hepoch hw' hlocks' hplan hplan' hnodup ?_ hchecked)
    hwaits ?_ (by simp [hread])
  · intro k hk
    have hnone : opsOn k (tagged ⟨cl.t, trx⟩ (rows.map (·.verb))) = [] :=
      opsOn_tagged_of_passive hk (List.forall_mem_map.2 fun p hpm => (hrows p hpm).1)
    rw [batch, List.map_append, tagged_append, opsOn_append, hnone, hverbs, List.nil_append]
  · intro p hpm hl
    rcases List.mem_append.1 hpm with hpm | hpm
    · simp [(hrows p hpm).2] at hl
    · obtain ⟨x, -, hvx⟩ := List.mem_flatMap.1 (hverbs ▸ List.mem_map_of_mem hpm)
      rw [List.mem_singleton.1 hvx] at hl
      cases hl

/-! ## Commits

The code takes the keys of the records it writes from its copies. -/

theorem updateWarehouse_verbs (x : Version Warehouse) {wID : UInt16}
    (h : (Key.warehouse wID).Names x.body) (list : List Timestamp) (b : Bool) :
    (updateWarehousePointers x list b).verb = .writePointerList (.warehouse wID) list ∧
      (updateWarehouseOlderVersions x b).verb =
        .writeOlderVersion (.warehouse wID) x.writeTimestamp.versionOffset.toNat x ∧
      (updateWarehouse x b).verb = .writeHead (.warehouse wID) x := by
  obtain rfl : x.body.W_ID = wID := h
  exact ⟨rfl, rfl, rfl⟩

theorem updateDistrict_verbs (x : Version District) {wID : UInt16} {dID : UInt8}
    (h : (Key.district wID dID).Names x.body) (list : List Timestamp) (b : Bool) :
    (updateDistrictPointers x list b).verb = .writePointerList (.district wID dID) list ∧
      (updateDistrictOlderVersions x b).verb =
        .writeOlderVersion (.district wID dID) x.writeTimestamp.versionOffset.toNat x ∧
      (updateDistrict x b).verb = .writeHead (.district wID dID) x := by
  obtain ⟨rfl, rfl⟩ := h
  exact ⟨rfl, rfl, rfl⟩

theorem updateCustomer_verbs (x : Version Customer) {wID : UInt16} {dID : UInt8} {cID : UInt32}
    (h : (Key.customer wID dID cID).Names x.body) (list : List Timestamp) (b : Bool) :
    (updateCustomerPointers x list b).verb = .writePointerList (.customer wID dID cID) list ∧
      (updateCustomerOlderVersions x b).verb =
        .writeOlderVersion (.customer wID dID cID) x.writeTimestamp.versionOffset.toNat x ∧
      (updateCustomer x b).verb = .writeHead (.customer wID dID cID) x := by
  obtain ⟨rfl, rfl, rfl⟩ := h
  exact ⟨rfl, rfl, rfl⟩

theorem updateStock_verbs (x : Version Stock) {wID : UInt16} {iID : UInt32}
    (h : (Key.stock wID iID).Names x.body) (list : List Timestamp) (b : Bool) :
    (updateStockPointers x wID list b).verb = .writePointerList (.stock wID iID) list ∧
      (updateStockOlderVersions x wID b).verb =
        .writeOlderVersion (.stock wID iID) x.writeTimestamp.versionOffset.toNat x ∧
      (updateStock x wID b).verb = .writeHead (.stock wID iID) x := by
  obtain ⟨-, rfl⟩ := h
  exact ⟨rfl, rfl, rfl⟩

/-! ## The log -/

theorem Phase.sets_of_isLog {ph : Phase} (h : ph.isLog = true) :
    ph.readSet = [] ∧ ph.writeSet cfg = [] ∧ ph.isLocks = false := by
  cases ph with
  | idle => cases h
  | newOrder cart pc => cases pc <;> first | exact ⟨rfl, rfl, rfl⟩ | cases h
  | payment cart pc => cases pc <;> first | exact ⟨rfl, rfl, rfl⟩ | cases h
  | delivery cart dID pc => cases pc <;> first | exact ⟨rfl, rfl, rfl⟩ | cases h

def Client.saveVerbs (cl : Client) (list : Key × ℕ → List Timestamp) (x : Key × ℕ) : List Verb :=
  [.writePointerList x.1 (list x),
    .writeOlderVersion x.1 (cl.copy x.1 x.2).writeTimestamp.versionOffset.toNat (cl.copy x.1 x.2)]

/-- **Commit.** All CASes swapped. On versioned records the client plans to save all copies and then
to write the heads it builds from them. -/
theorem Polled.commitAll {vec : ClientID → UInt32} {ph : Phase} (h : Polled cfg s c cl)
    (list : Key × ℕ → List Timestamp) (new : (x : Key × ℕ) → Version (Row x.1.table))
    (htrx : cl.phase.trx = some trx) (hlocks : cl.phase.isLocks = true) (hlog : ph.isLog = true)
    (hcl' : cl' = { cl with localTimestampVector := vec, phase := ph })
    (hwaits : ∀ q ∈ cl'.waits cfg, q ∈ cl.waits cfg)
    (hnodup : ((cl.phase.writeSet cfg).map Prod.fst).Nodup)
    (hall : ∀ x ∈ cl.phase.writeSet cfg,
      cl.lockResult x.1 x.2 = (cl.copy x.1 x.2).writeTimestamp)
    (hplan : ∀ k, k.versioned = true → opsOn k (cl'.plan cfg c) = opsOn k (tagged ⟨cl.t, trx⟩
      ((cl.phase.writeSet cfg).flatMap (cl.saveVerbs list) ++
        (cl.phase.writeSet cfg).flatMap fun x => [.writeHead x.1 (new x)])))
    (hbuilt : ∀ x ∈ cl.phase.writeSet cfg, ∀ t : Ticket, t.owner.trx = trx → t.client = c →
      t.word.timestamp = cl.phase.lockCts → Built cfg t x.1 (cl.copy x.1 x.2) (new x)) :
    Polled cfg s c cl' := by
  have hsave : ∀ x ∈ cl.phase.writeSet cfg, ∀ v ∈ cl.saveVerbs list x, ∀ k,
      v.mutates k = true ↔ x.1 = k := by
    intro x _ v hv k
    rcases List.mem_pair.1 hv with rfl | rfl <;> simp [Verb.mutates]
  have hhead : ∀ x ∈ cl.phase.writeSet cfg, ∀ v ∈ [Verb.writeHead x.1 (new x)], ∀ k,
      v.mutates k = true ↔ x.1 = k := by
    intro x _ v hv k
    simp [List.mem_singleton.1 hv, Verb.mutates]
  obtain ⟨-, hnone, -⟩ : _ ∧ cl.plan cfg c = [] ∧ _ := Client.sets_of_isLocks hlocks
  obtain ⟨hread', hw', hlocks'⟩ : _ ∧ ph.writeSet cfg = [] ∧ _ := Phase.sets_of_isLog hlog
  subst hcl'
  refine h.commit htrx rfl rfl rfl rfl hwaits hread' hw' hlocks' hnone hall ?_ ?_ ?_
  · intro x hx hcur
    rw [hplan _ (Phase.versioned_of_mem_writeSet hx), tagged_append, opsOn_append,
      opsOn_flatMap_of_mem hnodup hsave hx, opsOn_flatMap_of_mem hnodup hhead hx]
    exact .push (list x) hcur hcur (hbuilt x hx _ rfl rfl rfl)
  · intro k hk hmem
    have hne : ∀ x ∈ cl.phase.writeSet cfg, x.1 ≠ k :=
      fun x hx heq => hmem (heq ▸ List.mem_map_of_mem hx)
    rw [hplan k hk, tagged_append, opsOn_append,
      opsOn_flatMap_of_not_mem (fun x hx v hv k => (hsave x hx v hv k).1) hne,
      opsOn_flatMap_of_not_mem (fun x hx v hv k => (hhead x hx v hv k).1) hne]
    rfl
  · rintro cart rfl
    cases hlog

/-- **Log.** The invariant of a client that has posted its log records. -/
theorem Polled.log (h : Polled cfg s c cl) (hlog : cl.phase.isLog = true)
    (htrx : cl.phase.trx = some trx) :
    ClientOK cfg (s.setClient c (cl.postLog trx (logServers cfg c)) o .resume) c
      (cl.postLog trx (logServers cfg c)) := by
  obtain ⟨hreadSet, hw, hlocks⟩ : cl.phase.readSet = [] ∧ cl.phase.writeSet cfg = [] ∧
    cl.phase.isLocks = false := Phase.sets_of_isLog hlog
  have hc : c.toNat < cfg.clientCnt := by
    refine h.active fun hidle => ?_
    rw [hidle] at hlog
    cases hlog
  have hp : Posted cfg cl (cl.postLog trx (logServers cfg c)) trx
      ((logServers cfg c).map fun n => ⟨.writeLog n, true⟩) :=
    posted_postLog rfl rfl rfl rfl h.counted (by simp [logServers]) htrx hlog
  have hnone : ∀ k, opsOn k (batch ⟨cl.t, trx⟩
      ((logServers cfg c).map fun n => ⟨.writeLog n, true⟩)) = [] := by
    intro k
    refine opsOn_eq_nil fun p hpm => ?_
    obtain ⟨-, hv⟩ := mem_tagged.1 hpm
    simp only [List.map_map, List.mem_map] at hv
    obtain ⟨n, -, hv⟩ := hv
    rw [← hv]
    rfl
  refine h.post hp (h.standing hp hc ?_ hw hw hlocks ?_ ?_) ?_ ?_ ?_
  · rw [State.acquired_setClient_of_label (by simp)]
    exact h.epoch
  · intro k _
    rw [hnone k]
    rfl
  · intro cart hcart
    have hcart' : cl.phase = .newOrder cart (.olderVersions false) := hcart
    rw [hcart'] at hlog
    cases hlog
  · exact waits_of_signaled (by simp) fun q hq => hq
  · intro p hpm hl
    obtain ⟨n, -, rfl⟩ := List.mem_map.1 hpm
    cases hl
  · intro x hx
    have hx' : x ∈ cl.phase.readSet := hx
    simp [hreadSet] at hx'

/-! ## Snapshots -/

def snapshotPosts (cfg : Config) : List Post :=
  if cfg.SNAPSHOT_CLUSTER_MODE then [] else [⟨.readVector, true⟩]

def Client.copyVector (cfg : Config) (vec : ClientID → UInt32) (cl : Client) : Client :=
  { cl with
    localTimestampVector := if cfg.SNAPSHOT_CLUSTER_MODE then vec else cl.localTimestampVector }

theorem getReadTimestamp_eq (vec : ClientID → UInt32) : getReadTimestamp cfg vec cl trx true =
      (cl.copyVector cfg vec).post trx (snapshotPosts cfg) := by
  by_cases hmode : cfg.SNAPSHOT_CLUSTER_MODE = true
  · simp [getReadTimestamp, snapshotPosts, Client.copyVector, Client.post, hmode]
  · simp [getReadTimestamp, snapshotPosts, Client.copyVector, hmode]

theorem mem_snapshotPosts {p : Post} (h : p ∈ snapshotPosts cfg) : p = ⟨.readVector, true⟩ := by
  unfold snapshotPosts at h
  split at h
  · cases h
  · exact List.mem_singleton.1 h

/-- The READ of the vector at the start of a transaction. -/
def startPosts (cfg : Config) : List Post :=
  if cfg.SNAPSHOT_ACQUISITION_TYPE = .COMPLETE then snapshotPosts cfg else []

def Client.startBase (cfg : Config) (vec : ClientID → UInt32) (p : Phase) (cl : Client) : Client :=
  if cfg.SNAPSHOT_ACQUISITION_TYPE = .COMPLETE then
    ({ cl with phase := p } : Client).copyVector cfg vec
  else { cl with phase := p }

theorem start_eq (cl : Client) (vec : ClientID → UInt32) (p : Phase) :
    ((if cfg.SNAPSHOT_ACQUISITION_TYPE = .COMPLETE then
        getReadTimestamp cfg vec { cl with phase := p } trx true
      else { cl with phase := p }).post trx posts) =
      (cl.startBase cfg vec p).post trx (startPosts cfg ++ posts) := by
  by_cases hmode : cfg.SNAPSHOT_ACQUISITION_TYPE = .COMPLETE
  · simp [hmode, Client.startBase, startPosts, getReadTimestamp_eq]
  · simp [hmode, Client.startBase, startPosts]

theorem mem_startPosts {p : Post} (h : p ∈ startPosts cfg) : p = ⟨.readVector, true⟩ := by
  unfold startPosts at h
  split at h
  · exact mem_snapshotPosts h
  · cases h

theorem Client.startBase_eq (vec : ClientID → UInt32) (p : Phase) :
    ∃ vec', cl.startBase cfg vec p = { cl with phase := p, localTimestampVector := vec' } := by
  unfold startBase
  split
  · exact ⟨_, rfl⟩
  · exact ⟨_, rfl⟩

theorem exists_start_eq (cl : Client) (vec : ClientID → UInt32) (p : Phase) :
    ∃ vec', ((if cfg.SNAPSHOT_ACQUISITION_TYPE = .COMPLETE then
        getReadTimestamp cfg vec { cl with phase := p } trx true
      else { cl with phase := p }).post trx posts) =
      ({ cl with phase := p, localTimestampVector := vec' } : Client).post trx
        (startPosts cfg ++ posts) := by
  obtain ⟨vec', hbase⟩ : ∃ vec', cl.startBase cfg vec p =
      { cl with phase := p, localTimestampVector := vec' } := Client.startBase_eq vec p
  exact ⟨vec', by rw [start_eq, hbase]⟩

/-- **Start.** The invariant of a client that starts a transaction with READs. -/
theorem Polled.start (h : Polled cfg s c cl) (hc : c.toNat < cfg.clientCnt)
    (hl : ∀ cts, l ≠ .acquire cts) (hinert : cl.phase.isInert = true) (vec : ClientID → UInt32)
    {p : Phase} (htrx : p.trx = some trx) (hquiet : p.isQuiet = false)
    (hinert' : p.isInert = true) (hvector : p.readsVector = true)
    (hchecked : ∀ cart, p ≠ .newOrder cart (.olderVersions false))
    (hposts : ∀ q ∈ posts, q.verb.Passive ∧ q.qp cfg ≠ .oracle)
    (hwaits : ∀ cl' : Client, cl'.phase = p → ∀ q ∈ cl'.waits cfg, q ≠ .oracle →
      EndedOn cfg q posts ∧ PostsOn cfg q posts)
    (hlands : ∀ cl' : Client, cl'.phase = p → ∀ q ∈ posts, q.verb.lands = true →
      q.qp cfg ∈ cl'.waits cfg ∧ cl'.awaits cfg q.verb)
    (hreads : ∀ x ∈ p.readSet, ∃ q ∈ posts, q.verb = .readHead x.1 x.2) :
    ClientOK cfg
      (s.setClient c ((cl.startBase cfg vec p).post trx (startPosts cfg ++ posts)) o l) c
      ((cl.startBase cfg vec p).post trx (startPosts cfg ++ posts)) := by
  obtain ⟨vec', hbase⟩ : ∃ vec', cl.startBase cfg vec p =
      { cl with phase := p, localTimestampVector := vec' } := Client.startBase_eq vec p
  rw [hbase]
  refine h.passive (posted_post rfl rfl rfl rfl htrx hquiet) hc hl rfl hinert hinert' ?_ ?_ ?_ ?_ ?_
  · intro q hq
    rcases List.mem_append.1 hq with hq | hq
    · rw [mem_startPosts hq]
      exact fun k _ => rfl
    · exact (hposts q hq).1
  · exact fun cart hcart => absurd hcart (hchecked cart)
  · intro q hq
    have hstart : EndedOn cfg q (startPosts cfg) :=
      endedOn_of_forall fun p hp => by rw [mem_startPosts hp]
    by_cases horacle : q = .oracle
    · subst horacle
      exact ⟨endedOn_append_of_ne _ hstart fun p hp => (hposts p hp).2,
        .inr (by simp [Client.waits])⟩
    · obtain ⟨hend, p', hp', hon⟩ := hwaits _ rfl q hq horacle
      exact ⟨hstart.append hend, .inl ⟨p', List.mem_append_right _ hp', hon⟩⟩
  · intro q hq hlq
    rcases List.mem_append.1 hq with hq | hq
    · rw [mem_startPosts hq]
      exact ⟨by simp [Client.waits, Post.qp, Verb.qp], hvector⟩
    · exact hlands _ rfl q hq hlq
  · intro x hx
    obtain ⟨q, hq, hverb⟩ := hreads x hx
    exact .inl ⟨q, List.mem_append_right _ hq, hverb⟩

theorem mem_getPartialSnapshot {ids : List ClientID} {b : Bool} {p : Post}
    (h : p ∈ getPartialSnapshot ids b) : ∃ id, p.verb = .readVectorEntry id := by
  induction ids with
  | nil => cases h
  | cons id ids ih =>
    cases ids with
    | nil => exact ⟨id, by rw [List.mem_singleton.1 h]⟩
    | cons id' ids =>
      rcases List.mem_cons.1 h with rfl | h
      · exact ⟨id, rfl⟩
      · exact ih h

theorem endedOn_getPartialSnapshot (ids : List ClientID) :
    EndedOn cfg q (getPartialSnapshot ids true) := by
  by_cases hq : q = .oracle
  · subst hq
    induction ids with
    | nil => exact endedOn_of_forall (by simp [getPartialSnapshot])
    | cons id ids ih =>
      cases ids with
      | nil => exact endedOn_of_forall (by simp [getPartialSnapshot])
      | cons id' ids =>
        refine Fifo.Ended.append_right (l := [_]) (fun hnil => ?_) ih
        obtain ⟨p, hp⟩ : ∃ p, p ∈ getPartialSnapshot (id' :: ids) true := by
          cases ids <;> exact ⟨_, List.mem_cons_self⟩
        obtain ⟨id'', hv⟩ := mem_getPartialSnapshot hp
        exact Fifo.lane_eq_nil_iff.1 hnil p hp (by rw [Post.qp, hv]; rfl)
  · refine endedOn_of_ne fun p hp => ?_
    obtain ⟨id, hv⟩ := mem_getPartialSnapshot hp
    rw [Post.qp, hv]
    exact Ne.symm hq

/-- The snapshot of the mode `ONLY_READ_SET` is taken by READs of the oracle's vector. -/
theorem acquireSnapshot_eq (cfg : Config) (vec : ClientID → UInt32) (cl : Client) (p : Phase)
    (trx : Trx) (ids : List ClientID) :
    ∃ vec' posts, acquireSnapshot cfg vec { cl with phase := p } trx ids =
        ({ cl with phase := p, localTimestampVector := vec' } : Client).post trx posts ∧
      (∀ q, EndedOn cfg q posts) ∧
      ∀ p ∈ posts, p.verb = .readVector ∨ ∃ id, p.verb = .readVectorEntry id := by
  unfold acquireSnapshot
  simp only
  split
  · refine ⟨_, snapshotPosts cfg, getReadTimestamp_eq vec, fun q => ?_, fun p hp => .inl ?_⟩
    · exact endedOn_of_forall fun p hp => by rw [mem_snapshotPosts hp]
    · rw [mem_snapshotPosts hp]
  · exact ⟨cl.localTimestampVector, _, rfl, fun q => endedOn_getPartialSnapshot _,
      fun p hp => .inr (mem_getPartialSnapshot hp)⟩

theorem getReadTimestamp_phase (cfg : Config) (cl : Client) (vec : ClientID → UInt32)
    (trx : Trx) (b : Bool) : (getReadTimestamp cfg vec cl trx b).phase = cl.phase := by
  unfold getReadTimestamp
  split <;> rfl

theorem acquireSnapshot_phase (cfg : Config) (cl : Client) (vec : ClientID → UInt32)
    (trx : Trx) (ids : List ClientID) :
    (acquireSnapshot cfg vec cl trx ids).phase = cl.phase := by
  simp only [acquireSnapshot]
  split
  · exact getReadTimestamp_phase ..
  · rfl

/-- **Snapshot.** The invariant of a client that takes its snapshot after its READs. -/
theorem Polled.snapshot (h : Polled cfg s c cl) (hc : c.toNat < cfg.clientCnt)
    (hinert : cl.phase.isInert = true) (vec : ClientID → UInt32) (ids : List ClientID) {p : Phase}
    (htrx : p.trx = some trx) (hquiet : p.isQuiet = false) (hinert' : p.isInert = true)
    (hvector : p.readsVector = true)
    (hchecked : ∀ cart, p ≠ .newOrder cart (.olderVersions false))
    (hwaits : ∀ cl' : Client, cl'.phase = p → ∀ q ∈ cl'.waits cfg, q ∈ cl.waits cfg)
    (hreadSet : p.readSet = cl.phase.readSet) (hcls : p.cls = cl.phase.cls) :
    ClientOK cfg
      (s.setClient c (acquireSnapshot cfg vec { cl with phase := p } trx ids) o .resume) c
      (acquireSnapshot cfg vec { cl with phase := p } trx ids) := by
  obtain ⟨vec', posts, heq, hended, hposts⟩ := acquireSnapshot_eq cfg vec cl p trx ids
  rw [heq]
  refine h.passive (posted_post rfl rfl rfl rfl htrx hquiet) hc (by simp) rfl hinert hinert' ?_ ?_
    ?_ ?_ ?_
  · intro q hq k _
    rcases hposts q hq with hv | ⟨id, hv⟩ <;> rw [hv] <;> rfl
  · exact fun cart hcart => absurd hcart (hchecked cart)
  · exact fun q hq => ⟨hended q, .inr (hwaits _ rfl q hq)⟩
  · intro q hq _
    rcases hposts q hq with hv | ⟨id, hv⟩ <;> rw [Post.qp, hv] <;>
      exact ⟨by simp [Client.waits, Verb.qp], hvector⟩
  · intro x hx
    right
    have hseen := h.reads x (hreadSet ▸ hx)
    simp only [Client.copy, Client.buffers, Client.post] at hseen ⊢
    rw [hcls]
    exact hseen

theorem mem_fetchOlderVersion {ts : Timestamp} {tsList : List Timestamp}
    {retrieve : ℕ → Timestamp → Post} {p : Post}
    (h : fetchOlderVersion c cl ts tsList retrieve = some posts) (hp : p ∈ posts) :
    ∃ ind ts', p = retrieve ind ts' := by
  unfold fetchOlderVersion at h
  split at h
  · cases h
    cases hp
  · obtain ⟨ind, -, rfl⟩ := Option.map_eq_some_iff.1 h
    exact ⟨ind, _, List.mem_singleton.1 hp⟩

theorem retrieveOlderVersion_cases (cfg : Config) (k : Key) (ind : ℕ) (ts : Timestamp) :
    (∃ slot, retrieveOlderVersion cfg k ind ts true = ⟨.readOlderVersion k slot, true⟩) ∨
      retrieveOlderVersion cfg k ind ts true = ⟨.readVersion k ts, true⟩ := by
  unfold retrieveOlderVersion
  split
  · exact .inr rfl
  · exact .inl ⟨ind, rfl⟩

theorem Polled.setRound (h : Polled cfg s c cl)
    (hph : cl.phase = .idle ∨ ∃ cart dID, cl.phase = .delivery cart dID .begin) (n : ℕ) :
    Polled cfg s c { cl with t := n } := by
  have hw : cl.phase.writeSet cfg = [] := by
    rcases hph with hph | ⟨cart, dID, hph⟩ <;> simp [hph, Phase.writeSet]
  have hplan : ∀ m, ({ cl with t := m } : Client).plan cfg c = [] := by
    intro m
    rcases hph with hph | ⟨cart, dID, hph⟩ <;> simp [hph, Client.plan]
  have hwaits : ∀ q ∈ ({ cl with t := n } : Client).waits cfg, q ∈ cl.waits cfg := by
    intro q hq
    rcases hph with hph | ⟨cart, dID, hph⟩ <;> simpa [hph, Client.waits] using hq
  exact {
    active := h.active
    epoch := h.epoch
    genuine := by simp [hw]
    lockCts := h.lockCts
    locking := by simp [hw]
    conforms := by
      intro k hk hnot
      have hconf := h.conforms k hk hnot
      have hplan' : cl.plan cfg c = [] := hplan cl.t
      rw [hplan'] at hconf
      rw [hplan n]
      exact hconf
    checked := h.checked
    sendCQ := h.sendCQ
    counted := h.counted
    unsignaled := h.unsignaled
    lanes := fun q hq => h.lanes q (hwaits q hq)
    landed := h.landed
    reads := h.reads }

theorem ClientOK.polled_of_idle (h : ClientOK cfg s c cl) (hidle : cl.phase = .idle) :
    Polled cfg s c cl :=
  h.polled_of_quiet (by rw [hidle]; rfl) (by rw [hidle]; rfl)

end RdmaSnapshot
