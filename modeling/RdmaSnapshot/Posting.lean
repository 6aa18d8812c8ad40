import RdmaSnapshot.Clients

/-!
# What a client posts between two poll loops

A stretch of code takes a client whose poll loop is over, computes on its buffers and posts a batch
of work requests. This module reduces the invariant of the client it leaves behind to statements
about the batch: which queue pairs it ends with a signaled request, what it reads, and how it
carries on with the records the client holds.
-/

namespace RdmaSnapshot

variable {cfg : Config} {s : State} {c : ClientID} {cl cl' base : Client} {k : Key} {o : Owner}
  {l : CpuLabel} {trx : Trx} {posts posts' : List Post}

/-! ## Batches -/

def Post.qp (cfg : Config) (p : Post) : QueuePair := p.verb.qp cfg

abbrev EndedOn (cfg : Config) (q : QueuePair) (posts : List Post) : Prop :=
  Fifo.Ended Post.signaled (Post.qp cfg) q posts

def PostsOn (cfg : Config) (q : QueuePair) (posts : List Post) : Prop :=
  ∃ p ∈ posts, p.qp cfg = q

def Verb.Passive (v : Verb) : Prop := ∀ k : Key, k.versioned = true → v.mutates k = false

theorem Verb.passive_of_mutates {v : Verb} {k' : Key} (hk' : k'.versioned = false)
    (h : ∀ k, v.mutates k = true → k = k') : v.Passive := by
  intro k hk
  by_contra hm
  obtain rfl := h k (by simpa using hm)
  simp [hk] at hk'

theorem Verb.passive_writeHead (hk : k.versioned = false) (v : Version (Row k.table)) :
    (Verb.writeHead k v).Passive :=
  passive_of_mutates hk fun _ hm => (of_decide_eq_true hm).symm

theorem Verb.passive_compareAndSwap (hk : k.versioned = false) (oldTS newTS : Timestamp) (b : ℕ) :
    (Verb.compareAndSwap k oldTS newTS b).Passive :=
  passive_of_mutates hk fun _ hm => (of_decide_eq_true hm).symm

theorem Verb.passive_writeTimestamp (hk : k.versioned = false) (ts : Timestamp) :
    (Verb.writeTimestamp k ts).Passive :=
  passive_of_mutates hk fun _ hm => (of_decide_eq_true hm).symm

@[simp] theorem opsOn_nil : opsOn k [] = [] := rfl

@[simp] theorem opsOn_append (ops ops' : List (Owner × Verb)) :
    opsOn k (ops ++ ops') = opsOn k ops ++ opsOn k ops' := List.filter_append ..

theorem opsOn_eq_nil {ops : List (Owner × Verb)} (h : ∀ p ∈ ops, p.2.mutates k = false) :
    opsOn k ops = [] :=
  List.filter_eq_nil_iff.2 fun p hp => by simp [h p hp]

@[simp] theorem tagged_nil : tagged o [] = [] := rfl

@[simp] theorem tagged_append (vs vs' : List Verb) :
    tagged o (vs ++ vs') = tagged o vs ++ tagged o vs' := List.map_append ..

theorem mem_tagged {p : Owner × Verb} {vs : List Verb} :
    p ∈ tagged o vs ↔ p.1 = o ∧ p.2 ∈ vs := by
  obtain ⟨o', v⟩ := p
  simp only [tagged, List.mem_map, Prod.mk.injEq]
  constructor
  · rintro ⟨v', hv', rfl, rfl⟩
    exact ⟨rfl, hv'⟩
  · rintro ⟨rfl, hv⟩
    exact ⟨v, hv, rfl, rfl⟩

theorem opsOn_tagged_of_passive {vs : List Verb} (hk : k.versioned = true)
    (h : ∀ v ∈ vs, v.Passive) : opsOn k (tagged o vs) = [] :=
  opsOn_eq_nil fun p hp => h p.2 (mem_tagged.1 hp).2 k hk

theorem opsOn_tagged_self {vs : List Verb} (h : ∀ v ∈ vs, v.mutates k = true) :
    opsOn k (tagged o vs) = tagged o vs :=
  List.filter_eq_self.2 fun p hp => h p.2 (mem_tagged.1 hp).2

theorem opsOn_tagged_of_ne {vs : List Verb} {k' : Key} (hne : k' ≠ k)
    (h : ∀ v ∈ vs, ∀ k, v.mutates k = true → k' = k) : opsOn k (tagged o vs) = [] := by
  refine opsOn_eq_nil fun p hp => ?_
  by_contra hm
  exact hne (h p.2 (mem_tagged.1 hp).2 k (by simpa using hm))

def batch (o : Owner) (posts : List Post) : List (Owner × Verb) := tagged o (posts.map (·.verb))

/-! ## Posting -/

/-- Client `cl'` is `cl` after it has posted a batch for transaction `trx`. -/
structure Posted (cfg : Config) (cl cl' : Client) (trx : Trx) (posts : List Post) : Prop where
  phase_trx : cl'.phase.trx = some trx
  t_eq : cl'.t = cl.t
  outstanding : cl'.outstanding =
    cl.outstanding ++ posts.map fun p => ⟨⟨cl.t, trx⟩, p.verb, p.signaled⟩
  sendCQ : cl'.sendCQ = cl.sendCQ
  pollCnt : cl'.pollCnt cfg = cl.outstandingSendCompletionCnt + posts.countP (·.signaled)
  quiet : cl'.phase.isQuiet = true →
    cl'.outstandingSendCompletionCnt = cl.outstandingSendCompletionCnt

@[simp] theorem Client.post_post :
    (cl.post trx posts).post trx posts' = cl.post trx (posts ++ posts') := by
  simp [Client.post, Nat.add_assoc]

theorem Client.post_setPhase (ph : Phase) :
    { cl.post trx posts with phase := ph } = ({ cl with phase := ph } : Client).post trx posts :=
  rfl

theorem posted_post (hout : base.outstanding = cl.outstanding) (ht : base.t = cl.t)
    (hcq : base.sendCQ = cl.sendCQ)
    (hcnt : base.outstandingSendCompletionCnt = cl.outstandingSendCompletionCnt)
    (htrx : base.phase.trx = some trx) (hquiet : base.phase.isQuiet = false) :
    Posted cfg cl (base.post trx posts) trx posts where
  phase_trx := htrx
  t_eq := ht
  outstanding := by simp [Client.post, hout, ht]
  sendCQ := hcq
  pollCnt := by
    have hlog : base.phase.isLog = false := by
      unfold Phase.isQuiet at hquiet
      split at hquiet <;> first | exact hquiet | cases hquiet
    simp [Client.pollCnt, Client.post, hlog, hcnt, List.countP_eq_length_filter]
  quiet := by
    intro hq
    simp only [Client.post] at hq
    simp [hquiet] at hq

theorem posted_postLog {servers : List ℕ} (hout : base.outstanding = cl.outstanding)
    (ht : base.t = cl.t) (hcq : base.sendCQ = cl.sendCQ)
    (hcnt : base.outstandingSendCompletionCnt = cl.outstandingSendCompletionCnt)
    (hzero : cl.outstandingSendCompletionCnt = 0)
    (hlen : servers.length = cfg.LOG_REPLICATION_DEGREE)
    (htrx : base.phase.trx = some trx) (hlog : base.phase.isLog = true) :
    Posted cfg cl (base.postLog trx servers) trx (servers.map fun n => ⟨.writeLog n, true⟩) where
  phase_trx := htrx
  t_eq := ht
  outstanding := by simp [Client.postLog, hout, ht]
  sendCQ := hcq
  pollCnt := by
    simp [Client.pollCnt, Client.postLog, hlog, hzero, List.countP_map, hlen,
      Function.comp_def]
  quiet := fun _ => hcnt

theorem Posted.ops (hp : Posted cfg cl cl' trx posts) :
    cl'.ops k = cl.ops k ++ opsOn k (batch ⟨cl.t, trx⟩ posts) := by
  simp [Client.ops, batch, tagged, hp.outstanding, Function.comp_def]

theorem Polled.standing (h : Polled cfg s c cl) (hp : Posted cfg cl cl' trx posts)
    (hc : c.toNat < cfg.clientCnt)
    (hepoch : cl'.nextEpoch = UInt32.ofNat ((s.setClient c cl' o l).acquired c + 1))
    (hw : cl.phase.writeSet cfg = []) (hw' : cl'.phase.writeSet cfg = [])
    (hlocks : cl'.phase.isLocks = false)
    (hplan : ∀ k, k.versioned = true →
      opsOn k (batch ⟨cl.t, trx⟩ posts) ++ opsOn k (cl'.plan cfg c) = opsOn k (cl.plan cfg c))
    (hchecked : ∀ cart, cl'.phase = .newOrder cart (.olderVersions false) →
      ∀ b < cart.items.length,
        cl'.isRecordAccessible c (cl'.buffers.head .stock b).writeTimestamp = true) :
    Standing cfg (s.setClient c cl' o l) c cl' where
  active := fun _ => hc
  epoch := hepoch
  genuine := by simp [hw']
  lockCts := by simp [hlocks]
  locking := by simp [hw']
  conforms := by
    intro k hk _
    have hconf := h.conforms k hk (by simp [hw])
    rw [hp.ops, List.append_assoc, hplan k hk]
    exact hconf
  checked := hchecked

/-- **A batch.** The invariant of a client after it has posted a batch. -/
theorem Polled.post (h : Polled cfg s c cl) (hp : Posted cfg cl cl' trx posts)
    (hst : Standing cfg (s.setClient c cl' o l) c cl')
    (hwaits : ∀ q ∈ cl'.waits cfg,
      EndedOn cfg q posts ∧ (PostsOn cfg q posts ∨ q ∈ cl.waits cfg))
    (hlands : ∀ p ∈ posts, p.verb.lands = true →
      p.qp cfg ∈ cl'.waits cfg ∧ cl'.awaits cfg p.verb)
    (hreads : ∀ p ∈ cl'.phase.readSet, (∃ q ∈ posts, q.verb = .readHead p.1 p.2) ∨
      Seen s p.1 (cl'.copy p.1 p.2)) :
    ClientOK cfg (s.setClient c cl' o l) c cl' where
  toStanding := hst
  count := by
    rw [hp.sendCQ, h.sendCQ, hp.pollCnt, h.counted, hp.outstanding, List.countP_append,
      h.unsignaled, List.countP_map, Nat.zero_add]
    rfl
  quiet := fun hq => (hp.quiet hq).trans h.counted
  ended := by
    intro q hq
    obtain ⟨hend, hon⟩ := hwaits q hq
    rw [hp.outstanding]
    have hnew : Fifo.Ended (·.signaled) (WorkRequest.qp cfg) q
        (posts.map fun p => (⟨⟨cl.t, trx⟩, p.verb, p.signaled⟩ : WorkRequest)) :=
      Fifo.ended_map hend
    rcases hon with ⟨p, hpmem, hq'⟩ | hold
    · refine hnew.append_right fun hnil => ?_
      exact Fifo.lane_eq_nil_iff.1 hnil _ (List.mem_map_of_mem hpmem) hq'
    · exact (Fifo.ended_of_lane_eq_nil (h.lanes q hold)).append hnew
  lands := by
    intro wr hwr hlw
    rw [hp.outstanding, List.mem_append] at hwr
    rcases hwr with hwr | hwr
    · simp [h.landed wr hwr] at hlw
    · obtain ⟨p, hpmem, rfl⟩ := List.mem_map.1 hwr
      refine ⟨⟨trx, hp.phase_trx, by rw [hp.t_eq]⟩, hlands p hpmem hlw⟩
  reads := by
    intro p hpr
    rcases hreads p hpr with ⟨q, hq, hverb⟩ | hseen
    · left
      refine ⟨⟨⟨cl.t, trx⟩, q.verb, q.signaled⟩, ?_, hverb⟩
      rw [hp.outstanding, List.mem_append]
      exact .inr (List.mem_map.2 ⟨q, hq, rfl⟩)
    · exact .inr hseen

/-- The invariant of a client that ends a transaction: it posts nothing and waits for nothing. -/
theorem Polled.finish (h : Polled cfg s c cl) (hl : ∀ cts, l ≠ .acquire cts)
    (hout : cl'.outstanding = cl.outstanding) (hcq : cl'.sendCQ = cl.sendCQ)
    (hcnt : cl'.outstandingSendCompletionCnt = cl.outstandingSendCompletionCnt)
    (hepoch : cl'.nextEpoch = cl.nextEpoch)
    (hphase : cl'.phase = .idle ∨
      c.toNat < cfg.clientCnt ∧ ∃ cart dID, cl'.phase = .delivery cart dID .begin)
    (hinert : cl.phase.isInert = true) : ClientOK cfg (s.setClient c cl' o l) c cl' := by
  have hinert' : cl'.phase.isInert = true := by
    rcases hphase with hp | ⟨-, cart, dID, hp⟩ <;> rw [hp] <;> rfl
  obtain ⟨hw, -, hplan⟩ : _ ∧ _ ∧ cl.plan cfg c = [] := Client.sets_of_isInert hinert
  obtain ⟨hwriteSet, hlocks, hplan'⟩ : _ ∧ _ ∧ cl'.plan cfg c = [] := Client.sets_of_isInert hinert'
  have hwaits : cl'.waits cfg = [.oracle] := by
    rcases hphase with hp | ⟨-, cart, dID, hp⟩ <;> simp [Client.waits, hp]
  have hreadSet : cl'.phase.readSet = [] := by
    rcases hphase with hp | ⟨-, cart, dID, hp⟩ <;> simp [Phase.readSet, hp]
  have hlog : cl'.phase.isLog = false := by
    rcases hphase with hp | ⟨-, cart, dID, hp⟩ <;> simp [Phase.isLog, hp]
  exact {
    active := by
      intro hidle
      rcases hphase with hp | ⟨hc, -⟩
      · exact absurd hp hidle
      · exact hc
    epoch := by rw [hepoch, h.epoch, State.acquired_setClient_of_label hl]
    genuine := by simp [hwriteSet]
    lockCts := by simp [hlocks]
    locking := by simp [hwriteSet]
    conforms := by
      intro k hk _
      have hconf := h.conforms k hk (by simp [hw])
      rw [hplan] at hconf
      rw [hplan', Client.ops, hout]
      exact hconf
    checked := by
      intro cart hcart
      rcases hphase with hp | ⟨-, cart', dID, hp⟩ <;> simp [hp] at hcart
    count := by
      rw [hcq, h.sendCQ, hout, h.unsignaled, Client.pollCnt, hlog, hcnt, h.counted]
      simp
    quiet := fun _ => hcnt.trans h.counted
    ended := by
      intro q hq
      rw [hwaits, List.mem_singleton] at hq
      subst hq
      rw [hout]
      exact Fifo.ended_of_lane_eq_nil (h.lanes _ (by simp [Client.waits]))
    lands := by
      intro wr hwr hlands
      rw [hout] at hwr
      simp [h.landed wr hwr] at hlands
    reads := by simp [hreadSet] }

end RdmaSnapshot
