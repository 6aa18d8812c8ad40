import RdmaSnapshot.VectorStep

/-!
# Commit timestamps and their publication

The commit timestamps of a client grow from one transaction to the next, and a transaction that
commits publishes its timestamp before the client starts another one. So whatever the vector of the
oracle holds for a client, all earlier transactions of that client are over: they were published or
they aborted.
-/

namespace RdmaSnapshot

variable {cfg : Config} {s s' : State} {c c' : ClientID} {cl cl' : Client} {o o' : Owner}
  {l : CpuLabel} {cts cts' : UInt32} {i g : ℕ} {wr : WorkRequest} {answer : IndexAnswer}
  {vec : ClientID → UInt32}

/-! ## Acquisitions -/

/-- The value `getNewCommitTimestamp` returned to a transaction. -/
structure Acquisition where
  client : ClientID
  owner : Owner
  cts : UInt32

def Event.acquisition : Event → Option Acquisition
  | .cpu c o (.acquire cts) => some ⟨c, o, cts⟩
  | _ => none

/-- The commit timestamps acquired so far, newest first. -/
def State.acquisitions (s : State) : List Acquisition := s.trace.filterMap Event.acquisition

/-- Transaction `o` of client `c` acquired the commit timestamp `cts`. -/
def HasAcquired (s : State) (c : ClientID) (o : Owner) (cts : UInt32) : Prop :=
  Event.cpu c o (.acquire cts) ∈ s.trace

def State.lastCts (cfg : Config) (s : State) (c : ClientID) : ℕ :=
  s.acquired c * cfg.clientCnt + c.toNat

theorem hasAcquired_iff : HasAcquired s c o cts ↔ ⟨c, o, cts⟩ ∈ s.acquisitions := by
  simp only [HasAcquired, State.acquisitions, List.mem_filterMap]
  constructor
  · exact fun h => ⟨_, h, rfl⟩
  · rintro ⟨e, he, hacq⟩
    unfold Event.acquisition at hacq
    split at hacq
    · cases hacq
      exact he
    · cases hacq

@[simp] theorem State.acquisitions_effect :
    (s.effect c i wr answer).acquisitions = s.acquisitions := rfl

@[simp] theorem State.acquisitions_readOracle :
    (s.readOracle g).acquisitions = s.acquisitions := rfl

theorem State.acquisitions_setClient_acquire :
    (s.setClient c cl o (.acquire cts)).acquisitions = ⟨c, o, cts⟩ :: s.acquisitions := rfl

theorem State.acquisitions_setClient_of_label (h : ∀ cts, l ≠ .acquire cts) :
    (s.setClient c cl o l).acquisitions = s.acquisitions := by
  cases l with
  | acquire cts => exact absurd rfl (h cts)
  | _ => rfl

/-- The order of the commit timestamps acquired so far. -/
structure Stamps (cfg : Config) (s : State) : Prop where
  active : ∀ a ∈ s.acquisitions, a.client.toNat < cfg.clientCnt
  residue : ∀ a ∈ s.acquisitions, a.cts.toNat % cfg.clientCnt = a.client.toNat
  positive : ∀ a ∈ s.acquisitions, 0 < a.cts
  bounded : ∀ a ∈ s.acquisitions, a.cts.toNat ≤ s.lastCts cfg a.client
  sorted : s.acquisitions.Pairwise fun a b => a.client = b.client → b.cts < a.cts

theorem State.lastCts_lt_nextCts (h : 0 < cfg.clientCnt) :
    s.lastCts cfg c < s.nextCts cfg c := by
  simp only [lastCts, nextCts, Nat.add_mul, Nat.one_mul]
  omega

theorem State.lastCts_congr (h : s'.acquired c = s.acquired c) :
    s'.lastCts cfg c = s.lastCts cfg c := by
  rw [lastCts, lastCts, h]

theorem Stamps.congr (h : Stamps cfg s) (hacq : s'.acquisitions = s.acquisitions)
    (hcnt : ∀ c, s'.acquired c = s.acquired c) : Stamps cfg s' where
  active := by
    rw [hacq]
    exact h.active
  residue := by
    rw [hacq]
    exact h.residue
  positive := by
    rw [hacq]
    exact h.positive
  bounded := by
    rw [hacq]
    intro a ha
    rw [State.lastCts_congr (hcnt a.client)]
    exact h.bounded a ha
  sorted := by
    rw [hacq]
    exact h.sorted

theorem Stamps.acquire (h : Stamps cfg s) (hc : c.toNat < cfg.clientCnt)
    (hcts : cts.toNat = s.nextCts cfg c) : Stamps cfg (s.setClient c cl o (.acquire cts)) where
  active := by
    rw [State.acquisitions_setClient_acquire]
    exact List.forall_mem_cons.2 ⟨hc, h.active⟩
  residue := by
    rw [State.acquisitions_setClient_acquire]
    refine List.forall_mem_cons.2 ⟨?_, h.residue⟩
    change cts.toNat % cfg.clientCnt = c.toNat
    rw [hcts, State.nextCts, Nat.mul_add_mod_self_right, Nat.mod_eq_of_lt hc]
  positive := by
    rw [State.acquisitions_setClient_acquire]
    refine List.forall_mem_cons.2 ⟨?_, h.positive⟩
    change 0 < cts
    rw [UInt32.lt_iff_toNat_lt, hcts]
    exact Nat.lt_of_le_of_lt (Nat.zero_le _) (State.lastCts_lt_nextCts (by omega))
  bounded := by
    rw [State.acquisitions_setClient_acquire]
    refine List.forall_mem_cons.2 ⟨?_, fun a ha => ?_⟩
    · change cts.toNat ≤ State.lastCts cfg _ c
      refine Nat.le_of_eq ?_
      rw [hcts, State.lastCts, State.acquired_setClient_acquire, State.nextCts]
    · refine Nat.le_trans (h.bounded a ha) ?_
      exact Nat.add_le_add_right (Nat.mul_le_mul_right _ State.acquired_le_setClient) _
  sorted := by
    rw [State.acquisitions_setClient_acquire]
    refine List.pairwise_cons.2 ⟨fun a ha hclient => ?_, h.sorted⟩
    have hle := h.bounded a ha
    rw [← hclient] at hle
    rw [UInt32.lt_iff_toNat_lt, hcts]
    exact Nat.lt_of_le_of_lt hle (State.lastCts_lt_nextCts (by omega))

theorem ClientStep.acquire_toNat (h : ClientStep cfg vec c (s.clients c) cl o (.acquire cts))
    (hinv : Inv cfg s) (hwrap : NoWrap cfg (s.setClient c cl o (.acquire cts))) :
    c.toNat < cfg.clientCnt ∧ cts.toNat = s.nextCts cfg c := by
  obtain ⟨posts, hadv⟩ := h.advance
  have hreading := hadv.advance.reading_of_acquire
  have hc := (hinv.clients c).active fun hidle => by simp [hidle, Phase.status] at hreading
  have hlt := hwrap c hc
  rw [State.acquired_setClient_acquire] at hlt
  cases h.vectorStep with
  | acquire _ hcts =>
    rw [hcts]
    exact ⟨hc, (hinv.clients c).newCommitTimestamp_toNat hc hlt⟩
  | keep _ _ _ _ _ hacquire => exact absurd rfl (hacquire cts)

theorem Init.acquisitions (h : Init cfg s) : s.acquisitions = [] := by
  rw [State.acquisitions, h.trace]
  rfl

/-- **The order of the commit timestamps.** -/
theorem stamps_of_reachable (h : Reachable cfg s) (hwrap : NoWrap cfg s) : Stamps cfg s := by
  induction h with
  | start hs =>
    have hnil := hs.acquisitions
    exact ⟨by simp [hnil], by simp [hnil], by simp [hnil], by simp [hnil], by simp [hnil]⟩
  | next hs _ ha ih =>
    have hwrap' := hwrap.of_step ha
    have hst := ih hwrap'
    have hinv := inv_of_reachable hs hwrap'
    rcases step_cases ha with ⟨c, vec, cl, o, l, -, hstep, rfl⟩ | ⟨c, i, wr, answer, -, -, rfl⟩ |
      ⟨g, -, rfl⟩
    · by_cases hl : ∃ cts, l = .acquire cts
      · obtain ⟨cts, rfl⟩ := hl
        obtain ⟨hc, hcts⟩ := hstep.acquire_toNat hinv hwrap
        exact hst.acquire hc hcts
      · have hl' : ∀ cts, l ≠ .acquire cts := fun cts h => hl ⟨cts, h⟩
        exact hst.congr (State.acquisitions_setClient_of_label hl')
          fun _ => State.acquired_setClient_of_label hl'
    · exact hst.congr rfl fun _ => State.acquired_effect
    · exact hst.congr rfl fun _ => State.acquired_readOracle

/-! ## Transactions and their publication -/

def HasPublished (s : State) (c : ClientID) (o : Owner) (cts : UInt32) : Prop :=
  ∃ signaled reply, Event.effect c ⟨o, .writeVectorEntry c cts, signaled⟩ reply ∈ s.trace

def HasAborted (s : State) (c : ClientID) (o : Owner) : Prop :=
  ∃ reason, Event.cpu c o (.finish (.ABORTED reason)) ∈ s.trace

structure Client.Executes (cl : Client) (o : Owner) : Prop where
  trx : cl.phase.trx = some o.trx
  number : o.t = cl.t

theorem Client.Executes.unique (h : cl.Executes o) (h' : cl.Executes o') : o = o' := by
  obtain ⟨t, trx⟩ := o
  obtain ⟨t', trx'⟩ := o'
  obtain rfl : trx = trx' := Option.some.inj (h.trx.symm.trans h'.trx)
  obtain rfl : t = t' := h.number.trans h'.number.symm
  rfl

/-- How client `c`, in state `cl`, stands with the oracle. -/
structure VectorOK (cfg : Config) (s : State) (c : ClientID) (cl : Client) : Prop where
  number : ∀ o cts, HasAcquired s c o cts → o.t ≤ cl.t
  latest : ∀ o cts, HasAcquired s c o cts → o.t = cl.t →
    cl.phase.status ≠ .reading ∧ cts.toNat = s.lastCts cfg c
  locking : cl.phase.status = .locking → ∀ o, cl.Executes o → HasAcquired s c o cl.phase.lockCts
  committing : cl.phase.status = .committing → ∀ o, cl.Executes o →
    HasAcquired s c o (cl.localTimestampVector c)
  pending : ∀ wr ∈ cl.outstanding, ∀ c' ts, wr.verb = .writeVectorEntry c' ts →
    cl.phase.isPublish = true ∧ cl.Executes wr.owner ∧ c' = c ∧ ts = cl.localTimestampVector c
  publishing : cl.phase.isPublish = true → ∀ o, cl.Executes o →
    (∃ signaled, ⟨o, .writeVectorEntry c (cl.localTimestampVector c), signaled⟩ ∈ cl.outstanding) ∨
      HasPublished s c o (cl.localTimestampVector c)
  resolved : ∀ o cts, HasAcquired s c o cts →
    (cl.Executes o ∧ cl.phase.status ≠ .idle ∧ s.lastCommittedVector c < cts) ∨
      HasAborted s c o ∨ HasPublished s c o cts
  entry : s.lastCommittedVector c = 0 ∨ ∃ o, HasAcquired s c o (s.lastCommittedVector c)

namespace VectorOK

theorem cts_unique (h : VectorOK cfg s c cl) (hex : cl.Executes o) (ha : HasAcquired s c o cts)
    (ha' : HasAcquired s c o cts') : cts = cts' :=
  UInt32.toNat_inj.1
    ((h.latest o cts ha hex.number).2.trans (h.latest o cts' ha' hex.number).2.symm)

theorem entry_le (h : VectorOK cfg s c cl) (hst : Stamps cfg s) :
    (s.lastCommittedVector c).toNat ≤ s.lastCts cfg c := by
  rcases h.entry with hzero | ⟨o, ho⟩
  · simp [hzero]
  · exact hst.bounded _ (hasAcquired_iff.1 ho)

end VectorOK

theorem VectorOK.frame (h : VectorOK cfg s c cl)
    (hacquired : ∀ o cts, HasAcquired s' c o cts ↔ HasAcquired s c o cts)
    (hcnt : s'.acquired c = s.acquired c) (htrace : s.trace ⊆ s'.trace)
    (hentry : s'.lastCommittedVector c = s.lastCommittedVector c) : VectorOK cfg s' c cl where
  number := fun o cts ha => h.number o cts ((hacquired o cts).1 ha)
  latest := by
    intro o cts ha hn
    rw [State.lastCts_congr hcnt]
    exact h.latest o cts ((hacquired o cts).1 ha) hn
  locking := fun hst o ho => (hacquired _ _).2 (h.locking hst o ho)
  committing := fun hst o ho => (hacquired _ _).2 (h.committing hst o ho)
  pending := h.pending
  publishing := by
    intro hpub o ho
    refine (h.publishing hpub o ho).imp_right ?_
    exact fun ⟨signaled, reply, hmem⟩ => ⟨signaled, reply, htrace hmem⟩
  resolved := by
    intro o cts ha
    rw [hentry]
    refine (h.resolved o cts ((hacquired o cts).1 ha)).imp_right (Or.imp ?_ ?_)
    · exact fun ⟨reason, hmem⟩ => ⟨reason, htrace hmem⟩
    · exact fun ⟨signaled, reply, hmem⟩ => ⟨signaled, reply, htrace hmem⟩
  entry := by
    rw [hentry]
    exact h.entry.imp_right fun ⟨o, ho⟩ => ⟨o, (hacquired _ _).2 ho⟩

/-! ## Steps of the client's CPU -/

/-- Nothing on the vector is outstanding when the CPU of a client runs on. -/
theorem Settled.oracleOps (h : Settled cfg cl) : cl.oracleOps = [] := by
  refine List.filter_eq_nil_iff.2 fun wr hwr hon => ?_
  refine h.lanes .oracle List.mem_cons_self wr hwr ?_
  unfold WorkRequest.qp
  revert hon
  cases wr.verb <;> simp [Verb.onOracle, Verb.qp]

theorem Client.mem_oracleOps {c' : ClientID} {ts : UInt32} (hwr : wr ∈ cl.outstanding)
    (hv : wr.verb = .writeVectorEntry c' ts) : wr ∈ cl.oracleOps :=
  List.mem_filter.2 ⟨hwr, by simp [hv, Verb.onOracle]⟩

theorem AdvanceBy.executes {posts : List Post} (h : AdvanceBy cfg cl cl' o l posts)
    (hne : cl'.phase.status ≠ .idle) : cl'.Executes o :=
  ⟨h.trx hne, h.owner⟩

theorem AdvanceBy.executes_before {posts : List Post} (h : AdvanceBy cfg cl cl' o l posts)
    (htrx : cl.phase.status ≠ .idle → cl.phase.trx = some o.trx)
    (hne : cl.phase.status ≠ .idle) : cl.Executes o := by
  refine ⟨htrx hne, ?_⟩
  have hbegin : l ≠ .begin := by
    rintro rfl
    exact hne h.advance.idle_of_begin
  rw [h.owner, h.number, if_neg hbegin]

theorem hasAcquired_setClient_of_label {c₁ : ClientID} {o₁ : Owner}
    (h : ∀ cts, l ≠ .acquire cts) :
    HasAcquired (s.setClient c cl o l) c₁ o₁ cts ↔ HasAcquired s c₁ o₁ cts := by
  rw [hasAcquired_iff, hasAcquired_iff, State.acquisitions_setClient_of_label h]

theorem HasAborted.setClient {c₁ : ClientID} {o₁ : Owner} (h : HasAborted s c₁ o₁) :
    HasAborted (s.setClient c cl o l) c₁ o₁ := by
  obtain ⟨reason, h⟩ := h
  exact ⟨reason, List.mem_cons_of_mem _ h⟩

theorem HasPublished.setClient {c₁ : ClientID} {o₁ : Owner} (h : HasPublished s c₁ o₁ cts) :
    HasPublished (s.setClient c cl o l) c₁ o₁ cts := by
  obtain ⟨signaled, reply, h⟩ := h
  exact ⟨signaled, reply, List.mem_cons_of_mem _ h⟩

theorem VectorOK.advance {posts : List Post} (h : VectorOK cfg s c cl) (hset : Settled cfg cl)
    (hadv : AdvanceBy cfg cl cl' o l posts)
    (htrx : cl.phase.status ≠ .idle → cl.phase.trx = some o.trx)
    (hl : ∀ cts, l ≠ .acquire cts) (hlocking : cl'.phase.status ≠ .locking)
    (hcommitting : cl'.phase.status = .committing →
      HasAcquired s c o (cl'.localTimestampVector c))
    (hpending : ∀ wr ∈ cl'.outstanding, ∀ c' ts, wr.verb = .writeVectorEntry c' ts →
      cl'.phase.isPublish = true ∧ wr.owner = o ∧ c' = c ∧ ts = cl'.localTimestampVector c)
    (hpublishing : cl'.phase.isPublish = true → ∃ signaled,
      ⟨o, .writeVectorEntry c (cl'.localTimestampVector c), signaled⟩ ∈ cl'.outstanding)
    (hfinish : l = .finish .COMMITTED → cl.phase.status = .committing →
      cl.phase.isPublish = true) : VectorOK cfg (s.setClient c cl' o l) c cl' where
  number := by
    intro o₁ cts ha
    have hle := h.number o₁ cts ((hasAcquired_setClient_of_label hl).1 ha)
    have hnumber := hadv.number
    split at hnumber <;> omega
  latest := by
    intro o₁ cts ha hn
    have ha' := (hasAcquired_setClient_of_label hl).1 ha
    obtain ⟨hbegin, hn⟩ := hadv.not_begin (h.number o₁ cts ha') hn
    obtain ⟨hreading, hcts⟩ := h.latest o₁ cts ha' hn
    rw [State.lastCts_congr (State.acquired_setClient_of_label hl)]
    refine ⟨fun hst => ?_, hcts⟩
    have hstep := hadv.advance
    rw [hst] at hstep
    exact hreading (hstep.reading_of.resolve_left hbegin)
  locking := fun hst => absurd hst hlocking
  committing := by
    intro hst o₁ ho₁
    rw [ho₁.unique (hadv.executes (by simp [hst]))]
    exact (hasAcquired_setClient_of_label hl).2 (hcommitting hst)
  pending := by
    intro wr hwr c' ts hv
    obtain ⟨hpub, ho, hrest⟩ := hpending wr hwr c' ts hv
    refine ⟨hpub, ?_, hrest⟩
    rw [ho]
    exact hadv.executes (by simp [Phase.status_of_isPublish hpub])
  publishing := by
    intro hpub o₁ ho₁
    rw [ho₁.unique (hadv.executes (by simp [Phase.status_of_isPublish hpub]))]
    exact .inl (hpublishing hpub)
  resolved := by
    intro o₁ cts ha
    have ha' := (hasAcquired_setClient_of_label hl).1 ha
    rcases h.resolved o₁ cts ha' with ⟨hex, hne, hlt⟩ | haborted | hpublished
    · obtain rfl := hex.unique (hadv.executes_before htrx hne)
      by_cases hidle : cl'.phase.status = .idle
      · -- the transaction ends here
        have hstep := hadv.advance
        rw [hidle] at hstep
        rcases hstep.to_idle with hst | hst | ⟨-, reason, rfl⟩ | ⟨hst, rfl⟩
        · exact absurd hst hne
        · exact absurd hst (h.latest _ cts ha' hex.number).1
        · exact .inr (.inl ⟨reason, List.mem_cons_self⟩)
        · rcases h.publishing (hfinish rfl hst) _ hex with ⟨signaled, hwr⟩ | hpublished
          · have hops := Client.mem_oracleOps hwr rfl
            simp [hset.oracleOps] at hops
          · rw [h.cts_unique hex ha' (h.committing hst _ hex)]
            exact .inr (.inr hpublished.setClient)
      · exact .inl ⟨hadv.executes hidle, hidle, hlt⟩
    · exact .inr (.inl haborted.setClient)
    · exact .inr (.inr hpublished.setClient)
  entry := h.entry.imp_right fun ⟨o₁, ho₁⟩ => ⟨o₁, (hasAcquired_setClient_of_label hl).2 ho₁⟩

theorem VectorOK.acquire {posts : List Post} (h : VectorOK cfg s c cl) (hset : Settled cfg cl)
    (hst : Stamps cfg s) (hadv : AdvanceBy cfg cl cl' o (.acquire cts) posts)
    (hc : c.toNat < cfg.clientCnt) (hcts : cts.toNat = s.nextCts cfg c)
    (hlock : cl'.phase.lockCts = cts) (hops : cl'.oracleOps = cl.oracleOps)
    (hstatus : cl'.phase.status = .locking) :
    VectorOK cfg (s.setClient c cl' o (.acquire cts)) c cl' := by
  have ht : cl'.t = cl.t := by simpa using hadv.number
  have hreading := hadv.advance.reading_of_acquire
  have hex : cl'.Executes o := hadv.executes (by simp [hstatus])
  have hpublish : cl'.phase.isPublish = false := Phase.isPublish_eq_false (by simp [hstatus])
  have hnone : cl'.oracleOps = [] := by rw [hops, hset.oracleOps]
  -- earlier acquisitions are of other transactions
  have hcases : ∀ o₁ cts₁, HasAcquired (s.setClient c cl' o (.acquire cts)) c o₁ cts₁ →
      (o₁ = o ∧ cts₁ = cts) ∨ (HasAcquired s c o₁ cts₁ ∧ o₁.t ≠ cl.t) := by
    intro o₁ cts₁ ha
    rcases List.mem_cons.1 ha with heq | ha
    · cases heq
      exact .inl ⟨rfl, rfl⟩
    · exact .inr ⟨ha, fun hn => (h.latest o₁ cts₁ ha hn).1 hreading⟩
  exact {
    number := by
      intro o₁ cts₁ ha
      rcases hcases o₁ cts₁ ha with ⟨rfl, -⟩ | ⟨ha, -⟩
      · exact Nat.le_of_eq hadv.owner
      · rw [ht]
        exact h.number o₁ cts₁ ha
    latest := by
      intro o₁ cts₁ ha hn
      rcases hcases o₁ cts₁ ha with ⟨-, rfl⟩ | ⟨-, hne⟩
      · refine ⟨by simp [hstatus], ?_⟩
        rw [hcts, State.lastCts, State.acquired_setClient_acquire, State.nextCts]
      · exact absurd (hn.trans ht) hne
    locking := by
      intro _ o₁ ho₁
      rw [ho₁.unique hex, hlock]
      exact List.mem_cons_self
    committing := by simp [hstatus]
    pending := by
      intro wr hwr c' ts hv
      have hmem := Client.mem_oracleOps hwr hv
      simp [hnone] at hmem
    publishing := by simp [hpublish]
    resolved := by
      intro o₁ cts₁ ha
      rcases hcases o₁ cts₁ ha with ⟨rfl, rfl⟩ | ⟨ha, hne⟩
      · refine .inl ⟨hex, by simp [hstatus], ?_⟩
        rw [UInt32.lt_iff_toNat_lt, hcts]
        exact Nat.lt_of_le_of_lt (h.entry_le hst) (State.lastCts_lt_nextCts (by omega))
      · rcases h.resolved o₁ cts₁ ha with ⟨hex, -⟩ | haborted | hpublished
        · exact absurd hex.number hne
        · exact .inr (.inl haborted.setClient)
        · exact .inr (.inr hpublished.setClient)
    entry := h.entry.imp_right fun ⟨o₁, ho₁⟩ => ⟨o₁, List.mem_cons_of_mem _ ho₁⟩ }

theorem ClientStep.vectorOK (h : ClientStep cfg vec c (s.clients c) cl o l) (hinv : Inv cfg s)
    (hst : Stamps cfg s) (hok : VectorOK cfg s c (s.clients c))
    (hwrap : NoWrap cfg (s.setClient c cl o l)) : VectorOK cfg (s.setClient c cl o l) c cl := by
  obtain ⟨posts, hadv⟩ := h.advance
  have hset := h.settled (hinv.clients c)
  have htrx := fun hne => h.trx_of_not_idle hne
  -- the WRITEs on the vector are among the new requests
  have hpending : ∀ reads : List WorkRequest, cl.oracleOps = (s.clients c).oracleOps ++ reads →
      (∀ wr ∈ reads, ∀ c' ts, wr.verb ≠ .writeVectorEntry c' ts) →
      ∀ wr ∈ cl.outstanding, ∀ c' ts, wr.verb ≠ .writeVectorEntry c' ts := by
    intro reads hops hreads wr hwr c' ts hv
    have hmem := Client.mem_oracleOps hwr hv
    rw [hops, hset.oracleOps, List.nil_append] at hmem
    exact hreads wr hmem c' ts hv
  cases h.vectorStep with
  | start hvec hops hstatus =>
    have hpub : cl.phase.isPublish = false := Phase.isPublish_eq_false (by simp [hstatus])
    refine hok.advance hset hadv htrx (by simp) (by simp [hstatus]) (by simp [hstatus]) ?_
      (by simp [hpub]) (by simp)
    intro wr hwr c' ts hv
    refine absurd hv (hpending _ hops ?_ wr hwr c' ts)
    split <;> simp
  | snapshot hmode hops hstatus =>
    obtain ⟨reads, hops, hreads⟩ := hops
    have hpub : cl.phase.isPublish = false := Phase.isPublish_eq_false (by simp [hstatus])
    refine hok.advance hset hadv htrx (by simp) (by simp [hstatus]) (by simp [hstatus]) ?_
      (by simp [hpub]) (by simp)
    exact fun wr hwr c' ts hv => absurd hv (hpending _ hops hreads wr hwr c' ts)
  | acquire cts hcts hlock hvec hops hstatus =>
    obtain ⟨hc, hcts⟩ := h.acquire_toNat hinv hwrap
    exact hok.acquire hset hst hadv hc hcts hlock hops hstatus
  | commit hstatus hvec hops hpublish hstatus' =>
    refine hok.advance hset hadv htrx (by simp) (by simp [hstatus']) (fun _ => ?_) ?_
      (by simp [hpublish]) (by simp)
    · rw [hvec, Function.update_self]
      exact hok.locking hstatus o (hadv.executes_before htrx (by simp [hstatus]))
    · exact fun wr hwr c' ts hv =>
        absurd hv (hpending [] (by simp [hops]) (by simp) wr hwr c' ts)
  | publish hstatus hvec hops hpublish =>
    have hops' : cl.oracleOps =
        [⟨o, .writeVectorEntry c ((s.clients c).localTimestampVector c), true⟩] := by
      rw [hops, hset.oracleOps, List.nil_append]
    have hstatus' := Phase.status_of_isPublish hpublish
    refine hok.advance hset hadv htrx (by simp) (by simp [hstatus']) (fun _ => ?_) ?_
      (fun _ => ⟨true, ?_⟩) (by simp)
    · rw [hvec]
      exact hok.committing hstatus o (hadv.executes_before htrx (by simp [hstatus]))
    · intro wr hwr c' ts hv
      have hmem := Client.mem_oracleOps hwr hv
      rw [hops', List.mem_singleton] at hmem
      subst hmem
      cases hv
      exact ⟨hpublish, rfl, rfl, by rw [hvec]⟩
    · rw [hvec]
      exact (List.mem_filter.1 (hops' ▸ List.mem_singleton_self _)).1
  | keep hvec hops hpublish hstatus hbegin hacquire hfinish =>
    refine hok.advance hset hadv htrx hacquire hstatus.1 (fun hcom => ?_) ?_ (by simp [hpublish])
      hfinish
    · rw [hvec]
      have hcom' := hstatus.2 hcom
      exact hok.committing hcom' o (hadv.executes_before htrx (by simp [hcom']))
    · exact fun wr hwr c' ts hv =>
        absurd hv (hpending [] (by simp [hops]) (by simp) wr hwr c' ts)

/-! ## Effects -/

theorem Phase.status_of_readsVector {ph : Phase} (h : ph.readsVector = true) :
    ph.status = .reading := by
  cases ph with
  | idle => cases h
  | newOrder _ pc | payment _ pc | delivery _ _ pc => cases pc <;> first | rfl | cases h

theorem ClientOK.landVector_eq (h : ClientOK cfg s c cl) (hwr : wr ∈ cl.outstanding)
    (hst : cl.phase.status ≠ .reading) :
    s.landVector wr.verb cl.localTimestampVector = cl.localTimestampVector := by
  have hland := h.lands wr hwr
  cases hv : wr.verb with
  | readVector | readVectorEntry =>
    rw [hv] at hland
    exact absurd (Phase.status_of_readsVector (hland rfl).2.2) hst
  | _ => rfl

theorem VectorOK.applyVector_of_ne (h : VectorOK cfg s c cl) (hwr : wr ∈ cl.outstanding)
    (hne : c' ≠ c) : wr.verb.applyVector s.lastCommittedVector c' = s.lastCommittedVector c' := by
  cases hv : wr.verb with
  | writeVectorEntry c₁ ts =>
    obtain rfl := (h.pending wr hwr c₁ ts hv).2.2.1
    simp [Verb.applyVector, hne]
  | _ => rfl

theorem VectorOK.applyVector_cases (h : VectorOK cfg s c cl) (hwr : wr ∈ cl.outstanding) :
    (cl.phase.isPublish = true ∧ cl.Executes wr.owner ∧
      wr.verb = .writeVectorEntry c (cl.localTimestampVector c) ∧
      wr.verb.applyVector s.lastCommittedVector c = cl.localTimestampVector c) ∨
    wr.verb.applyVector s.lastCommittedVector c = s.lastCommittedVector c := by
  cases hv : wr.verb with
  | writeVectorEntry c' ts =>
    obtain ⟨hpub, hex, rfl, rfl⟩ := h.pending wr hwr c' ts hv
    exact .inl ⟨hpub, hex, rfl, by simp [Verb.applyVector]⟩
  | _ => exact .inr rfl

theorem VectorOK.effect (h : VectorOK cfg s c (s.clients c)) (hcl : ClientOK cfg s c (s.clients c))
    (ho : (s.clients c).Oldest cfg i wr) :
    VectorOK cfg (s.effect c i wr answer) c ((s.effect c i wr answer).clients c) := by
  have hwr := List.mem_of_getElem? ho.getElem
  generalize hcl' : (s.effect c i wr answer).clients c = cl'
  rw [State.effect_clients_self] at hcl'
  have hphase : cl'.phase = (s.clients c).phase := by rw [← hcl']; rfl
  have hout : cl'.outstanding = (s.clients c).outstanding.eraseIdx i := by rw [← hcl']; rfl
  have ht : cl'.t = (s.clients c).t := by rw [← hcl']; rfl
  have hvec : (s.clients c).phase.status = .committing →
      cl'.localTimestampVector = (s.clients c).localTimestampVector := by
    intro hst
    rw [← hcl']
    exact hcl.landVector_eq hwr (by simp [hst])
  have hex : ∀ o, cl'.Executes o ↔ (s.clients c).Executes o :=
    fun o => ⟨fun h => ⟨hphase ▸ h.trx, ht ▸ h.number⟩, fun h => ⟨hphase ▸ h.trx, ht ▸ h.number⟩⟩
  have hacquired : ∀ o cts, HasAcquired (s.effect c i wr answer) c o cts ↔ HasAcquired s c o cts :=
    fun o cts => by rw [hasAcquired_iff, hasAcquired_iff, State.acquisitions_effect]
  have hmono : ∀ {o cts}, HasPublished s c o cts → HasPublished (s.effect c i wr answer) c o cts :=
    fun ⟨signaled, reply, hmem⟩ => ⟨signaled, reply, List.mem_cons_of_mem _ hmem⟩
  have hnew : ∀ {ts}, wr.verb = .writeVectorEntry c ts →
      HasPublished (s.effect c i wr answer) c wr.owner ts :=
    fun hv => ⟨wr.signaled, _, List.mem_cons.2 (.inl (by rw [← hv]))⟩
  exact {
    number := by
      rw [ht]
      exact fun o cts ha => h.number o cts ((hacquired o cts).1 ha)
    latest := by
      rw [ht, hphase, State.lastCts_congr State.acquired_effect]
      exact fun o cts ha => h.latest o cts ((hacquired o cts).1 ha)
    locking := by
      rw [hphase]
      exact fun hst o ho => (hacquired _ _).2 (h.locking hst o ((hex o).1 ho))
    committing := by
      rw [hphase]
      intro hst o ho
      rw [hacquired, hvec hst]
      exact h.committing hst o ((hex o).1 ho)
    pending := by
      intro w hw c' ts hv
      rw [hout] at hw
      obtain ⟨hpub, hown, hc', hts⟩ := h.pending w (List.mem_of_mem_eraseIdx hw) c' ts hv
      rw [hvec (Phase.status_of_isPublish hpub), hphase, hex]
      exact ⟨hpub, hown, hc', hts⟩
    publishing := by
      rw [hphase]
      intro hpub o ho'
      rw [hvec (Phase.status_of_isPublish hpub), hout]
      rcases h.publishing hpub o ((hex o).1 ho') with ⟨signaled, hw⟩ | hpublished
      · by_cases hself : (⟨o, .writeVectorEntry c ((s.clients c).localTimestampVector c),
            signaled⟩ : WorkRequest) = wr
        · refine .inr ?_
          subst hself
          exact hnew rfl
        · exact .inl ⟨signaled, ho.mem_eraseIdx hw hself⟩
      · exact .inr (hmono hpublished)
    resolved := by
      intro o cts ha
      rw [hacquired] at ha
      rw [hphase, hex, State.effect_lastCommittedVector]
      rcases h.resolved o cts ha with ⟨hown, hne, hlt⟩ | ⟨reason, hmem⟩ | hpublished
      · rcases h.applyVector_cases hwr with ⟨hpub, hown', hv, -⟩ | hsame
        · obtain rfl := hown.unique hown'
          rw [h.cts_unique hown ha
            (h.committing (Phase.status_of_isPublish hpub) _ hown)]
          exact .inr (.inr (hnew hv))
        · rw [hsame]
          exact .inl ⟨hown, hne, hlt⟩
      · exact .inr (.inl ⟨reason, List.mem_cons_of_mem _ hmem⟩)
      · exact .inr (.inr (hmono hpublished))
    entry := by
      simp only [State.effect_lastCommittedVector, hacquired]
      rcases h.applyVector_cases hwr with ⟨hpub, hown, -, heq⟩ | hsame
      · rw [heq]
        exact .inr ⟨_, h.committing (Phase.status_of_isPublish hpub) _ hown⟩
      · rw [hsame]
        exact h.entry }

/-! ## Runs -/

theorem Init.vectorOK (h : Init cfg s) (c : ClientID) : VectorOK cfg s c (s.clients c) := by
  have hidle := (h.clients c).phase
  have hnone : ∀ o cts, ¬ HasAcquired s c o cts := by simp [HasAcquired, h.trace]
  exact {
    number := fun o cts ha => absurd ha (hnone o cts)
    latest := fun o cts ha => absurd ha (hnone o cts)
    locking := by simp [hidle, Phase.status]
    committing := by simp [hidle, Phase.status]
    pending := by simp [(h.clients c).outstanding]
    publishing := by simp [hidle, Phase.isPublish]
    resolved := fun o cts ha => absurd ha (hnone o cts)
    entry := .inl (by rw [h.lastCommittedVector]) }

theorem vectorOK_step {a : Action} (hinv : Inv cfg s) (hst : Stamps cfg s)
    (hok : ∀ c, VectorOK cfg s c (s.clients c)) (ha : step cfg s a = some s')
    (hwrap : NoWrap cfg s') : VectorOK cfg s' c (s'.clients c) := by
  rcases step_cases ha with ⟨c₁, vec, cl, o, l, -, hstep, rfl⟩ | ⟨c₁, i, wr, answer, -, ho, rfl⟩ |
    ⟨g, -, rfl⟩
  · by_cases hc : c = c₁
    · subst hc
      rw [State.setClient_clients_self]
      exact hstep.vectorOK hinv hst (hok c) hwrap
    · rw [State.setClient_clients_of_ne hc]
      refine (hok c).frame (fun o cts => ?_) (State.acquired_setClient_of_ne hc)
        (List.subset_cons_self _ _) rfl
      simp [HasAcquired, hc]
  · by_cases hc : c = c₁
    · subst hc
      exact (hok c).effect (hinv.clients c) ho
    · rw [State.effect_clients_of_ne hc]
      refine (hok c).frame (fun o cts => ?_) State.acquired_effect (List.subset_cons_self _ _) ?_
      · simp [HasAcquired]
      · exact (hok c₁).applyVector_of_ne (List.mem_of_getElem? ho.getElem) hc
  · refine (hok c).frame (fun o cts => ?_) State.acquired_readOracle (List.subset_cons_self _ _) rfl
    simp [HasAcquired]

/-- **Every client stands well with the oracle** in every reachable state in which no commit
timestamp has wrapped. -/
theorem vectorOK_of_reachable (h : Reachable cfg s) (hwrap : NoWrap cfg s) (c : ClientID) :
    VectorOK cfg s c (s.clients c) := by
  induction h generalizing c with
  | start hs => exact hs.vectorOK c
  | next hs _ ha ih =>
    have hwrap' := hwrap.of_step ha
    exact vectorOK_step (inv_of_reachable hs hwrap') (stamps_of_reachable hs hwrap')
      (ih hwrap') ha hwrap

theorem VectorOK.le_applyVector (h : VectorOK cfg s c cl) (hst : Stamps cfg s)
    (hwr : wr ∈ cl.outstanding) :
    s.lastCommittedVector c ≤ wr.verb.applyVector s.lastCommittedVector c := by
  rcases h.applyVector_cases hwr with ⟨hpub, hex, -, heq⟩ | hsame
  · have ha := h.committing (Phase.status_of_isPublish hpub) _ hex
    rw [heq, UInt32.le_iff_toNat_le, (h.latest _ _ ha hex.number).2]
    exact h.entry_le hst
  · rw [hsame]
    exact UInt32.le_refl _

/-- The entries of the vector never decrease. -/
theorem lastCommittedVector_le_of_step {a : Action} (h : Reachable cfg s) (hwrap : NoWrap cfg s)
    (ha : step cfg s a = some s') (c : ClientID) :
    s.lastCommittedVector c ≤ s'.lastCommittedVector c := by
  rcases step_cases ha with ⟨c₁, vec, cl, o, l, -, -, rfl⟩ | ⟨c₁, i, wr, answer, -, ho, rfl⟩ |
    ⟨g, -, rfl⟩
  · exact UInt32.le_refl _
  · have hwr := List.mem_of_getElem? ho.getElem
    have hok := vectorOK_of_reachable h hwrap c₁
    rw [State.effect_lastCommittedVector]
    by_cases hc : c = c₁
    · subst hc
      exact hok.le_applyVector (stamps_of_reachable h hwrap) hwr
    · rw [hok.applyVector_of_ne hwr hc]
      exact UInt32.le_refl _
  · exact UInt32.le_refl _

end RdmaSnapshot
