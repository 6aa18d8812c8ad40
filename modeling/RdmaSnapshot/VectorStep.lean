import RdmaSnapshot.Course

/-!
# Steps and the oracle's vector

A client reads the vector when it takes its snapshot and writes its own entry when it publishes its
commit timestamp. This module says when the CPU of a client posts such requests and what it does to
the client's copy of the vector.
-/

namespace RdmaSnapshot

open DBExecutor

variable {cfg : Config} {s s' : State} {c c' : ClientID} {cl cl' base : Client} {o : Owner}
  {l : CpuLabel} {i g : ℕ} {wr : WorkRequest} {answer : IndexAnswer} {vec : ClientID → UInt32}
  {trx : Trx} {posts : List Post}

def Client.oracleOps (cl : Client) : List WorkRequest := cl.outstanding.filter (·.verb.onOracle)

/-- The last poll loop of a transaction that commits. -/
def Phase.isPublish : Phase → Bool
  | .newOrder _ .publish | .payment _ .publish | .delivery _ _ .publish => true
  | _ => false

/-- What a step of the CPU of client `c` does to its copy of the vector, and which requests on the
vector it posts. -/
inductive VectorStep (cfg : Config) (vec : ClientID → UInt32) (c : ClientID) (cl cl' : Client)
    (o : Owner) : CpuLabel → Prop
  /-- `getReadTimestamp` at the start of a transaction in `COMPLETE` mode. -/
  | start
      (hvec : cl'.localTimestampVector =
        if cfg.SNAPSHOT_ACQUISITION_TYPE = .COMPLETE ∧ cfg.SNAPSHOT_CLUSTER_MODE = true then vec
        else cl.localTimestampVector)
      (hops : cl'.oracleOps = cl.oracleOps ++
        if cfg.SNAPSHOT_ACQUISITION_TYPE = .COMPLETE ∧ cfg.SNAPSHOT_CLUSTER_MODE = false then
          [⟨o, .readVector, true⟩]
        else [])
      (hstatus : cl'.phase.status = .reading) : VectorStep cfg vec c cl cl' o .begin
  /-- The snapshot that follows the READs in `ONLY_READ_SET` mode. -/
  | snapshot (hmode : cfg.SNAPSHOT_ACQUISITION_TYPE = .ONLY_READ_SET)
      (hops : ∃ reads, cl'.oracleOps = cl.oracleOps ++ reads ∧
        ∀ wr ∈ reads, ∀ c' ts, wr.verb ≠ .writeVectorEntry c' ts)
      (hstatus : cl'.phase.status = .reading) : VectorStep cfg vec c cl cl' o .resume
  | acquire (cts : UInt32) (hcts : cts = cl.newCommitTimestamp cfg c)
      (hlock : cl'.phase.lockCts = cts)
      (hvec : cl'.localTimestampVector = cl.localTimestampVector)
      (hops : cl'.oracleOps = cl.oracleOps)
      (hstatus : cl'.phase.status = .locking) : VectorStep cfg vec c cl cl' o (.acquire cts)
  /-- The client sets its own entry once it holds all its locks. -/
  | commit (hstatus : cl.phase.status = .locking)
      (hvec : cl'.localTimestampVector = Function.update cl.localTimestampVector c cl.phase.lockCts)
      (hops : cl'.oracleOps = cl.oracleOps) (hpublish : cl'.phase.isPublish = false)
      (hstatus' : cl'.phase.status = .committing) : VectorStep cfg vec c cl cl' o .resume
  /-- `submitResult`. -/
  | publish (hstatus : cl.phase.status = .committing)
      (hvec : cl'.localTimestampVector = cl.localTimestampVector)
      (hops : cl'.oracleOps =
        cl.oracleOps ++ [⟨o, .writeVectorEntry c (cl.localTimestampVector c), true⟩])
      (hpublish : cl'.phase.isPublish = true) : VectorStep cfg vec c cl cl' o .resume
  | keep {l : CpuLabel} (hvec : cl'.localTimestampVector = cl.localTimestampVector)
      (hops : cl'.oracleOps = cl.oracleOps) (hpublish : cl'.phase.isPublish = false)
      (hstatus : cl'.phase.status ≠ .locking ∧
        (cl'.phase.status = .committing → cl.phase.status = .committing))
      (hbegin : l ≠ .begin) (hacquire : ∀ cts, l ≠ .acquire cts)
      (hfinish : l = .finish .COMMITTED → cl.phase.status = .committing →
        cl.phase.isPublish = true) : VectorStep cfg vec c cl cl' o l

theorem Phase.status_of_isPublish {ph : Phase} (h : ph.isPublish = true) :
    ph.status = .committing := by
  cases ph with
  | idle => cases h
  | newOrder _ pc | payment _ pc | delivery _ _ pc => cases pc <;> first | rfl | cases h

theorem Phase.isPublish_eq_false {ph : Phase} (h : ph.status ≠ .committing) :
    ph.isPublish = false := by
  by_contra hpub
  exact h (status_of_isPublish (by simpa using hpub))

theorem VectorStep.resume (hvec : cl'.localTimestampVector = cl.localTimestampVector)
    (hops : cl'.oracleOps = cl.oracleOps)
    (hstatus : cl'.phase.status = .reading ∨ cl'.phase.status = .reverting) :
    VectorStep cfg vec c cl cl' o .resume := by
  have hne : cl'.phase.status ≠ .committing := by rcases hstatus with h | h <;> simp [h]
  refine .keep hvec hops (Phase.isPublish_eq_false hne) ⟨?_, fun h => absurd h hne⟩ (by simp)
    (by simp) (by simp)
  rcases hstatus with h | h <;> simp [h]

theorem VectorStep.proceed (hstatus : cl.phase.status = .committing)
    (hvec : cl'.localTimestampVector = cl.localTimestampVector)
    (hops : cl'.oracleOps = cl.oracleOps) (hpublish : cl'.phase.isPublish = false)
    (hstatus' : cl'.phase.status = .committing) : VectorStep cfg vec c cl cl' o .resume :=
  .keep hvec hops hpublish ⟨by simp [hstatus'], fun _ => hstatus⟩ (by simp) (by simp) (by simp)

theorem VectorStep.finish {outcome : Outcome}
    (hvec : cl'.localTimestampVector = cl.localTimestampVector)
    (hops : cl'.oracleOps = cl.oracleOps) (hstatus : cl'.phase.status = .idle)
    (hfinish : cl.phase.status ≠ .committing ∨ cl.phase.isPublish = true) :
    VectorStep cfg vec c cl cl' o (.finish outcome) :=
  .keep hvec hops (Phase.isPublish_eq_false (by simp [hstatus]))
    ⟨by simp [hstatus], by simp [hstatus]⟩ (by simp) (by simp)
    fun _ hc => hfinish.resolve_left fun hne => hne hc

theorem Client.oracleOps_post : (base.post trx posts).oracleOps = base.oracleOps ++
    (posts.filter (·.verb.onOracle)).map fun p => ⟨⟨base.t, trx⟩, p.verb, p.signaled⟩ := by
  simp [Client.oracleOps, Client.post, List.filter_append, List.filter_map, Function.comp_def]

theorem oracleOps_post_of_none (hout : base.outstanding = cl.outstanding)
    (h : ∀ p ∈ posts, p.verb.onOracle = false) :
    (base.post trx posts).oracleOps = cl.oracleOps := by
  rw [Client.oracleOps_post, List.filter_eq_nil_iff.2 (by simpa using h)]
  simp [Client.oracleOps, hout]

theorem oracleOps_postLog {servers : List ℕ} :
    (base.postLog trx servers).oracleOps = base.oracleOps := by
  simp only [Client.oracleOps, Client.postLog, List.filter_append]
  refine (congrArg _ (List.filter_eq_nil_iff.2 fun wr hwr => ?_)).trans (List.append_nil _)
  obtain ⟨n, -, rfl⟩ := List.mem_map.1 hwr
  simp [Verb.onOracle]

theorem filter_startPosts : (startPosts cfg).filter (·.verb.onOracle) =
    if cfg.SNAPSHOT_ACQUISITION_TYPE = .COMPLETE ∧ cfg.SNAPSHOT_CLUSTER_MODE = false then
      [⟨.readVector, true⟩]
    else [] := by
  cases hmode : cfg.SNAPSHOT_ACQUISITION_TYPE <;> cases hcluster : cfg.SNAPSHOT_CLUSTER_MODE <;>
    simp [startPosts, snapshotPosts, Verb.onOracle, hmode, hcluster]

theorem EntersCommit.oracleOps {p : Phase} (h : EntersCommit cfg c base p cl')
    (htrx : p.trx = some trx) : cl'.oracleOps = base.oracleOps ∧ cl'.phase.isPublish = false := by
  constructor
  · obtain ⟨posts, hposts, -, -, hcommit⟩ := h.exists_posts htrx
    have hnone : (posts.map fun q : Post => (⟨⟨base.t, trx⟩, q.verb, q.signaled⟩ :
        WorkRequest)).filter (·.verb.onOracle) = [] := by
      rw [List.filter_eq_nil_iff]
      intro wr hwr
      obtain ⟨q, hq, rfl⟩ := List.mem_map.1 hwr
      simp [(hcommit q hq).1]
    rw [Client.oracleOps, hposts, List.filter_append, hnone, List.append_nil]
    rfl
  · cases h <;> rfl

theorem Stretch.vectorStep (h : Stretch cfg vec c cl trx cl' l) :
    VectorStep cfg vec c cl cl' ⟨cl'.t, trx⟩ l := by
  cases h with
  | call cart hidle hp =>
    rcases hp with rfl | rfl <;>
      exact .keep rfl rfl rfl ⟨by simp [Phase.status], by simp [Phase.status]⟩ (by simp) (by simp)
        (by simp)
  | @start _ p posts vec' hvec h =>
    have hnone : posts.filter (·.verb.onOracle) = [] :=
      List.filter_eq_nil_iff.2 fun q hq => by simp [(Verb.of_fetches (h.fetches q hq)).2.2]
    refine .start hvec ?_ h.phase.2.1
    rw [Client.oracleOps_post, List.filter_append, hnone, List.append_nil, filter_startPosts]
    split <;> rfl
  | read h =>
    exact .resume rfl (oracleOps_post_of_none rfl fun q hq =>
      (Verb.of_fetches (h.fetches q hq)).2.2) (.inl h.phase.2.1)
  | snapshot vec' hmode hposts h =>
    refine .snapshot hmode ⟨_, Client.oracleOps_post, fun wr hwr c' ts => ?_⟩ h.phase.2.1
    obtain ⟨q, hq, rfl⟩ := List.mem_map.1 hwr
    rcases hposts q (List.mem_filter.1 hq).1 with hv | ⟨id, hv⟩ <;> simp [hv]
  | stop hst _ h => exact .finish rfl rfl h.status (.inl (by simp [hst]))
  | lock h =>
    refine .acquire _ rfl h.phase.2.2.2 rfl (oracleOps_post_of_none rfl fun q hq => ?_)
      h.phase.2.1
    obtain ⟨k, oldTS, offset, b, hv⟩ := h.swaps q hq
    rw [hv]
    rfl
  | giveUp h =>
    refine .resume rfl (oracleOps_post_of_none rfl fun q hq => ?_) (.inr h.phase.2.1)
    obtain ⟨⟨k, cls, t, i, hv⟩, -⟩ := h.restores q hq
    rw [hv]
    rfl
  | abort hst _ h => exact .finish rfl rfl h.status (.inl (by simp [hst]))
  | log _ h =>
    refine .commit h.phase.1 rfl oracleOps_postLog ?_ h.phase.2
    cases h <;> rfl
  | commit htrx hbase h =>
    obtain ⟨hops, hpublish⟩ := h.oracleOps htrx
    obtain ⟨-, -, -, hvec, -⟩ := h.exists_posts htrx
    rcases hbase with ⟨hph, rfl⟩ | ⟨hwon, rfl⟩
    · exact .proceed (hph ▸ h.phase.1) hvec hops hpublish h.phase.2.1
    · exact .commit hwon.phase.1 hvec hops hpublish h.phase.2.1
  | insert hph =>
    refine .proceed (by rw [hph]; rfl) rfl (oracleOps_post_of_none rfl fun q hq => ?_) rfl rfl
    exact (NewOrderTransaction.inCommit_installPosts q hq).1
  | register h =>
    refine .proceed h.phase.1 rfl (oracleOps_post_of_none rfl fun q hq => ?_) ?_ h.phase.2.1
    · rw [List.mem_singleton.1 hq]
      cases h <;> rfl
    · cases h <;> rfl
  | publish h =>
    refine .publish h.phase.1 rfl Client.oracleOps_post ?_
    cases h <;> rfl
  | finishNewOrder hph => exact .finish rfl rfl rfl (.inr (by rw [hph]; rfl))
  | finish h hph =>
    refine .finish rfl rfl h.status (.inr ?_)
    rcases hph with ⟨cart, hph, -⟩ | ⟨cart, dID, hph, -⟩ <;> rw [hph] <;> rfl

/-- **Every step of a client's CPU is a `VectorStep`.** -/
theorem ClientStep.vectorStep (h : ClientStep cfg vec c cl cl' o l) :
    VectorStep cfg vec c cl cl' o l := by
  obtain ⟨n, m, trx, rfl, hstretch⟩ := h.stretch
  -- the counters of completions do not matter
  cases hstretch.vectorStep with
  | start hvec hops hstatus => exact .start hvec hops hstatus
  | snapshot hmode hops hstatus => exact .snapshot hmode hops hstatus
  | acquire cts hcts hlock hvec hops hstatus => exact .acquire cts hcts hlock hvec hops hstatus
  | commit hstatus hvec hops hpublish hstatus' => exact .commit hstatus hvec hops hpublish hstatus'
  | publish hstatus hvec hops hpublish => exact .publish hstatus hvec hops hpublish
  | keep hvec hops hpublish hstatus hbegin hacquire hfinish =>
    exact .keep hvec hops hpublish hstatus hbegin hacquire hfinish

end RdmaSnapshot
