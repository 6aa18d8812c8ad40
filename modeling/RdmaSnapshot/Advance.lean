import RdmaSnapshot.Stretches

/-!
# The course of a transaction

Whatever a transaction executes, it takes the same course: it reads, it locks, and then it either
gives the locks back or commits. This module classifies phases and verbs accordingly and shows that
the CPU of a client follows that course, posting only verbs of the kind that belongs to it.
-/

namespace RdmaSnapshot

open DBExecutor

variable {cfg : Config} {c : ClientID} {cl cl' : Client} {o : Owner} {l : CpuLabel}
  {trx : Trx} {p : Phase} {posts : List Post} {v : Verb} {vec : ClientID → UInt32}

/-- What a verb is for. -/
inductive VerbKind
  | read | lock | release | commit
  deriving DecidableEq

/-- Reads leave no trace outside the client; the verbs of a commit change records, the log, the
index or the oracle's vector. -/
def Verb.kind : Verb → VerbKind
  | .readHead .. | .readPointerList .. | .readOlderVersion .. | .readVersion ..
  | .readOrderLines .. | .readVector | .readVectorEntry _ => .read
  | .compareAndSwap .. => .lock
  | .writeTimestamp .. => .release
  | .writePointerList .. | .writeOlderVersion .. | .writeHead .. | .fetchAndAdd ..
  | .writeVectorEntry .. | .writeLog _ => .commit
  | .send _ req => if req.registers then .commit else .read

/-- The READs of records and rows, and the questions to the index. -/
def Verb.fetches : Verb → Bool
  | .readHead .. | .readPointerList .. | .readOlderVersion .. | .readVersion ..
  | .readOrderLines .. => true
  | .send _ req => !req.registers
  | _ => false

def Verb.onOracle : Verb → Bool
  | .readVector | .readVectorEntry _ | .writeVectorEntry _ _ => true
  | _ => false

/-- The queue pairs a transaction uses: the oracle's and those to the servers of the warehouses in
its cart. -/
def Trx.lanes (cfg : Config) : Trx → List QueuePair
  | .newOrder cart =>
    .oracle :: cfg.qpOf cart.wID :: cart.items.map fun item => cfg.qpOf item.OL_SUPPLY_W_ID
  | .payment cart => [.oracle, cfg.qpOf cart.wID, cfg.qpOf cart.residentWarehouseID]
  | .delivery cart _ => [.oracle, cfg.qpOf cart.wID]

/-- How a request is known to be over when a poll loop is: its result is waited for; it is
signaled; it is on a queue pair of its transaction; or it changes a record its transaction holds,
whose queue pair is one of the transaction's as well. -/
inductive Covered (cfg : Config) (trx : Trx) (v : Verb) (signaled : Bool) : Prop
  | lands (h : v.lands = true)
  | signaled (h : signaled = true)
  | lane (h : v.qp cfg ∈ trx.lanes cfg)
  | record (k : Key) (hk : k.versioned = true) (h : v.mutates k = true)

def OfKind (cfg : Config) (trx : Trx) (kind : VerbKind) (posts : List Post) : Prop :=
  ∀ p ∈ posts, p.verb.kind = kind ∧ Covered cfg trx p.verb p.signaled

/-- The course of a transaction: the steps of its CPU, with what they post. -/
inductive Advance (cfg : Config) (trx : Trx) : Status → CpuLabel → List Post → Status → Prop
  /-- A Delivery is called; its iterations have yet to start. -/
  | call : Advance cfg trx .idle .resume [] .idle
  | start {posts : List Post} (h : OfKind cfg trx .read posts) :
      Advance cfg trx .idle .begin posts .reading
  | read {posts : List Post} (h : OfKind cfg trx .read posts) :
      Advance cfg trx .reading .resume posts .reading
  /-- The transaction ends without having locked anything. -/
  | stop (outcome : Outcome) : Advance cfg trx .reading (.finish outcome) [] .idle
  | lock {posts : List Post} (cts : UInt32) (h : OfKind cfg trx .lock posts) :
      Advance cfg trx .reading (.acquire cts) posts .locking
  | giveUp {posts : List Post} (h : OfKind cfg trx .release posts) :
      Advance cfg trx .locking .resume posts .reverting
  | abort : Advance cfg trx .reverting (.finish (.ABORTED .UNSUCCESSFUL_LOCK)) [] .idle
  | commit {posts : List Post} (h : OfKind cfg trx .commit posts) :
      Advance cfg trx .locking .resume posts .committing
  | proceed {posts : List Post} (h : OfKind cfg trx .commit posts) :
      Advance cfg trx .committing .resume posts .committing
  | finish : Advance cfg trx .committing (.finish .COMMITTED) [] .idle

namespace Advance

theorem reading_of {st : Status}
    (h : Advance cfg trx st l posts .reading) : l = .begin ∨ st = .reading := by
  cases h <;> simp

theorem idle_of_begin {st st' : Status}
    (h : Advance cfg trx st .begin posts st') : st = .idle := by
  cases h
  rfl

theorem to_idle {st : Status}
    (h : Advance cfg trx st l posts .idle) : st = .idle ∨ st = .reading ∨
      (st = .reverting ∧ ∃ reason, l = .finish (.ABORTED reason)) ∨
      (st = .committing ∧ l = .finish .COMMITTED) := by
  cases h <;> simp

theorem reading_of_acquire {st st' : Status} {cts : UInt32}
    (h : Advance cfg trx st (.acquire cts) posts st') : st = .reading := by
  cases h
  rfl

theorem to_locking_of_acquire {st st' : Status} {cts : UInt32}
    (h : Advance cfg trx st (.acquire cts) posts st') : st' = .locking := by
  cases h
  rfl

end Advance

/-- A step of a client's CPU from `cl` to `cl'` that posts `posts` for transaction `o`. -/
structure AdvanceBy (cfg : Config) (cl cl' : Client) (o : Owner) (l : CpuLabel)
    (posts : List Post) : Prop where
  advance : Advance cfg o.trx cl.phase.status l posts cl'.phase.status
  outstanding : cl'.outstanding = cl.outstanding ++ posts.map fun p => ⟨o, p.verb, p.signaled⟩
  owner : o.t = cl'.t
  number : cl'.t = if l = .begin then cl.t + 1 else cl.t
  trx : cl'.phase.status ≠ .idle → cl'.phase.trx = some o.trx

section

variable {o : Owner} (h : AdvanceBy cfg cl cl' o l posts)

include h

/-- The step did not begin a transaction that was there before it. -/
theorem AdvanceBy.not_begin {n : ℕ} (hle : n ≤ cl.t) (hn : n = cl'.t) : l ≠ .begin ∧ n = cl.t := by
  have hnumber := h.number
  split at hnumber
  · omega
  · rename_i hbegin
    exact ⟨hbegin, hn.trans hnumber⟩

theorem AdvanceBy.of_idle (hbegin : l ≠ .begin) (hidle : cl.phase.status = .idle) :
    posts = [] ∧ cl'.phase.status = .idle := by
  have hstep := h.advance
  rw [hidle] at hstep
  generalize cl'.phase.status = st' at hstep ⊢
  cases hstep with
  | call => exact ⟨rfl, rfl⟩
  | start => exact absurd rfl hbegin

end

/-- The step from `cl` to `cl'` is one of the course of transaction `o`. -/
def Advances (cfg : Config) (cl cl' : Client) (o : Owner) (l : CpuLabel) : Prop :=
  ∃ posts, AdvanceBy cfg cl cl' o l posts

/-! ## What is posted -/

theorem Verb.of_fetches (h : v.fetches = true) :
    v.kind = .read ∧ v.lands = true ∧ v.onOracle = false := by
  cases v with
  | send n req =>
    have hreq : req.registers = false := by simpa [fetches] using h
    simp [kind, lands, onOracle, hreq]
  | readHead | readPointerList | readOlderVersion | readVersion | readOrderLines =>
    exact ⟨rfl, rfl, rfl⟩
  | _ => cases h

theorem fetches_retrieveOlderVersion (k : Key) (ind : ℕ) (ts : Timestamp) :
    (retrieveOlderVersion cfg k ind ts true).verb.fetches = true := by
  rcases retrieveOlderVersion_cases cfg k ind ts with ⟨slot, heq⟩ | heq <;> rw [heq] <;> rfl

theorem Starts.fetches {ph : Phase} (h : Starts cfg ph trx p posts) :
    ∀ q ∈ posts, q.verb.fetches = true := by
  intro q hq
  cases h with
  | newOrder cart =>
    rw [NewOrderTransaction.readSetPosts_eq, List.mem_append] at hq
    rcases hq with hq | hq
    · simp only [List.mem_cons, List.not_mem_nil, or_false] at hq
      rcases hq with rfl | rfl | rfl | rfl | rfl | rfl <;> rfl
    · obtain ⟨x, -, hq⟩ := List.mem_flatMap.1 hq
      simp only [NewOrderTransaction.linePosts, List.mem_cons, List.not_mem_nil, or_false] at hq
      rcases hq with rfl | rfl | rfl <;> rfl
  | payment cart =>
    simp only [PaymentTransaction.readSetPosts, List.mem_cons, List.not_mem_nil, or_false] at hq
    rcases hq with rfl | rfl | rfl | rfl <;> rfl
  | delivery cart dID =>
    rw [List.mem_singleton.1 hq]
    rfl

theorem Reads.fetches (h : Reads cfg c cl trx p posts) : ∀ q ∈ posts, q.verb.fetches = true := by
  intro q hq
  cases h with
  | newOrder =>
    obtain ⟨k, ind, ts, rfl, -⟩ := NewOrderTransaction.exists_of_mem_checkVersions hq
    exact fetches_retrieveOlderVersion k ind ts
  | lookup =>
    rw [List.mem_singleton.1 hq]
    rfl
  | payment =>
    rcases List.mem_pair.1 hq with rfl | rfl <;> rfl
  | orderRows =>
    simp only [DeliveryTransaction.orderRowsPosts, List.mem_cons, List.not_mem_nil, or_false] at hq
    rcases hq with rfl | rfl | rfl <;> rfl
  | delivery =>
    rcases List.mem_pair.1 hq with rfl | rfl <;> rfl
  | olderVersion _ _ _ hfetch =>
    obtain ⟨ind, ts, rfl⟩ := mem_fetchOlderVersion hfetch hq
    exact fetches_retrieveOlderVersion _ ind ts

theorem Locks.swaps (h : Locks cfg c cl trx p posts) : ∀ q ∈ posts, ∃ k oldTS offset b,
    q.verb = .compareAndSwap k oldTS
      (.setAll false true offset c (cl.newCommitTimestamp cfg c)) b := by
  intro q hq
  cases h with
  | newOrder =>
    rcases List.mem_append.1 hq with hq | hq
    · split at hq
      · cases hq
      · rw [List.mem_singleton.1 hq]
        exact ⟨_, _, _, _, rfl⟩
    · obtain ⟨x, -, rfl⟩ := List.mem_map.1 hq
      exact ⟨_, _, _, _, rfl⟩
  | payment =>
    simp only [PaymentTransaction.lockPosts, List.mem_cons, List.not_mem_nil, or_false] at hq
    rcases hq with rfl | rfl | rfl <;> exact ⟨_, _, _, _, rfl⟩
  | delivery =>
    simp only [DeliveryTransaction.lockPosts, DeliveryTransaction.rowLocks, List.mem_append,
      List.mem_cons, List.not_mem_nil, or_false, List.mem_map] at hq
    rcases hq with ((rfl | rfl) | ⟨n, -, rfl⟩) | rfl <;> exact ⟨_, _, _, _, rfl⟩

theorem GivesUp.restores (h : GivesUp cfg cl trx p posts) : ∀ q ∈ posts,
    (∃ k cls t i, q.verb = .writeTimestamp k ((cl.localMemory cls).head t i).writeTimestamp) ∧
      (q.signaled = true ∨ q.verb.qp cfg ∈ trx.lanes cfg) := by
  intro q hq
  cases h with
  | newOrder =>
    rcases List.mem_append.1 hq with hq | hq
    · split at hq
      · rw [List.mem_singleton.1 hq]
        exact ⟨⟨_, .newOrder, .district, 0, rfl⟩, .inl rfl⟩
      · cases hq
    · obtain ⟨x, -, rfl⟩ := List.mem_map.1 hq
      exact ⟨⟨_, .newOrder, .stock, _, rfl⟩, .inl rfl⟩
  | payment =>
    simp only [PaymentTransaction.revertPosts, List.mem_append] at hq
    rcases hq with (hq | hq) | hq <;> split at hq <;>
      first
      | cases hq; done
      | rw [List.mem_singleton.1 hq]
        exact ⟨⟨_, .payment, _, 0, rfl⟩, .inl rfl⟩
  | @delivery cart dID cID cts hph =>
    have hhome : cfg.qpOf cart.wID ∈ (Trx.delivery cart dID).lanes cfg := by simp [Trx.lanes]
    rw [DeliveryTransaction.revertPosts] at hq
    simp only [DeliveryTransaction.rowReverts, List.mem_append, List.mem_map] at hq
    rcases hq with ((hq | hq) | ⟨n, -, rfl⟩) | hq
    · split at hq
      · rw [List.mem_singleton.1 hq]
        exact ⟨⟨_, .delivery, .order, 0, rfl⟩, .inr hhome⟩
      · cases hq
    · split at hq
      · rw [List.mem_singleton.1 hq]
        exact ⟨⟨_, .delivery, .newOrder, 0, rfl⟩, .inr hhome⟩
      · cases hq
    · exact ⟨⟨_, .delivery, .orderLine, _, rfl⟩, .inr hhome⟩
    · split at hq
      · rw [List.mem_singleton.1 hq]
        exact ⟨⟨_, .delivery, .customer, 0, rfl⟩, .inl rfl⟩
      · cases hq

/-- The WRITEs of a commit. -/
def InCommit (cfg : Config) (trx : Trx) (posts : List Post) : Prop :=
  ∀ q ∈ posts, q.verb.onOracle = false ∧ q.verb.kind = .commit ∧
    Covered cfg trx q.verb q.signaled

theorem InCommit.append {posts' : List Post} (h : InCommit cfg trx posts)
    (h' : InCommit cfg trx posts') : InCommit cfg trx (posts ++ posts') := by
  intro q hq
  rcases List.mem_append.1 hq with hq | hq
  · exact h q hq
  · exact h' q hq

namespace NewOrderTransaction

variable {cart : NewOrderCart} {cts assignedOID : UInt32}

theorem inCommit_appendPosts : InCommit cfg (.newOrder cart) (appendPosts cfg cl cart) := by
  intro q hq
  rcases List.mem_append.1 hq with hq | hq
  · split at hq
    · cases hq
    · rcases List.mem_pair.1 hq with rfl | rfl <;>
        exact ⟨rfl, rfl, .record (.district _ _) rfl (decide_eq_true rfl)⟩
  · obtain ⟨x, -, hq⟩ := List.mem_flatMap.1 hq
    rcases List.mem_pair.1 hq with rfl | rfl <;>
      exact ⟨rfl, rfl, .record (.stock _ _) rfl (decide_eq_true rfl)⟩

theorem inCommit_installPosts :
    InCommit cfg (.newOrder cart) (installPosts cfg c cl cart cts assignedOID) := by
  have hhome : cfg.qpOf cart.wID ∈ (Trx.newOrder cart).lanes cfg := by simp [Trx.lanes]
  intro q hq
  rw [installPosts_eq, List.mem_append] at hq
  rcases hq with hq | hq
  · rcases List.mem_pair.1 hq with rfl | rfl <;> exact ⟨rfl, rfl, .lane hhome⟩
  · obtain ⟨x, -, hq⟩ := List.mem_flatMap.1 hq
    rcases List.mem_pair.1 hq with rfl | rfl
    · exact ⟨rfl, rfl, .signaled rfl⟩
    · exact ⟨rfl, rfl, .lane hhome⟩

end NewOrderTransaction

/-- All WRITEs of a Payment but the one of the History row are on the records it holds. -/
theorem PaymentTransaction.inCommit_posts {cart : PaymentCart} {cID cts : UInt32} :
    InCommit cfg (.payment cart) (appendPosts cfg cl ++ installPosts cfg c cl cart cID cts) := by
  intro q hq
  simp only [appendPosts, installPosts, List.mem_append, List.mem_cons, List.not_mem_nil,
    or_false] at hq
  rcases hq with (rfl | rfl | rfl | rfl | rfl | rfl) | rfl | rfl | rfl | rfl
  · exact ⟨rfl, rfl, .record (.warehouse _) rfl (decide_eq_true rfl)⟩
  · exact ⟨rfl, rfl, .record (.warehouse _) rfl (decide_eq_true rfl)⟩
  · exact ⟨rfl, rfl, .record (.district _ _) rfl (decide_eq_true rfl)⟩
  · exact ⟨rfl, rfl, .record (.district _ _) rfl (decide_eq_true rfl)⟩
  · exact ⟨rfl, rfl, .record (customerKey _) rfl (decide_eq_true rfl)⟩
  · exact ⟨rfl, rfl, .record (customerKey _) rfl (decide_eq_true rfl)⟩
  · exact ⟨rfl, rfl, .record (.warehouse _) rfl (decide_eq_true rfl)⟩
  · exact ⟨rfl, rfl, .record (.district _ _) rfl (decide_eq_true rfl)⟩
  · exact ⟨rfl, rfl, .record (customerKey _) rfl (decide_eq_true rfl)⟩
  · exact ⟨rfl, rfl, .signaled rfl⟩

theorem DeliveryTransaction.inCommit_installPosts {cart : DeliveryCart} {dID : UInt8}
    {cts : UInt32} : InCommit cfg (.delivery cart dID) (installPosts cfg c cl cart cts) := by
  have hhome : cfg.qpOf cart.wID ∈ (Trx.delivery cart dID).lanes cfg := by simp [Trx.lanes]
  rw [installPosts]
  intro q hq
  simp only [appendPosts, rowPosts, List.mem_append, List.mem_cons, List.not_mem_nil,
    or_false, List.mem_map] at hq
  rcases hq with ((rfl | rfl) | (rfl | rfl) | ⟨n, -, rfl⟩) | rfl
  · exact ⟨rfl, rfl, .record (customerKey _) rfl (decide_eq_true rfl)⟩
  · exact ⟨rfl, rfl, .record (customerKey _) rfl (decide_eq_true rfl)⟩
  · exact ⟨rfl, rfl, .lane hhome⟩
  · exact ⟨rfl, rfl, .lane hhome⟩
  · exact ⟨rfl, rfl, .lane hhome⟩
  · exact ⟨rfl, rfl, .signaled rfl⟩

theorem EntersCommit.exists_posts (h : EntersCommit cfg c cl p cl') (htrx : p.trx = some trx) :
    ∃ posts, cl'.outstanding = cl.outstanding ++
        posts.map (fun q => ⟨⟨cl.t, trx⟩, q.verb, q.signaled⟩) ∧
      cl'.t = cl.t ∧ cl'.localTimestampVector = cl.localTimestampVector ∧
      InCommit cfg trx posts := by
  cases h with
  | append cart cts =>
    cases htrx
    refine ⟨_, rfl, rfl, rfl, NewOrderTransaction.inCommit_appendPosts.append fun q hq => ?_⟩
    rw [List.mem_singleton.1 hq]
    exact ⟨rfl, rfl, .lands rfl⟩
  | newOrder cart cts =>
    cases htrx
    refine ⟨NewOrderTransaction.appendPosts cfg cl cart ++ ([updateDistrict
      (NewOrderTransaction.newDistrictV cfg c cts (NewOrderTransaction.districtV cl)) true] ++
      NewOrderTransaction.installPosts cfg c (NewOrderTransaction.districtUpdated cfg c cl cart cts)
        cart cts (NewOrderTransaction.districtV cl).body.D_NEXT_O_ID.toUInt32), ?_, ?_, ?_,
      NewOrderTransaction.inCommit_appendPosts.append (InCommit.append (fun q hq => ?_)
        NewOrderTransaction.inCommit_installPosts)⟩
    · simp [NewOrderTransaction.installStep, NewOrderTransaction.districtUpdated,
        NewOrderTransaction.appended, Client.post, Client.setLocal]
    · simp only [NewOrderTransaction.installStep, NewOrderTransaction.districtUpdated,
        NewOrderTransaction.appended, Client.post, Client.setLocal]
    · simp only [NewOrderTransaction.installStep, NewOrderTransaction.districtUpdated,
        NewOrderTransaction.appended, Client.post, Client.setLocal]
    · rw [List.mem_singleton.1 hq]
      exact ⟨rfl, rfl, .signaled rfl⟩
  | payment cart cID cts =>
    cases htrx
    exact ⟨_, rfl, rfl, rfl, PaymentTransaction.inCommit_posts⟩
  | delivery cart dID cID cts =>
    cases htrx
    exact ⟨_, rfl, rfl, rfl, DeliveryTransaction.inCommit_installPosts⟩

/-! ## Every step is one of the course -/

theorem advances_post {base : Client}
    (hadv : Advance cfg trx cl.phase.status l posts base.phase.status)
    (htrx : base.phase.trx = some trx) (hout : base.outstanding = cl.outstanding)
    (hl : base.t = if l = .begin then cl.t + 1 else cl.t) :
    Advances cfg cl (base.post trx posts) ⟨base.t, trx⟩ l :=
  ⟨posts, hadv, by simp [Client.post, hout], rfl, hl, fun _ => htrx⟩

theorem advances_nil (hadv : Advance cfg trx cl.phase.status l [] .idle)
    (hidle : cl'.phase.status = .idle) (hout : cl'.outstanding = cl.outstanding)
    (hl : l ≠ .begin) (ht : cl'.t = cl.t) : Advances cfg cl cl' ⟨cl'.t, trx⟩ l :=
  ⟨[], by rw [hidle]; exact hadv, by simp [hout], rfl, by rw [if_neg hl, ht],
    fun hne => absurd hidle hne⟩

theorem ofKind_of_fetches (h : ∀ q ∈ posts, q.verb.fetches = true) :
    OfKind cfg trx .read posts :=
  fun q hq => ⟨(Verb.of_fetches (h q hq)).1, .lands (Verb.of_fetches (h q hq)).2.1⟩

theorem EntersCommit.advances {base : Client} (h : EntersCommit cfg c base p cl')
    (htrx : p.trx = some trx) (hout : base.outstanding = cl.outstanding) (ht : base.t = cl.t)
    (hcl : cl.phase.status = .locking ∨ cl.phase.status = .committing) :
    Advances cfg cl cl' ⟨cl'.t, trx⟩ .resume := by
  obtain ⟨posts, hposts, ht', -, hcommit⟩ := h.exists_posts htrx
  obtain ⟨-, hst, htrx'⟩ := h.phase
  have hkind : OfKind cfg trx .commit posts := fun q hq => (hcommit q hq).2
  refine ⟨posts, ?_, by rw [hposts, hout, ht'], rfl, ht'.trans ht, fun _ => htrx'.trans htrx⟩
  rw [hst]
  rcases hcl with hcl | hcl <;> rw [hcl]
  · exact .commit hkind
  · exact .proceed hkind

theorem Stretch.advances (h : Stretch cfg vec c cl trx cl' l) :
    Advances cfg cl cl' ⟨cl'.t, trx⟩ l := by
  have hsingle : ∀ {post : Post}, post.verb.kind = .commit → post.signaled = true →
      OfKind cfg trx .commit [post] := by
    intro post hkind hsig q hq
    rw [List.mem_singleton.1 hq]
    exact ⟨hkind, .signaled hsig⟩
  cases h with
  | call cart hidle hp =>
    refine advances_nil (by rw [hidle]; exact .call) ?_ rfl (by simp) rfl
    rcases hp with rfl | rfl <;> rfl
  | start _ h =>
    obtain ⟨hst, hst', htrx⟩ := h.phase
    refine advances_post ?_ htrx rfl rfl
    rw [hst, hst']
    refine .start fun q hq => ?_
    rcases List.mem_append.1 hq with hq | hq
    · rw [mem_startPosts hq]
      exact ⟨rfl, .lands rfl⟩
    · exact ofKind_of_fetches h.fetches q hq
  | read h =>
    obtain ⟨hst, hst', htrx⟩ := h.phase
    refine advances_post ?_ htrx rfl rfl
    rw [hst, hst']
    exact .read (ofKind_of_fetches h.fetches)
  | snapshot vec' _ hposts h =>
    obtain ⟨hst, hst', htrx⟩ := h.phase
    refine advances_post ?_ htrx rfl rfl
    rw [hst, hst']
    refine .read fun q hq => ?_
    rcases hposts q hq with hv | ⟨id, hv⟩ <;> rw [hv] <;> exact ⟨rfl, .lands rfl⟩
  | stop hst _ h => exact advances_nil (by rw [hst]; exact .stop _) h.status rfl (by simp) rfl
  | lock h =>
    obtain ⟨hst, hst', htrx, -⟩ := h.phase
    refine advances_post ?_ htrx rfl rfl
    rw [hst, hst']
    refine .lock _ fun q hq => ?_
    obtain ⟨k, oldTS, offset, b, hv⟩ := h.swaps q hq
    rw [hv]
    exact ⟨rfl, .lands rfl⟩
  | giveUp h =>
    obtain ⟨hst, hst', htrx⟩ := h.phase
    refine advances_post ?_ htrx rfl rfl
    rw [hst, hst']
    refine .giveUp fun q hq => ?_
    obtain ⟨⟨k, cls, t, i, hv⟩, hcov⟩ := h.restores q hq
    exact ⟨by rw [hv]; rfl, hcov.elim .signaled .lane⟩
  | abort hst _ h => exact advances_nil (by rw [hst]; exact .abort) h.status rfl (by simp) rfl
  | @log _ p htrx h =>
    obtain ⟨hst, hst'⟩ := h.phase
    have hadv : Advance cfg trx cl.phase.status .resume
        ((logServers cfg c).map fun n => ⟨.writeLog n, true⟩) p.status := by
      rw [hst, hst']
      refine .commit fun q hq => ?_
      obtain ⟨n, -, rfl⟩ := List.mem_map.1 hq
      exact ⟨rfl, .signaled rfl⟩
    exact ⟨_, hadv, by simp [Client.postLog]; rfl, rfl, rfl, fun _ => htrx⟩
  | commit htrx hbase h =>
    rcases hbase with ⟨hph, rfl⟩ | ⟨hwon, rfl⟩
    · exact h.advances htrx rfl rfl (.inr (hph ▸ h.phase.1))
    · exact h.advances htrx rfl rfl (.inl hwon.phase.1)
  | insert hph =>
    refine advances_post ?_ rfl rfl rfl
    rw [hph]
    exact .proceed fun q hq => (NewOrderTransaction.inCommit_installPosts q hq).2
  | register h =>
    obtain ⟨hst, hst', htrx⟩ := h.phase
    refine advances_post ?_ htrx rfl rfl
    rw [hst, hst']
    cases h <;> exact .proceed (hsingle rfl rfl)
  | publish h =>
    obtain ⟨hst, hst', htrx⟩ := h.phase
    refine advances_post ?_ htrx rfl rfl
    rw [hst, hst']
    exact .proceed (hsingle rfl rfl)
  | finishNewOrder hph =>
    exact advances_nil (by rw [hph]; exact .finish) rfl rfl (by simp) rfl
  | finish h hph =>
    refine advances_nil ?_ h.status rfl (by simp) rfl
    rcases hph with ⟨cart, hph, -⟩ | ⟨cart, dID, hph, -⟩ <;> rw [hph] <;> exact .finish

/-- **Every step of a client's CPU is a step of the course.** -/
theorem ClientStep.advance (h : ClientStep cfg vec c cl cl' o l) : Advances cfg cl cl' o l := by
  obtain ⟨n, m, trx, rfl, hstretch⟩ := h.stretch
  obtain ⟨posts, hadv⟩ := hstretch.advances
  exact ⟨posts, hadv.advance, hadv.outstanding, hadv.owner, hadv.number, hadv.trx⟩

end RdmaSnapshot
