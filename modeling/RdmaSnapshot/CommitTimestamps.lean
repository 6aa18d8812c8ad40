import RdmaSnapshot.Publication
import RdmaSnapshot.Populate

/-!
# The order of commit timestamps

Commit timestamps are unique, belong to the client they are congruent to, and grow with every
transaction of a client. The word in front of an unlocked record and the entries of the oracle's
vector are always such timestamps, the former of transactions that committed.
-/

namespace RdmaSnapshot

variable {cfg : Config} {s s' : State} {c c' : ClientID} {cl cl' : Client} {o o' : Owner}
  {l : CpuLabel} {k : Key} {cts : UInt32} {i g : ℕ} {wr : WorkRequest} {answer : IndexAnswer}
  {vec : ClientID → UInt32} {t : Ticket} {stage : Stage}

/-- Transaction `o` of client `c` has committed, or it holds all its locks and is writing its
updates. -/
def Committed (s : State) (c : ClientID) (cl : Client) (o : Owner) : Prop :=
  Event.cpu c o (.finish .COMMITTED) ∈ s.trace ∨
    (cl.Executes o ∧ cl.phase.status = .committing)

theorem Committed.advance {posts : List Post} (h : Committed s c cl o')
    (hadv : AdvanceBy cfg cl cl' o l posts)
    (htrx : cl.phase.status ≠ .idle → cl.phase.trx = some o.trx) :
    Committed (s.setClient c cl' o l) c cl' o' := by
  rcases h with hmem | ⟨hex, hst⟩
  · exact .inl (List.mem_cons_of_mem _ hmem)
  · obtain rfl := hex.unique (hadv.executes_before htrx (by simp [hst]))
    have hstep := hadv.advance
    rw [hst] at hstep
    generalize hst' : cl'.phase.status = st' at hstep
    cases hstep with
    | proceed => exact .inr ⟨hadv.executes (by simp [hst']), hst'⟩
    | finish => exact .inl List.mem_cons_self

/-- A transaction that commits after the step did so before, or it locked nothing, or it has just
found that it holds all its locks. -/
theorem Committed.of_setClient {posts : List Post}
    (hcommit : Committed (s.setClient c cl' o l) c cl' o') (hadv : AdvanceBy cfg cl cl' o l posts)
    (htrx : cl.phase.status ≠ .idle → cl.phase.trx = some o.trx) :
    Committed s c cl o' ∨ (o' = o ∧ cl.Executes o ∧ (cl.phase.status = .reading ∨
      (cl.phase.status = .locking ∧ cl'.phase.status = .committing))) := by
  have hadvance := hadv.advance
  rcases hcommit with hmem | ⟨hex, hst'⟩
  · rcases List.mem_cons.1 hmem with hev | hmem
    · cases hev
      generalize hst : cl.phase.status = st, cl'.phase.status = st' at hadvance
      cases hadvance with
      | stop => exact .inr ⟨rfl, hadv.executes_before htrx (by simp [hst]), .inl rfl⟩
      | finish => exact .inl (.inr ⟨hadv.executes_before htrx (by simp [hst]), hst⟩)
    · exact .inl (.inl hmem)
  · obtain rfl := hex.unique (hadv.executes (by simp [hst']))
    rw [hst'] at hadvance
    generalize hst : cl.phase.status = st at hadvance
    have hex' : st ≠ .idle → cl.Executes o' := by
      rintro hne
      exact hadv.executes_before htrx (by rwa [hst])
    cases hadvance with
    | commit => exact .inr ⟨rfl, hex' nofun, .inr ⟨rfl, hst'⟩⟩
    | proceed => exact .inl (.inr ⟨hex' nofun, hst⟩)

theorem Committed.of_unmoved (h : Committed s' c (s'.clients c) o) (hu : Unmoved s s' c) :
    Committed s c (s.clients c) o := by
  refine h.imp (hu.events _ _) fun ⟨⟨htrx, hnumber⟩, hst⟩ => ?_
  rw [hu.phase] at htrx hst
  exact ⟨⟨htrx, hnumber.trans hu.number⟩, hst⟩

theorem Committed.unmoved (h : Committed s c (s.clients c) o) (hu : Unmoved s s' c) :
    Committed s' c (s'.clients c) o := by
  refine h.imp (fun hmem => hu.trace hmem) fun ⟨⟨htrx, hnumber⟩, hst⟩ => ?_
  rw [← hu.phase] at htrx hst
  exact ⟨⟨htrx, hnumber.trans hu.number.symm⟩, hst⟩

/-- Whatever changes records, the log, the index or the vector was posted by a transaction that
commits. -/
def CommitsPosted (s : State) (c : ClientID) (cl : Client) : Prop :=
  ∀ wr, HasPosted s c cl wr → wr.verb.kind = .commit → Committed s c cl wr.owner

theorem CommitsPosted.advance {posts : List Post} (h : CommitsPosted s c cl)
    (hadv : AdvanceBy cfg cl cl' o l posts)
    (htrx : cl.phase.status ≠ .idle → cl.phase.trx = some o.trx) :
    CommitsPosted (s.setClient c cl' o l) c cl' := by
  intro wr hwr hkind
  rcases hadv.hasPosted.1 hwr with hwr | ⟨p, hp, rfl⟩
  · exact (h wr hwr hkind).advance hadv htrx
  · have hst : cl'.phase.status = .committing := by
      have hstep := hadv.advance
      generalize cl.phase.status = st, cl'.phase.status = st' at hstep
      cases hstep with
      | call | stop | abort | finish => cases hp
      | start hof | read hof | lock _ hof | giveUp hof =>
        have hof := (hof p hp).1
        simp [hof] at hkind
      | commit | proceed => rfl
    exact .inr ⟨hadv.executes (by simp [hst]), hst⟩

def Installed (s : State) (k : Key) (v : Version (Row k.table)) (o : Owner) : Prop :=
  HasAcquired s v.writeTimestamp.clientID o v.writeTimestamp.timestamp ∧
    ∃ signaled reply,
      Event.effect v.writeTimestamp.clientID ⟨o, .writeHead k v, signaled⟩ reply ∈ s.trace

/-- What the words of the versions of a record and of its holder say. -/
structure Signed (s : State) (k : Key) : Prop where
  holder : ∀ t stage, s.holder k = some (t, stage) →
    HasAcquired s t.client t.owner t.word.timestamp
  versions : ∀ v ∈ s.versions k, v.writeTimestamp.writer = (0, 0) ∨ ∃ o, Installed s k v o

theorem HasAcquired.mono (h : HasAcquired s c o cts) (htrace : s.trace ⊆ s'.trace) :
    HasAcquired s' c o cts := htrace h

theorem Installed.mono {v : Version (Row k.table)} (h : Installed s k v o)
    (htrace : s.trace ⊆ s'.trace) : Installed s' k v o := by
  obtain ⟨ha, signaled, reply, hmem⟩ := h
  exact ⟨ha.mono htrace, signaled, reply, htrace hmem⟩

theorem Signed.congr (h : Signed s k) (hholder : s'.holder k = s.holder k)
    (hversions : s'.versions k = s.versions k) (htrace : s.trace ⊆ s'.trace) : Signed s' k where
  holder := by
    rw [hholder]
    exact fun t stage hh => (h.holder t stage hh).mono htrace
  versions := by
    rw [hversions]
    exact fun v hv => (h.versions v hv).imp_right fun ⟨o, ho⟩ => ⟨o, ho.mono htrace⟩

theorem Phase.status_of_isLocks {ph : Phase} (h : ph.isLocks = true) : ph.status = .locking := by
  cases ph with
  | idle => cases h
  | newOrder _ pc | payment _ pc | delivery _ _ pc => cases pc <;> first | rfl | cases h

theorem ClientOK.exists_of_compareAndSwap (h : ClientOK cfg s c cl) (hwr : wr ∈ cl.outstanding)
    {oldTS newTS : Timestamp} {b : ℕ} (hv : wr.verb = .compareAndSwap k oldTS newTS b)
    (hk : k.versioned = true) :
    cl.Executes wr.owner ∧ cl.phase.status = .locking ∧ (k, b) ∈ cl.phase.writeSet cfg ∧
      oldTS = (cl.copy k b).writeTimestamp ∧ newTS = lockTimestamp oldTS c cl.phase.lockCts := by
  obtain ⟨trx, htrx, howner, hmem⟩ := h.writeSet_of_compareAndSwap hwr hv hk
  have hops : (wr.owner, wr.verb) ∈ cl.ops k := by
    rw [Client.ops_eq_map_filter]
    exact List.mem_map.2 ⟨wr, List.mem_filter.2 ⟨hwr, by simp [hv, Verb.mutates]⟩, rfl⟩
  refine ⟨⟨?_, ?_⟩, Phase.status_of_isLocks (Phase.isLocks_of_mem_writeSet hmem), hmem, ?_⟩
  · rw [howner, htrx]
  · rw [howner]
  · cases h.locking trx htrx _ hmem with
    | pending hpend =>
      rw [hpend, hv] at hops
      obtain ⟨-, hverb⟩ := Prod.mk.inj (List.mem_singleton.1 hops)
      cases hverb
      exact ⟨rfl, rfl⟩
    | acquired hnone | refused hnone => simp [hnone] at hops

theorem ClientOK.hasAcquired_of_compareAndSwap (h : ClientOK cfg s c cl) (hok : VectorOK cfg s c cl)
    (hwr : wr ∈ cl.outstanding) {oldTS newTS : Timestamp} {b : ℕ}
    (hv : wr.verb = .compareAndSwap k oldTS newTS b) (hk : k.versioned = true) :
    HasAcquired s c wr.owner newTS.timestamp := by
  obtain ⟨hex, hlocking, -, -, rfl⟩ := h.exists_of_compareAndSwap hwr hv hk
  exact hok.locking hlocking _ hex

theorem Signed.effect (h : Signed s k) (hk : k.versioned = true) (hinv : Inv cfg s)
    (hok : VectorOK cfg s c (s.clients c)) (ho : (s.clients c).Oldest cfg i wr) :
    Signed (s.effect c i wr answer) k := by
  have hwr := List.mem_of_getElem? ho.getElem
  have hrs := hinv.recordStep ho hk
  have htrace : s.trace ⊆ (s.effect c i wr answer).trace := List.subset_cons_self _ _
  constructor
  · intro t stage hh
    rcases hrs.holder_eq_some hh with ⟨stage', hold⟩ | ⟨oldTS, b, hv, rfl, howner⟩
    · exact (h.holder t stage' hold).mono htrace
    · rw [howner]
      exact ((hinv.clients _).hasAcquired_of_compareAndSwap hok hwr hv hk).mono htrace
  · intro v hv
    have hmono : v ∈ s.versions k → v.writeTimestamp.writer = (0, 0) ∨
        ∃ o, Installed (s.effect c i wr answer) k v o :=
      fun hv => (h.versions v hv).imp_right fun ⟨o, ho⟩ => ⟨o, ho.mono htrace⟩
    by_cases hverb : ∃ u, wr.verb = .writeHead k u
    · obtain ⟨u, hverb⟩ := hverb
      rw [State.versions_effect_writeHead hverb] at hv
      rcases List.mem_cons.1 hv with rfl | hv
      · right
        cases hrs with
        | installed hv' hh ht howner _ hb =>
          rw [hverb] at hv'
          cases hv'
          obtain ⟨offset, hword⟩ := hb.writeTimestamp_eq
          have ha := h.holder _ _ hh
          refine ⟨wr.owner, ?_, wr.signaled, wr.verb.reply s.mem, ?_⟩
          · rw [hword, Timestamp.setAll_clientID, Timestamp.setAll_timestamp, ← howner]
            exact ha.mono htrace
          · rw [hword, Timestamp.setAll_clientID, ht, ← hverb]
            exact List.mem_cons_self
        | other hm => simp [hverb, Verb.mutates] at hm
        | refused hv' | acquired hv' | reverted hv' | pushed hv' | saved hv' =>
          rw [hverb] at hv'
          cases hv'
      · exact hmono hv
    · rw [State.versions_effect_of_ne fun u hu => hverb ⟨u, hu⟩] at hv
      exact hmono hv

/-- The versions and the postings of a run. -/
structure Commits (cfg : Config) (s : State) : Prop where
  posted : ∀ c, CommitsPosted s c (s.clients c)
  signed : ∀ k, k.versioned = true → Signed s k

theorem Init.commits (h : Init cfg s) : Commits cfg s where
  posted := by
    intro c wr hwr
    simp [HasPosted, (h.clients c).outstanding, h.trace] at hwr
  signed := by
    intro k hk
    refine ⟨by simp [h.holder], fun v hv => .inl ?_⟩
    rw [h.versions, List.mem_singleton] at hv
    rw [hv, h.head hk]
    rfl

theorem Commits.step {a : Action} (h : Commits cfg s) (hinv : Inv cfg s)
    (hok : ∀ c, VectorOK cfg s c (s.clients c)) (ha : step cfg s a = some s') :
    Commits cfg s' := by
  refine ⟨fun c => ?_, fun k hk => ?_⟩
  · rcases step_moves ha c with ⟨vec, cl, o, l, -, hstep, rfl⟩ | hu
    · obtain ⟨posts, hadv⟩ := hstep.advance
      rw [State.setClient_clients_self]
      exact (h.posted c).advance hadv hstep.trx_of_not_idle
    · exact fun wr hwr hkind => (h.posted c wr (hu.posted wr hwr) hkind).unmoved hu
  · rcases step_cases ha with ⟨c, vec, cl, o, l, -, -, rfl⟩ | ⟨c, i, wr, answer, -, ho, rfl⟩ |
      ⟨g, -, rfl⟩
    · exact (h.signed k hk).congr rfl rfl (List.subset_cons_self _ _)
    · exact (h.signed k hk).effect hk hinv (hok c) ho
    · exact (h.signed k hk).congr rfl rfl (List.subset_cons_self _ _)

/-- **Every version was installed by a committed transaction**, in every reachable state in which
no commit timestamp has wrapped. -/
theorem commits_of_reachable (h : Reachable cfg s) (hwrap : NoWrap cfg s) : Commits cfg s := by
  induction h with
  | start hs => exact hs.commits
  | next hs _ ha ih =>
    have hwrap' := hwrap.of_step ha
    exact (ih hwrap').step (inv_of_reachable hs hwrap') (vectorOK_of_reachable hs hwrap') ha

/-! ## The order -/

theorem Stamps.client_eq (h : Stamps cfg s) {a b : Acquisition} (ha : a ∈ s.acquisitions)
    (hb : b ∈ s.acquisitions) (hcts : a.cts = b.cts) : a.client = b.client := by
  refine UInt16.toNat_inj.1 ?_
  rw [← h.residue a ha, ← h.residue b hb, hcts]

theorem Stamps.distinct (h : Stamps cfg s) : (s.acquisitions.map (·.cts)).Nodup := by
  refine List.pairwise_map.2 (h.sorted.imp_of_mem fun {a b} ha hb hlt heq => ?_)
  have hlt := hlt (h.client_eq ha hb heq)
  rw [heq] at hlt
  exact UInt32.lt_irrefl _ hlt

theorem Stamps.owner_unique (h : Stamps cfg s) (ho : HasAcquired s c o cts)
    (ho' : HasAcquired s c o' cts) : o = o' := by
  have heq : (⟨c, o, cts⟩ : Acquisition) = ⟨c, o', cts⟩ :=
    List.inj_on_of_nodup_map h.distinct (hasAcquired_iff.1 ho) (hasAcquired_iff.1 ho') rfl
  exact (Acquisition.mk.inj heq).2.1

/-- **Commit-timestamp order.** The commit timestamps acquired so far are pairwise distinct, each is
congruent to its client's id, and those of one client increase. The word in front of an unlocked
record is the initial one or names one committed transaction. The entries of the oracle's vector
are zero or commit timestamps of their clients, and no step decreases them. -/
theorem commit_timestamp_order (h : Reachable cfg s) (hwrap : NoWrap cfg s) :
    (s.acquisitions.map (·.cts)).Nodup ∧
    (∀ a ∈ s.acquisitions, a.cts.toNat % cfg.clientCnt = a.client.toNat) ∧
    (s.acquisitions.Pairwise fun a b => a.client = b.client → b.cts < a.cts) ∧
    (∀ k : Key, k.versioned = true → (s.mem k).head.writeTimestamp.isLocked = false →
      (s.mem k).head.writeTimestamp.writer = (0, 0) ∨
      ∃! o, HasAcquired s (s.mem k).head.writeTimestamp.clientID o
          (s.mem k).head.writeTimestamp.timestamp ∧
        Committed s (s.mem k).head.writeTimestamp.clientID
          (s.clients (s.mem k).head.writeTimestamp.clientID) o) ∧
    (∀ c, s.lastCommittedVector c = 0 ∨ ∃ o, HasAcquired s c o (s.lastCommittedVector c)) ∧
    (∀ a s', step cfg s a = some s' →
      ∀ c, s.lastCommittedVector c ≤ s'.lastCommittedVector c) := by
  have hst := stamps_of_reachable h hwrap
  refine ⟨hst.distinct, hst.residue, hst.sorted, ?_, fun c => ?_, fun a s' ha c => ?_⟩
  · intro k hk hunlocked
    have hrec := (inv_of_reachable h hwrap).records k hk
    have hfree : s.holder k = none := by
      have hiff := hrec.isLocked_iff
      rw [hunlocked] at hiff
      simpa using hiff
    have hcommits := commits_of_reachable h hwrap
    rw [(hrec.head_of_free hfree).1]
    refine ((hcommits.signed k hk).versions _ (s.current_mem k)).imp_right ?_
    rintro ⟨o, ha, signaled, reply, hmem⟩
    refine ⟨o, ⟨ha, hcommits.posted _ _ (.inr ⟨reply, hmem⟩) rfl⟩, ?_⟩
    exact fun o' ho' => hst.owner_unique ho'.1 ha
  · exact (vectorOK_of_reachable h hwrap c).entry
  · exact lastCommittedVector_le_of_step h hwrap ha c

set_option maxRecDepth 100000 in
/-- Two clients, one NewOrder each on the same stock. -/
theorem commit_timestamp_order_twice : ∃ s, Reachable (.shipped 2) s ∧ NoWrap (.shipped 2) s ∧
    s.acquisitions.map (fun a => (a.client, a.cts)) = [(1, 3), (0, 2)] ∧
    (s.acquisitions.map (·.cts)).Nodup ∧
    (s.mem (.stock 0 1)).head.writeTimestamp.writer = (1, 3) ∧
    (∃! o, HasAcquired s (s.mem (.stock 0 1)).head.writeTimestamp.clientID o
        (s.mem (.stock 0 1)).head.writeTimestamp.timestamp ∧
      Committed s (s.mem (.stock 0 1)).head.writeTimestamp.clientID
        (s.clients (s.mem (.stock 0 1)).head.writeTimestamp.clientID) o) := by
  obtain ⟨s, h, hwrap, hp⟩ := exists_reachable (init_plain (.shipped 2))
    (newOrderAlone 0 ++ newOrderAlone 1)
    (fun s => s.acquisitions.map (fun a => (a.client, a.cts)) = [(1, 3), (0, 2)] &&
      ((s.mem (.stock 0 1)).head.writeTimestamp.isLocked = false &&
        (s.mem (.stock 0 1)).head.writeTimestamp.writer = (1, 3)))
    (by decide +kernel) (by decide +kernel)
  simp only [Bool.and_eq_true, decide_eq_true_eq] at hp
  obtain ⟨hacq, hunlocked, hwriter⟩ := hp
  obtain ⟨hdistinct, -, -, hheads, -⟩ := commit_timestamp_order h hwrap
  refine ⟨s, h, hwrap, hacq, hdistinct, hwriter, ?_⟩
  refine (hheads _ rfl hunlocked).resolve_left ?_
  rw [hwriter]
  decide

end RdmaSnapshot
