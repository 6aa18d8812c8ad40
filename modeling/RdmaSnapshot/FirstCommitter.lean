import RdmaSnapshot.Acceptance
import RdmaSnapshot.CommitTimestamps
import RdmaSnapshot.Snapshots

/-!
# The first committer wins

In `COMPLETE` mode a transaction replaces a version of a record only if its snapshot covers that
version, or if the version is its own client's. By the order of the versions of a record its
snapshot then covers all earlier versions as well, so the transactions behind them were published
before the snapshot was read.
-/

namespace RdmaSnapshot

variable {cfg : Config} {s s' : State} {c c' : ClientID} {cl cl' : Client} {o o' : Owner}
  {l : CpuLabel} {k : Key} {cts cts' : UInt32} {i g : ℕ} {wr : WorkRequest}
  {answer : IndexAnswer} {t : Ticket} {stage : Stage}

/-! ## The order of the transactions of a client -/

theorem numbered_of_reachable (h : Reachable cfg s) (hwrap : NoWrap cfg s) :
    s.acquisitions.Pairwise fun a b => a.client = b.client → b.owner.t ≤ a.owner.t := by
  induction h with
  | start hs => simp [hs.acquisitions]
  | next hs _ ha ih =>
    have hwrap' := hwrap.of_step ha
    rcases step_cases ha with ⟨c, vec, cl, o, l, -, hstep, rfl⟩ | ⟨c, i, wr, answer, -, -, rfl⟩ |
      ⟨g, -, rfl⟩
    · by_cases hl : ∃ cts, l = .acquire cts
      · obtain ⟨cts, rfl⟩ := hl
        obtain ⟨posts, hadv⟩ := hstep.advance
        have hok := vectorOK_of_reachable hs hwrap' c
        have ht : o.t = _ := hadv.owner.trans (by simpa using hadv.number)
        rw [State.acquisitions_setClient_acquire]
        refine List.pairwise_cons.2 ⟨fun b hb hclient => ?_, ih hwrap'⟩
        change b.owner.t ≤ o.t
        rw [ht]
        refine hok.number b.owner b.cts (hasAcquired_iff.2 ?_)
        rw [show c = b.client from hclient]
        exact hb
      · rw [State.acquisitions_setClient_of_label fun cts h => hl ⟨cts, h⟩]
        exact ih hwrap'
    · exact ih hwrap'
    · exact ih hwrap'

theorem number_le_of_cts_lt (h : Reachable cfg s) (hwrap : NoWrap cfg s)
    (ha : HasAcquired s c o cts) (ha' : HasAcquired s c o' cts') (hlt : cts < cts') :
    o.t ≤ o'.t := by
  have hst := stamps_of_reachable h hwrap
  have hboth := hst.sorted.and (numbered_of_reachable h hwrap)
  obtain ⟨i, hi, hgi⟩ := List.mem_iff_getElem.1 (hasAcquired_iff.1 ha)
  obtain ⟨j, hj, hgj⟩ := List.mem_iff_getElem.1 (hasAcquired_iff.1 ha')
  rcases Nat.lt_trichotomy i j with hij | rfl | hij
  · have hrel := List.pairwise_iff_getElem.1 hboth i j hi hj hij
    rw [hgi, hgj] at hrel
    exact absurd (hrel.1 rfl) (UInt32.not_lt.2 (UInt32.le_of_lt hlt))
  · rw [hgi] at hgj
    cases hgj
    exact absurd hlt (UInt32.lt_irrefl _)
  · have hrel := List.pairwise_iff_getElem.1 hboth j i hj hi hij
    rw [hgi, hgj] at hrel
    exact hrel.2 rfl

/-! ## Versions and snapshots -/

/-- Transaction `o` of client `c`, with the commit timestamp `cts`, sees the version with word `w`:
it is an earlier version of the same client, or the snapshot of the transaction covers it. -/
def Covers (cfg : Config) (s : State) (c : ClientID) (o : Owner) (cts : UInt32) (w : Timestamp) :
    Prop :=
  (w.clientID = c ∧ w.timestamp ≤ cts) ∨
    ∃ p, snapshotPast cfg c o.t s.trace = some p ∧ w.timestamp ≤ vectorOf p w.clientID

theorem Covers.mono {w : Timestamp} (h : Covers cfg s c o cts w) (hpast : s.trace <:+ s'.trace) :
    Covers cfg s' c o cts w :=
  h.imp_right fun ⟨p, hp, hle⟩ => ⟨p, snapshotPast_of_suffix hp hpast, hle⟩

def InstalledOver (cfg : Config) (s : State) (k : Key) (v x : Version (Row k.table)) : Prop :=
  ∃ o, Installed s k v o ∧
    Covers cfg s v.writeTimestamp.clientID o v.writeTimestamp.timestamp x.writeTimestamp

/-- The invariant of a record: its holder sees the version it is about to replace, earlier versions
of the same client are older, and every version was installed over all the earlier ones. -/
structure Overwrites (cfg : Config) (s : State) (k : Key) : Prop where
  holder : ∀ t stage, s.holder k = some (t, stage) →
    Covers cfg s t.client t.owner t.word.timestamp (s.current k).writeTimestamp
  own : ∀ t stage, s.holder k = some (t, stage) → ∀ v ∈ s.versions k,
    v.writeTimestamp.clientID = t.client → v.writeTimestamp.timestamp < t.word.timestamp
  chain : (s.versions k).Pairwise (InstalledOver cfg s k)

theorem InstalledOver.mono {v x : Version (Row k.table)} (h : InstalledOver cfg s k v x)
    (hpast : s.trace <:+ s'.trace) : InstalledOver cfg s' k v x := by
  obtain ⟨o, ho, hcov⟩ := h
  exact ⟨o, ho.mono hpast.subset, hcov.mono hpast⟩

theorem Overwrites.congr (h : Overwrites cfg s k) (hholder : s'.holder k = s.holder k)
    (hversions : s'.versions k = s.versions k) (hcurrent : s'.current k = s.current k)
    (hpast : s.trace <:+ s'.trace) : Overwrites cfg s' k where
  holder := by
    rw [hholder, hcurrent]
    exact fun t stage hh => (h.holder t stage hh).mono hpast
  own := by
    rw [hholder, hversions]
    exact h.own
  chain := by
    rw [hversions]
    exact h.chain.imp fun hv => hv.mono hpast

theorem HasSnapshot.covers {past : List Event} {w : Timestamp} (h : HasSnapshot cfg s c cl past)
    (ho : cl.Executes o) (hacc : cl.isRecordAccessible c w = true)
    (hown : w.clientID = c → w.timestamp ≤ cts) : Covers cfg s c o cts w := by
  by_cases hc : w.clientID = c
  · exact .inl ⟨hc, hown hc⟩
  · right
    refine ⟨past, ho.number ▸ h.past_eq, ?_⟩
    rw [← h.vector _ hc]
    obtain ⟨-, -, hvisible⟩ := BaseTransaction.isRecordAccessible_iff.1 hacc
    exact UInt32.not_lt.1 (hvisible.resolve_left hc)

theorem SnapshotOK.hasSnapshot (h : SnapshotOK cfg s c cl) (hcl : ClientOK cfg s c cl)
    (hidle : cl.phase.status ≠ .idle) (hreading : cl.phase.status ≠ .reading) :
    ∃ past, HasSnapshot cfg s c cl past := by
  refine (h.current hidle).resolve_left fun hawaits => hreading ?_
  obtain ⟨wr, hops, hverb, -⟩ := hawaits.ops
  have hwr : wr ∈ cl.outstanding := (List.mem_filter.1 (hops ▸ List.mem_singleton_self wr)).1
  have hlands := hcl.lands wr hwr (by rw [hverb]; rfl)
  rw [hverb] at hlands
  exact Phase.status_of_readsVector hlands.2.2

section

variable (hmode : cfg.SNAPSHOT_ACQUISITION_TYPE = .COMPLETE) (hs : Reachable cfg s)
  (hwrap : NoWrap cfg s)

include hmode hs hwrap

/-- The versions that the client of an outstanding CAS has installed are older than its commit
timestamp, and its transaction sees the version it locks. -/
theorem Overwrites.lock (hk : k.versioned = true) (hwr : wr ∈ (s.clients c).outstanding) {b : ℕ}
    {newTS : Timestamp}
    (hv : wr.verb = .compareAndSwap k (s.current k).writeTimestamp newTS b)
    (hfresh : ∀ u ∈ s.versions k, u.writeTimestamp.writer ≠ (c, newTS.timestamp)) :
    (∀ v ∈ s.versions k, v.writeTimestamp.clientID = c →
      v.writeTimestamp.timestamp < newTS.timestamp) ∧
    Covers cfg s c wr.owner newTS.timestamp (s.current k).writeTimestamp := by
  have hinv := inv_of_reachable hs hwrap
  have hst := stamps_of_reachable hs hwrap
  have hok := vectorOK_of_reachable hs hwrap c
  obtain ⟨hex, hlocking, hmem, hcopy, rfl⟩ := (hinv.clients c).exists_of_compareAndSwap hwr hv hk
  have hcts : (s.clients c).phase.lockCts.toNat = s.lastCts cfg c :=
    (hok.latest _ _ (hok.locking hlocking _ hex) hex.number).2
  have hown : ∀ v ∈ s.versions k, v.writeTimestamp.clientID = c →
      v.writeTimestamp.timestamp < (s.clients c).phase.lockCts := by
    intro v hv' hclient
    rw [UInt32.lt_iff_toNat_lt, hcts]
    refine Nat.lt_of_le_of_ne ?_ ?_
    · rcases ((commits_of_reachable hs hwrap).signed k hk).versions v hv' with hzero | ⟨o, ho, -⟩
      · simp [(Prod.mk.inj hzero).2]
      · rw [← hclient]
        exact hst.bounded _ (hasAcquired_iff.1 ho)
    · intro heq
      rw [← hcts] at heq
      refine hfresh v hv' ?_
      rw [Timestamp.writer, hclient, UInt32.toNat_inj.1 heq]
      rfl
  refine ⟨hown, ?_⟩
  obtain ⟨past, hsnap⟩ := (snapshotOK_of_reachable hmode hs hwrap c).hasSnapshot (hinv.clients c)
    (by simp [hlocking]) (by simp [hlocking])
  refine hsnap.covers hex ?_ fun hclient => UInt32.le_of_lt (hown _ (s.current_mem k) hclient)
  rw [hcopy]
  exact (vetted_of_reachable hs hwrap c).accepted hlocking _ (Client.mem_readWords_of_writeSet hmem)

theorem Overwrites.covers_of_mem (h : Overwrites cfg s k) (hk : k.versioned = true)
    (hh : s.holder k = some (t, stage)) {x : Version (Row k.table)} (hx : x ∈ s.versions k) :
    Covers cfg s t.client t.owner t.word.timestamp x.writeTimestamp := by
  have hsigned := (commits_of_reachable hs hwrap).signed k hk
  obtain ⟨past, hsnap⟩ := (snapshotOK_of_reachable hmode hs hwrap t.client).acquired _ _
    (hsigned.holder t stage hh)
  have hcur := h.holder t stage hh
  have hchain := h.chain
  obtain ⟨cur, older, hversions⟩ := List.exists_cons_of_ne_nil (s.versions_ne_nil k)
  have hcurrent : s.current k = cur := by simp [State.current, hversions]
  rw [hversions, List.pairwise_cons] at hchain
  rw [hcurrent] at hcur
  rw [hversions, List.mem_cons] at hx
  rcases hx with rfl | hx
  · exact hcur
  · obtain ⟨o, ⟨ha, -⟩, hcov⟩ := hchain.1 x hx
    have hvis : (cur.writeTimestamp.clientID = t.client ∧ o.t ≤ t.owner.t) ∨
        cur.writeTimestamp.timestamp ≤ vectorOf past cur.writeTimestamp.clientID := by
      rcases hcur with ⟨hclient, -⟩ | ⟨p, hp, hle⟩
      · left
        have hlt := h.own t stage hh cur (by simp [hversions]) hclient
        rw [hclient] at ha
        exact ⟨hclient, number_le_of_cts_lt hs hwrap ha (hsigned.holder t stage hh) hlt⟩
      · rw [hsnap] at hp
        cases hp
        exact .inr hle
    rcases visible_trans hmode hs hwrap ha hsnap hvis hcov with hclient | hle
    · have hlt := h.own t stage hh x (by simp [hversions, hx]) hclient
      exact .inl ⟨hclient, UInt32.le_of_lt hlt⟩
    · exact .inr ⟨past, hsnap, hle⟩

theorem Overwrites.effect (h : Overwrites cfg s k) (hk : k.versioned = true)
    (ho : (s.clients c).Oldest cfg i wr)
    (hs' : Reachable cfg (s.effect c i wr answer)) (hwrap' : NoWrap cfg (s.effect c i wr answer)) :
    Overwrites cfg (s.effect c i wr answer) k := by
  have hwr := List.mem_of_getElem? ho.getElem
  have hinv := inv_of_reachable hs hwrap
  have hpast : s.trace <:+ (s.effect c i wr answer).trace := List.suffix_cons _ _
  -- most effects leave the holder or advance its stage, and install nothing
  have hstage : (∀ v, wr.verb ≠ .writeHead k v) →
      (∀ t stage, (s.effect c i wr answer).holder k = some (t, stage) →
        ∃ stage', s.holder k = some (t, stage')) → Overwrites cfg (s.effect c i wr answer) k := by
    intro hne hold
    refine ⟨fun t stage hh => ?_, fun t stage hh => ?_, ?_⟩
    · obtain ⟨stage', hh'⟩ := hold t stage hh
      rw [State.current_effect_of_ne hne]
      exact (h.holder t stage' hh').mono hpast
    · obtain ⟨stage', hh'⟩ := hold t stage hh
      rw [State.versions_effect_of_ne hne]
      exact h.own t stage' hh'
    · rw [State.versions_effect_of_ne hne]
      exact h.chain.imp fun hv => hv.mono hpast
  cases hinv.recordStep ho hk with
  | other hm =>
    refine hstage (fun v hv => by simp [hv, Verb.mutates] at hm) fun t stage hh => ⟨stage, ?_⟩
    rwa [State.holder_effect_of_not_mutates hm] at hh
  | refused hv hw =>
    refine hstage (by simp [hv]) fun t stage hh => ⟨stage, ?_⟩
    rwa [State.holder_effect_noSwap hv hw] at hh
  | @acquired cts b hv hfree hc hcts hfresh =>
    by_cases hw : (s.mem k).head.writeTimestamp = (s.current k).writeTimestamp
    · obtain ⟨hown, hcov⟩ := Overwrites.lock hmode hs hwrap hk hwr hv hfresh
      have hne : ∀ v, wr.verb ≠ .writeHead k v := by simp [hv]
      have hholder : (s.effect c i wr answer).holder k = some (⟨c, wr.owner, _⟩, .locked) :=
        State.holder_effect_swap hv hw
      refine ⟨fun t stage hh => ?_, fun t stage hh => ?_, ?_⟩
      · rw [hholder] at hh
        cases hh
        rw [State.current_effect_of_ne hne]
        exact hcov.mono hpast
      · rw [hholder] at hh
        cases hh
        rw [State.versions_effect_of_ne hne]
        exact hown
      · rw [State.versions_effect_of_ne hne]
        exact h.chain.imp fun hv => hv.mono hpast
    · refine hstage (by simp [hv]) fun t stage hh => ⟨stage, ?_⟩
      rwa [State.holder_effect_noSwap hv hw] at hh
  | reverted hv =>
    refine hstage (by simp [hv]) fun t stage hh => ?_
    simp [State.holder_effect_writeTimestamp hv] at hh
  | pushed hv hh' =>
    refine hstage (by simp [hv]) fun t stage hh => ?_
    rw [State.holder_effect_writePointerList hv, hh'] at hh
    cases hh
    exact ⟨_, hh'⟩
  | saved hv hh' =>
    refine hstage (by simp [hv]) fun t stage hh => ?_
    rw [State.holder_effect_writeOlderVersion hv, hh'] at hh
    cases hh
    exact ⟨_, hh'⟩
  | @installed t y v hv hh _ _ _ hb =>
    have hnone : (s.effect c i wr answer).holder k = none := State.holder_effect_writeHead hv
    refine ⟨by simp [hnone], by simp [hnone], ?_⟩
    obtain ⟨offset, hword⟩ := hb.writeTimestamp_eq
    have hclient : v.writeTimestamp.clientID = t.client := by rw [hword]; rfl
    have hcts : v.writeTimestamp.timestamp = t.word.timestamp := by rw [hword]; rfl
    have ha := (((commits_of_reachable hs hwrap).signed k hk).holder t _ hh).mono hpast.subset
    -- the new version is its holder's
    obtain ⟨o, hinst⟩ : ∃ o, Installed (s.effect c i wr answer) k v o := by
      have hmem : v ∈ (s.effect c i wr answer).versions k := by
        rw [State.versions_effect_writeHead hv]
        exact List.mem_cons_self
      refine (((commits_of_reachable hs' hwrap').signed k hk).versions v hmem).resolve_left ?_
      intro hzero
      have hpos := (stamps_of_reachable hs' hwrap').positive _ (hasAcquired_iff.1 ha)
      rw [← hcts, show v.writeTimestamp.timestamp = 0 from (Prod.mk.inj hzero).2] at hpos
      exact UInt32.lt_irrefl _ hpos
    have hown : o = t.owner := by
      have hacq := hinst.1
      rw [hclient, hcts] at hacq
      exact (stamps_of_reachable hs' hwrap').owner_unique hacq ha
    rw [State.versions_effect_writeHead hv]
    refine List.pairwise_cons.2 ⟨fun x hx => ⟨o, hinst, ?_⟩, h.chain.imp fun hv => hv.mono hpast⟩
    rw [hclient, hcts, hown]
    exact (h.covers_of_mem hmode hs hwrap hk hh hx).mono hpast

end

/-- **Every version was installed by a transaction that sees all earlier versions**, in every
reachable state in which no commit timestamp has wrapped. -/
theorem overwrites_of_reachable (hmode : cfg.SNAPSHOT_ACQUISITION_TYPE = .COMPLETE)
    (h : Reachable cfg s) (hwrap : NoWrap cfg s) (hk : k.versioned = true) :
    Overwrites cfg s k := by
  induction h with
  | start hs =>
    refine ⟨by simp [hs.holder], by simp [hs.holder], ?_⟩
    rw [hs.versions]
    exact List.pairwise_singleton _ _
  | next hs hok ha ih =>
    have hwrap' := hwrap.of_step ha
    have hnext := hs.next hok ha
    rcases step_cases ha with ⟨c, vec, cl, o, l, -, -, rfl⟩ | ⟨c, i, wr, answer, -, ho, rfl⟩ |
      ⟨g, -, rfl⟩
    · exact (ih hwrap').congr rfl rfl State.current_setClient (List.suffix_cons _ _)
    · exact (ih hwrap').effect hmode hs hwrap' hk ho hnext hwrap
    · exact (ih hwrap').congr rfl rfl State.current_readOracle (List.suffix_cons _ _)

theorem Installed.not_hasAborted {v : Version (Row k.table)} (h : Installed s k v o)
    (hs : Reachable cfg s) (hwrap : NoWrap cfg s) :
    ¬ HasAborted s v.writeTimestamp.clientID o := by
  rintro ⟨reason, hmem⟩
  obtain ⟨-, signaled, reply, heff⟩ := h
  have hcourse := (courses_of_reachable hs hwrap).clients v.writeTimestamp.clientID
  exact (hcourse.aborted o reason hmem).harmless _ (.inr ⟨reply, heff⟩) rfl rfl

/-- **First committer wins.** If the transactions `o₁` and `o₂`, of different clients, installed
the versions `v₁` and `v₂` of a Stock, Warehouse, District or Customer record, `v₂` later than
`v₁`, then the WRITE with which `o₁` published its commit timestamp took effect before the read of
the oracle's vector that produced the snapshot of `o₂`. -/
theorem first_committer_wins (hmode : cfg.SNAPSHOT_ACQUISITION_TYPE = .COMPLETE)
    (h : Reachable cfg s) (hwrap : NoWrap cfg s) (hk : k.versioned = true)
    {later between earlier : List (Version (Row k.table))} {v₁ v₂ : Version (Row k.table)}
    (hversions : s.versions k = later ++ v₂ :: (between ++ v₁ :: earlier)) {o₁ o₂ : Owner}
    (h₁ : Installed s k v₁ o₁) (h₂ : Installed s k v₂ o₂)
    (hne : v₁.writeTimestamp.clientID ≠ v₂.writeTimestamp.clientID) :
    ∃ past, snapshotPast cfg v₂.writeTimestamp.clientID o₂.t s.trace = some past ∧
      ∃ signaled reply, Event.effect v₁.writeTimestamp.clientID
        ⟨o₁, .writeVectorEntry v₁.writeTimestamp.clientID v₁.writeTimestamp.timestamp, signaled⟩
        reply ∈ past := by
  have hchain := (overwrites_of_reachable hmode h hwrap hk).chain
  rw [hversions, List.pairwise_append, List.pairwise_cons] at hchain
  obtain ⟨o, ho, hcov⟩ := hchain.2.1.1 v₁ (by simp)
  obtain rfl := (stamps_of_reachable h hwrap).owner_unique ho.1 h₂.1
  rcases hcov with ⟨hclient, -⟩ | ⟨past, hpast, hle⟩
  · exact absurd hclient hne
  · exact ⟨past, hpast, published_of_le h hwrap h₁.1 (snapshotPast_suffix hpast) hle
      (h₁.not_hasAborted h hwrap)⟩

set_option maxRecDepth 100000 in
/-- Client 0 and then client 1 update the same stock. -/
theorem first_committer_wins_twice : ∃ s past o₁ o₂, Reachable (.shipped 2) s ∧
    HasAcquired s 0 o₁ 2 ∧ HasAcquired s 1 o₂ 3 ∧
    snapshotPast (.shipped 2) 1 o₂.t s.trace = some past ∧
    ∃ signaled reply, Event.effect 0 ⟨o₁, .writeVectorEntry 0 2, signaled⟩ reply ∈ past := by
  obtain ⟨s, h, hwrap, hp⟩ := exists_reachable (init_plain (.shipped 2))
    (newOrderAlone 0 ++ newOrderAlone 1)
    (fun s => (s.versions (.stock 0 1)).map (·.writeTimestamp.writer) = [(1, 3), (0, 2), (0, 0)])
    (by decide +kernel) (by decide +kernel)
  simp only [decide_eq_true_eq, List.map_eq_cons_iff, List.map_eq_nil_iff] at hp
  obtain ⟨v₂, _, hversions, hw₂, v₁, _, rfl, hw₁, v₀, _, rfl, -, rfl⟩ := hp
  have hsigned := (commits_of_reachable h hwrap).signed (.stock 0 1) rfl
  obtain ⟨o₁, h₁⟩ := (hsigned.versions v₁ (by simp [hversions])).resolve_left (by simp [hw₁])
  obtain ⟨o₂, h₂⟩ := (hsigned.versions v₂ (by simp [hversions])).resolve_left (by simp [hw₂])
  obtain ⟨hc₁, ht₁⟩ := Prod.mk.inj hw₁
  obtain ⟨hc₂, ht₂⟩ := Prod.mk.inj hw₂
  have hsplit : s.versions (.stock 0 1) = [] ++ v₂ :: ([] ++ v₁ :: [v₀]) := hversions
  obtain ⟨past, hpast, hpub⟩ := first_committer_wins rfl h hwrap rfl hsplit h₁ h₂
    (by rw [hc₁, hc₂]; decide)
  have ha₁ := h₁.1
  have ha₂ := h₂.1
  rw [hc₁, ht₁] at hpub ha₁
  rw [hc₂, ht₂] at ha₂
  rw [hc₂] at hpast
  exact ⟨s, past, o₁, o₂, h, ha₁, ha₂, hpast, hpub⟩

end RdmaSnapshot
