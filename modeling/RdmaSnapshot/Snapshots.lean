import RdmaSnapshot.Publication

/-!
# Snapshots

In `COMPLETE` mode the snapshot of a transaction is the oracle's vector at one moment of the past:
the moment its READ took effect or, in cluster mode, the moment the `OracleReader` of its group last
read the vector before the transaction began. A transaction sees what was published until then.
-/

namespace RdmaSnapshot

variable {cfg : Config} {s s' : State} {c c' r d : ClientID} {cl cl' : Client} {o o' : Owner}
  {l : CpuLabel} {cts u : UInt32} {i g n m : ℕ} {wr : WorkRequest} {answer : IndexAnswer}
  {vec : ClientID → UInt32} {tr tr' past p q : List Event} {e : Event}

/-! ## The past of a run -/

theorem exists_past (h : Reachable cfg s) (hpast : past <:+ s.trace) :
    ∃ s₀, Reachable cfg s₀ ∧ s₀.trace = past := by
  induction h with
  | start hs =>
    rw [hs.trace, List.suffix_nil] at hpast
    exact ⟨_, .start hs, by rw [hs.trace, hpast]⟩
  | next hs hok ha ih =>
    obtain ⟨e, htrace⟩ := trace_of_step ha
    rw [htrace, List.suffix_cons_iff] at hpast
    rcases hpast with rfl | hpast
    · exact ⟨_, hs.next hok ha, htrace⟩
    · exact ih hpast

theorem NoWrap.of_suffix {s₀ : State} (h : NoWrap cfg s) (hpast : s₀.trace <:+ s.trace) :
    NoWrap cfg s₀ := by
  intro c hc
  have hle : s₀.acquired c ≤ s.acquired c := hpast.sublist.countP_le
  exact Nat.lt_of_le_of_lt (Nat.add_le_add_right (Nat.mul_le_mul_right _ hle) _) (h c hc)

/-- The oracle's vector after some events. -/
def vectorOf : List Event → ClientID → UInt32
  | [] => fun _ => 0
  | .effect _ wr _ :: past => wr.verb.applyVector (vectorOf past)
  | .cpu _ _ _ :: past | .readerRead _ :: past => vectorOf past

theorem lastCommittedVector_eq (h : Reachable cfg s) :
    s.lastCommittedVector = vectorOf s.trace := by
  induction h with
  | start hs => rw [hs.trace, hs.lastCommittedVector, vectorOf]
  | next _ _ ha ih =>
    rcases step_cases ha with ⟨c, vec, cl, o, l, -, -, rfl⟩ | ⟨c, i, wr, answer, -, -, rfl⟩ |
      ⟨g, -, rfl⟩
    · simpa [vectorOf] using ih
    · simp [vectorOf, ih]
    · simpa [vectorOf] using ih

theorem vectorOf_le (h : Reachable cfg s) (hwrap : NoWrap cfg s) (hpast : past <:+ s.trace)
    (c : ClientID) : vectorOf past c ≤ s.lastCommittedVector c := by
  induction h with
  | start hs =>
    rw [hs.trace, List.suffix_nil] at hpast
    rw [hpast, hs.lastCommittedVector]
    exact UInt32.le_refl _
  | next hs hok ha ih =>
    have hwrap' := hwrap.of_step ha
    obtain ⟨e, htrace⟩ := trace_of_step ha
    rw [htrace, List.suffix_cons_iff] at hpast
    rcases hpast with rfl | hpast
    · rw [lastCommittedVector_eq (hs.next hok ha), htrace]
      exact UInt32.le_refl _
    · exact UInt32.le_trans (ih hwrap' hpast) (lastCommittedVector_le_of_step hs hwrap' ha c)

theorem vectorOf_mono (h : Reachable cfg s) (hwrap : NoWrap cfg s) (hp : p <:+ q)
    (hq : q <:+ s.trace) (c : ClientID) : vectorOf p c ≤ vectorOf q c := by
  obtain ⟨s₀, h₀, rfl⟩ := exists_past h hq
  rw [← lastCommittedVector_eq h₀]
  exact vectorOf_le h₀ (hwrap.of_suffix hq) hp c

/-! ## The read of a snapshot -/

/-- The events before the last read of the vector by the `OracleReader` of group `g`. -/
def readerPast (g : ℕ) : List Event → Option (List Event)
  | [] => none
  | .readerRead g' :: past => if g' = g then some past else readerPast g past
  | .cpu _ _ _ :: past | .effect _ _ _ :: past => readerPast g past

/-- The events before the read of the vector, if event `e` after `past` provides transaction `n` of
client `c` with its snapshot. -/
def Event.snapshotPast (cfg : Config) (c : ClientID) (n : ℕ) (past : List Event) :
    Event → Option (List Event)
  | .effect c' ⟨o, .readVector, _⟩ _ =>
    if cfg.SNAPSHOT_CLUSTER_MODE = false ∧ c' = c ∧ o.t = n then some past else none
  | .cpu c' o .begin =>
    if cfg.SNAPSHOT_CLUSTER_MODE = true ∧ c' = c ∧ o.t = n then readerPast (cfg.instanceNum c) past
    else none
  | _ => none

/-- The events before the read of the vector that produced the snapshot of transaction `n` of
client `c`. -/
def snapshotPast (cfg : Config) (c : ClientID) (n : ℕ) : List Event → Option (List Event)
  | [] => none
  | e :: past => (snapshotPast cfg c n past).or (e.snapshotPast cfg c n past)

theorem readerPast_suffix (h : readerPast g tr = some p) : p <:+ tr := by
  induction tr with
  | nil => cases h
  | cons e tr ih =>
    cases e with
    | readerRead g' =>
      rw [readerPast] at h
      split at h
      · cases h
        exact List.suffix_cons _ _
      · exact (ih h).trans (List.suffix_cons _ _)
    | cpu | effect => exact (ih h).trans (List.suffix_cons _ _)

/-- The last read is never earlier. -/
theorem readerPast_mono (h : readerPast g tr = some p) (htr : tr <:+ tr') :
    ∃ q, readerPast g tr' = some q ∧ p <:+ q := by
  induction tr' with
  | nil =>
    rw [List.suffix_nil] at htr
    exact ⟨p, htr ▸ h, List.suffix_refl p⟩
  | cons e tr' ih =>
    rcases List.suffix_cons_iff.1 htr with rfl | hle
    · exact ⟨p, h, List.suffix_refl p⟩
    · cases e with
      | readerRead g' =>
        rw [readerPast]
        split
        · exact ⟨tr', rfl, (readerPast_suffix h).trans hle⟩
        · exact ih hle
      | cpu | effect => exact ih hle

theorem snapshotPast_of_suffix (h : snapshotPast cfg c n tr = some p) (htr : tr <:+ tr') :
    snapshotPast cfg c n tr' = some p := by
  induction tr' with
  | nil =>
    rw [List.suffix_nil] at htr
    exact htr ▸ h
  | cons e tr' ih =>
    rcases List.suffix_cons_iff.1 htr with rfl | htr
    · exact h
    · rw [snapshotPast, ih htr, Option.some_or]

theorem Event.snapshotPast_suffix (h : e.snapshotPast cfg c n tr = some p) : p <:+ tr := by
  unfold Event.snapshotPast at h
  split at h
  · split at h
    · cases h
      exact List.suffix_refl _
    · cases h
  · split at h
    · exact readerPast_suffix h
    · cases h
  · cases h

theorem snapshotPast_suffix (h : snapshotPast cfg c n tr = some p) : p <:+ tr := by
  induction tr with
  | nil => cases h
  | cons e tr ih =>
    rw [snapshotPast, Option.or_eq_some_iff] at h
    rcases h with h | ⟨-, h⟩
    · exact (ih h).trans (List.suffix_cons _ _)
    · exact (Event.snapshotPast_suffix h).trans (List.suffix_cons _ _)

theorem exists_readerPast (hmode : cfg.SNAPSHOT_CLUSTER_MODE = true)
    (h : snapshotPast cfg c n tr = some p) :
    ∃ q, readerPast (cfg.instanceNum c) tr = some q ∧ p <:+ q := by
  induction tr with
  | nil => cases h
  | cons e tr ih =>
    have hmono : ∀ {q}, readerPast (cfg.instanceNum c) tr = some q → p <:+ q →
        ∃ q, readerPast (cfg.instanceNum c) (e :: tr) = some q ∧ p <:+ q := by
      intro q hq hp
      obtain ⟨q', hq', hle⟩ := readerPast_mono hq (List.suffix_cons e tr)
      exact ⟨q', hq', hp.trans hle⟩
    rw [snapshotPast, Option.or_eq_some_iff] at h
    rcases h with h | ⟨-, h⟩
    · obtain ⟨q, hq, hp⟩ := ih h
      exact hmono hq hp
    · unfold Event.snapshotPast at h
      split at h
      · simp [hmode] at h
      · split at h
        · exact hmono h (List.suffix_refl p)
        · cases h
      · cases h

theorem readerVector_eq (h : Reachable cfg s) (g : ℕ) :
    s.readerVector g = (readerPast g s.trace).map vectorOf := by
  induction h with
  | start hs => rw [hs.trace, hs.readerVector, readerPast, Option.map_none]
  | next hs _ ha ih =>
    rcases step_cases ha with ⟨c, vec, cl, o, l, -, -, rfl⟩ | ⟨c, i, wr, answer, -, -, rfl⟩ |
      ⟨g', -, rfl⟩
    · simpa [readerPast] using ih
    · simpa [readerPast] using ih
    · by_cases hg : g = g'
      · subst hg
        simp [State.readOracle, readerPast, lastCommittedVector_eq hs]
      · simp [State.readOracle, readerPast, hg, Ne.symm hg, ih]

/-! ## The invariant -/

def Verb.readsOracle : Verb → Bool
  | .readVector | .readVectorEntry _ => true
  | _ => false

/-- The client has its snapshot: nothing more of it is to come, and it is the vector at the moment
it was read. The client's own entry is its own business. -/
structure HasSnapshot (cfg : Config) (s : State) (c : ClientID) (cl : Client) (past : List Event) :
    Prop where
  past_eq : snapshotPast cfg c cl.t s.trace = some past
  vector : ∀ c', c' ≠ c → cl.localTimestampVector c' = vectorOf past c'
  landed : ∀ wr ∈ cl.oracleOps, wr.verb.readsOracle = false

/-- The READ of the snapshot has yet to take effect. -/
structure AwaitsSnapshot (cfg : Config) (s : State) (c : ClientID) (cl : Client) : Prop where
  past_eq : snapshotPast cfg c cl.t s.trace = none
  mode : cfg.SNAPSHOT_CLUSTER_MODE = false
  ops : ∃ wr, cl.oracleOps = [wr] ∧ wr.verb = .readVector ∧ wr.owner.t = cl.t

/-- The snapshots of client `c`. -/
structure SnapshotOK (cfg : Config) (s : State) (c : ClientID) (cl : Client) : Prop where
  future : ∀ n, cl.t < n → snapshotPast cfg c n s.trace = none
  ordered : ∀ n m p q, n ≤ m → snapshotPast cfg c n s.trace = some p →
    snapshotPast cfg c m s.trace = some q → p <:+ q
  current : cl.phase.status ≠ .idle →
    AwaitsSnapshot cfg s c cl ∨ ∃ past, HasSnapshot cfg s c cl past
  acquired : ∀ o cts, HasAcquired s c o cts → ∃ past, snapshotPast cfg c o.t s.trace = some past

theorem snapshotPast_cons_of_none (h : e.snapshotPast cfg c n tr = none) :
    snapshotPast cfg c n (e :: tr) = snapshotPast cfg c n tr := by
  rw [snapshotPast, h, Option.or_none]

theorem SnapshotOK.congr (h : SnapshotOK cfg s c cl)
    (hsame : ∀ n, snapshotPast cfg c n s'.trace = snapshotPast cfg c n s.trace)
    (ht : cl'.t = cl.t) (hacq : ∀ o cts, HasAcquired s' c o cts → HasAcquired s c o cts)
    (hcur : cl'.phase.status ≠ .idle →
      AwaitsSnapshot cfg s' c cl' ∨ ∃ past, HasSnapshot cfg s' c cl' past) :
    SnapshotOK cfg s' c cl' where
  future := by
    simp only [hsame, ht]
    exact h.future
  ordered := by
    simp only [hsame]
    exact h.ordered
  current := hcur
  acquired := by
    simp only [hsame]
    exact fun o cts ha => h.acquired o cts (hacq o cts ha)

theorem SnapshotOK.frame (h : SnapshotOK cfg s c cl)
    (hsame : ∀ n, snapshotPast cfg c n s'.trace = snapshotPast cfg c n s.trace)
    (hacq : ∀ o cts, HasAcquired s' c o cts → HasAcquired s c o cts) : SnapshotOK cfg s' c cl := by
  refine h.congr hsame rfl hacq fun hne => (h.current hne).imp (fun ha => ?_) ?_
  · exact ⟨by rw [hsame]; exact ha.past_eq, ha.mode, ha.ops⟩
  · exact fun ⟨past, hp⟩ => ⟨past, by rw [hsame]; exact hp.past_eq, hp.vector, hp.landed⟩

/-! ## Steps of the client's CPU -/

theorem Event.snapshotPast_cpu_of_ne (hl : l ≠ .begin) :
    (Event.cpu c' o l).snapshotPast cfg c n tr = none := by
  cases l with
  | begin => exact absurd rfl hl
  | _ => rfl

theorem SnapshotOK.advance {posts : List Post} (h : SnapshotOK cfg s c cl) (hset : Settled cfg cl)
    (hadv : AdvanceBy cfg cl cl' o l posts) (hl : l ≠ .begin)
    (htrx : cl.phase.status ≠ .idle → cl.phase.trx = some o.trx)
    (hvec : ∀ c', c' ≠ c → cl'.localTimestampVector c' = cl.localTimestampVector c')
    (hops : ∀ wr ∈ cl'.oracleOps, wr.verb.readsOracle = false) :
    SnapshotOK cfg (s.setClient c cl' o l) c cl' := by
  have hsame : ∀ n, snapshotPast cfg c n (s.setClient c cl' o l).trace =
      snapshotPast cfg c n s.trace :=
    fun n => snapshotPast_cons_of_none (Event.snapshotPast_cpu_of_ne hl)
  have ht : cl'.t = cl.t := by
    rw [hadv.number, if_neg hl]
  have hcur : cl.phase.status ≠ .idle → ∃ past, HasSnapshot cfg s c cl past := by
    intro hne
    refine (h.current hne).resolve_left fun hawaits => ?_
    obtain ⟨wr, hwr, -⟩ := hawaits.ops
    rw [hset.oracleOps] at hwr
    cases hwr
  refine ⟨fun n hn => ?_, fun n m p q => ?_, fun hne => ?_, fun o' cts ha => ?_⟩
  · rw [hsame]
    exact h.future n (ht ▸ hn)
  · rw [hsame, hsame]
    exact h.ordered n m p q
  · have hne' : cl.phase.status ≠ .idle := fun hidle => hne (hadv.of_idle hl hidle).2
    obtain ⟨past, hp⟩ := hcur hne'
    refine .inr ⟨past, by rw [hsame, ht]; exact hp.past_eq, fun c' hc' => ?_, hops⟩
    rw [hvec c' hc']
    exact hp.vector c' hc'
  · rw [hsame]
    rcases List.mem_cons.1 ha with heq | ha
    · -- the transaction that acquires its timestamp now has its snapshot
      cases heq
      have hreading : cl.phase.status ≠ .idle := by simp [hadv.advance.reading_of_acquire]
      obtain ⟨past, hp⟩ := hcur hreading
      rw [(hadv.executes_before htrx hreading).number]
      exact ⟨past, hp.past_eq⟩
    · exact h.acquired o' cts ha

theorem SnapshotOK.begin {posts : List Post} (h : SnapshotOK cfg s c cl) (hs : Reachable cfg s)
    (hset : Settled cfg cl) (hadv : AdvanceBy cfg cl cl' o .begin posts)
    (hmode : cfg.SNAPSHOT_ACQUISITION_TYPE = .COMPLETE)
    (hreader : s.readerVectorOf cfg c = some vec)
    (hvec : cl'.localTimestampVector =
      if cfg.SNAPSHOT_ACQUISITION_TYPE = .COMPLETE ∧ cfg.SNAPSHOT_CLUSTER_MODE = true then vec
      else cl.localTimestampVector)
    (hops : cl'.oracleOps = cl.oracleOps ++
      if cfg.SNAPSHOT_ACQUISITION_TYPE = .COMPLETE ∧ cfg.SNAPSHOT_CLUSTER_MODE = false then
        [⟨o, .readVector, true⟩]
      else []) : SnapshotOK cfg (s.setClient c cl' o .begin) c cl' := by
  have ht : cl'.t = cl.t + 1 := by simpa using hadv.number
  have hnone : snapshotPast cfg c cl'.t s.trace = none := h.future _ (by omega)
  have hother : ∀ n, n ≠ cl'.t → snapshotPast cfg c n (s.setClient c cl' o .begin).trace =
      snapshotPast cfg c n s.trace := by
    intro n hn
    refine snapshotPast_cons_of_none ?_
    rw [← hadv.owner] at hn
    simp [Event.snapshotPast, hn.symm]
  have hnew : snapshotPast cfg c cl'.t (s.setClient c cl' o .begin).trace =
      if cfg.SNAPSHOT_CLUSTER_MODE = true then readerPast (cfg.instanceNum c) s.trace
        else none := by
    rw [State.setClient_trace, snapshotPast, hnone, Option.none_or]
    simp [Event.snapshotPast, hadv.owner]
  rw [hset.oracleOps, List.nil_append] at hops
  refine ⟨fun n hn => ?_, fun n m p q hnm hp hq => ?_, fun _ => ?_, fun o' cts ha => ?_⟩
  · rw [hother n (by omega)]
    exact h.future n (by omega)
  · by_cases hn : n = cl'.t
    · by_cases hm : m = cl'.t
      · rw [hn] at hp
        rw [hm, hp] at hq
        cases hq
        exact List.suffix_refl p
      · rw [hother m hm, h.future m (by omega)] at hq
        cases hq
    · rw [hother n hn] at hp
      by_cases hm : m = cl'.t
      · rw [hm, hnew] at hq
        split at hq
        · rename_i hcluster
          obtain ⟨q', hq', hle⟩ := exists_readerPast hcluster hp
          rw [hq'] at hq
          cases hq
          exact hle
        · cases hq
      · rw [hother m hm] at hq
        exact h.ordered n m p q hnm hp hq
  · cases hcluster : cfg.SNAPSHOT_CLUSTER_MODE with
    | true =>
      rw [if_pos hcluster] at hnew
      rw [if_pos ⟨hmode, hcluster⟩] at hvec
      rw [if_neg (by simp [hcluster])] at hops
      rw [State.readerVectorOf, if_pos hcluster, readerVector_eq hs, Option.map_eq_some_iff]
        at hreader
      obtain ⟨past, hpast, rfl⟩ := hreader
      exact .inr ⟨past, hnew.trans hpast, fun c' _ => by rw [hvec], by simp [hops]⟩
    | false =>
      rw [if_neg (by simp [hcluster])] at hnew
      rw [if_pos ⟨hmode, hcluster⟩] at hops
      exact .inl ⟨hnew, hcluster, _, hops, rfl, hadv.owner⟩
  · have ha' : HasAcquired s c o' cts := by simpa [HasAcquired] using ha
    obtain ⟨past, hpast⟩ := h.acquired o' cts ha'
    exact ⟨past, snapshotPast_of_suffix hpast (List.suffix_cons _ _)⟩

theorem ClientStep.snapshotOK (h : ClientStep cfg vec c (s.clients c) cl o l) (hs : Reachable cfg s)
    (hinv : Inv cfg s) (hok : SnapshotOK cfg s c (s.clients c))
    (hmode : cfg.SNAPSHOT_ACQUISITION_TYPE = .COMPLETE)
    (hreader : s.readerVectorOf cfg c = some vec) :
    SnapshotOK cfg (s.setClient c cl o l) c cl := by
  obtain ⟨posts, hadv⟩ := h.advance
  have hset := h.settled (hinv.clients c)
  have htrx := fun hne => h.trx_of_not_idle hne
  have hnone : cl.oracleOps = (s.clients c).oracleOps →
      ∀ wr ∈ cl.oracleOps, wr.verb.readsOracle = false := by
    intro hops
    rw [hops, hset.oracleOps]
    simp
  cases h.vectorStep with
  | start hvec hops => exact hok.begin hs hset hadv hmode hreader hvec hops
  | snapshot hmode' => simp [hmode] at hmode'
  | acquire _ _ _ hvec hops =>
    exact hok.advance hset hadv (by simp) htrx (by simp [hvec]) (hnone hops)
  | commit _ hvec hops =>
    refine hok.advance hset hadv (by simp) htrx (fun c' hc' => ?_) (hnone hops)
    rw [hvec, Function.update_of_ne hc']
  | publish _ hvec hops =>
    refine hok.advance hset hadv (by simp) htrx (by simp [hvec]) fun wr hwr => ?_
    rw [hops, hset.oracleOps, List.nil_append, List.mem_singleton] at hwr
    rw [hwr]
    rfl
  | keep hvec hops _ _ hbegin =>
    exact hok.advance hset hadv hbegin htrx (by simp [hvec]) (hnone hops)

/-! ## Effects -/

theorem Event.snapshotPast_effect_of_ne {reply : Reply} (h : wr.verb ≠ .readVector) :
    (Event.effect c' wr reply).snapshotPast cfg c n tr = none := by
  obtain ⟨o, verb, sig⟩ := wr
  cases verb with
  | readVector => exact absurd rfl h
  | _ => rfl

theorem landVector_of_not_readsOracle {v : Verb} (h : v.readsOracle = false) :
    s.landVector v vec = vec := by
  cases v <;> first | rfl | cases h

theorem Client.oracleOps_complete (h : cl.Oldest cfg i wr) :
    (wr.verb.onOracle = true ∧ cl.oracleOps = wr :: (cl.complete i wr).oracleOps) ∨
      (wr.verb.onOracle = false ∧ (cl.complete i wr).oracleOps = cl.oracleOps) := by
  have hlane : ∀ w : WorkRequest, w.verb.onOracle = true → w.qp cfg = .oracle := by
    intro w hw
    unfold WorkRequest.qp
    revert hw
    cases w.verb <;> simp [Verb.onOracle, Verb.qp]
  cases hon : wr.verb.onOracle with
  | true =>
    exact .inl ⟨rfl, Fifo.filter_eq_cons h _ hon fun w hw => (hlane w hw).trans (hlane wr hon).symm⟩
  | false => exact .inr ⟨rfl, Fifo.filter_eraseIdx_of_neg h.getElem _ hon⟩

theorem SnapshotOK.read (h : SnapshotOK cfg s c cl) (hs : Reachable cfg s)
    (hawaits : AwaitsSnapshot cfg s c cl) (hverb : wr.verb = .readVector)
    (howner : wr.owner.t = cl.t) (htrace : s'.trace = .effect c wr .none :: s.trace)
    (ht : cl'.t = cl.t) (hvec : cl'.localTimestampVector = s.lastCommittedVector)
    (hops : cl'.oracleOps = []) : SnapshotOK cfg s' c cl' := by
  have hother : ∀ n, n ≠ cl.t → snapshotPast cfg c n s'.trace = snapshotPast cfg c n s.trace := by
    intro n hn
    rw [htrace]
    refine snapshotPast_cons_of_none ?_
    obtain ⟨o, verb, sig⟩ := wr
    cases hverb
    change o.t = cl.t at howner
    simp [Event.snapshotPast, howner, hn.symm]
  have hnew : snapshotPast cfg c cl.t s'.trace = some s.trace := by
    rw [htrace, snapshotPast, hawaits.past_eq, Option.none_or]
    obtain ⟨o, verb, sig⟩ := wr
    cases hverb
    change o.t = cl.t at howner
    simp [Event.snapshotPast, howner, hawaits.mode]
  refine ⟨fun n hn => ?_, fun n m p q hnm hp hq => ?_, fun _ => .inr ⟨s.trace, ?_⟩,
    fun o' cts ha => ?_⟩
  · rw [hother n (by omega)]
    exact h.future n (by omega)
  · by_cases hn : n = cl.t
    · by_cases hm : m = cl.t
      · rw [hn] at hp
        rw [hm, hp] at hq
        cases hq
        exact List.suffix_refl p
      · rw [hother m hm, h.future m (by omega)] at hq
        cases hq
    · rw [hother n hn] at hp
      by_cases hm : m = cl.t
      · rw [hm, hnew] at hq
        cases hq
        exact snapshotPast_suffix hp
      · rw [hother m hm] at hq
        exact h.ordered n m p q hnm hp hq
  · exact ⟨ht ▸ hnew, fun c' _ => by rw [hvec, lastCommittedVector_eq hs], by simp [hops]⟩
  · have ha' : HasAcquired s c o' cts := by simpa [HasAcquired, htrace] using ha
    obtain ⟨past, hpast⟩ := h.acquired o' cts ha'
    refine ⟨past, snapshotPast_of_suffix hpast ?_⟩
    rw [htrace]
    exact List.suffix_cons _ _

theorem SnapshotOK.effect (h : SnapshotOK cfg s c (s.clients c)) (hs : Reachable cfg s)
    (hcl : ClientOK cfg s c (s.clients c)) (ho : (s.clients c).Oldest cfg i wr) :
    SnapshotOK cfg (s.effect c i wr answer) c ((s.effect c i wr answer).clients c) := by
  have hwr := List.mem_of_getElem? ho.getElem
  rw [State.effect_clients_self]
  generalize hcl' : (s.land wr answer (s.clients c)).complete i wr = cl'
  have ht : cl'.t = (s.clients c).t := by rw [← hcl']; rfl
  have hphase : cl'.phase = (s.clients c).phase := by rw [← hcl']; rfl
  have hvec : cl'.localTimestampVector =
      s.landVector wr.verb (s.clients c).localTimestampVector := by rw [← hcl']; rfl
  have hops : (wr.verb.onOracle = true ∧ (s.clients c).oracleOps = wr :: cl'.oracleOps) ∨
      (wr.verb.onOracle = false ∧ cl'.oracleOps = (s.clients c).oracleOps) := by
    rw [← hcl']
    exact Client.oracleOps_complete ho
  by_cases hreads : wr.verb.readsOracle = true
  · -- only a transaction that waits for its snapshot reads the vector
    have hon : wr.verb.onOracle = true := by
      revert hreads
      cases wr.verb <;> simp [Verb.readsOracle, Verb.onOracle]
    have hops := (hops.resolve_right (by simp [hon])).2
    have hreading : (s.clients c).phase.status = .reading := by
      have hland := hcl.lands wr hwr
      cases hv : wr.verb with
      | readVector | readVectorEntry =>
        rw [hv] at hland
        exact Phase.status_of_readsVector (hland rfl).2.2
      | _ => simp [hv, Verb.readsOracle] at hreads
    rcases h.current (by simp [hreading]) with hawaits | ⟨past, hp⟩
    · obtain ⟨wr', hsingle, hverb, howner⟩ := hawaits.ops
      rw [hsingle] at hops
      obtain ⟨rfl, hnil⟩ := List.cons.inj hops
      refine h.read hs hawaits hverb howner ?_ ht ?_ hnil.symm
      · rw [State.effect_trace, hverb]
        rfl
      · rw [hvec, hverb]
        rfl
    · have hfalse := hp.landed wr (hops ▸ List.mem_cons_self)
      simp [hreads] at hfalse
  · have hverb : wr.verb ≠ .readVector := by
      intro hv
      simp [hv, Verb.readsOracle] at hreads
    rw [landVector_of_not_readsOracle (by simpa using hreads)] at hvec
    have hsame : ∀ n, snapshotPast cfg c n (s.effect c i wr answer).trace =
        snapshotPast cfg c n s.trace :=
      fun n => snapshotPast_cons_of_none (Event.snapshotPast_effect_of_ne hverb)
    refine h.congr hsame ht (fun o cts ha => by simpa [HasAcquired] using ha) fun hne => ?_
    rw [hphase] at hne
    rcases h.current hne with hawaits | ⟨past, hp⟩
    · obtain ⟨wr', hsingle, hverb', howner⟩ := hawaits.ops
      rcases hops with ⟨-, hops⟩ | ⟨-, hops⟩
      · rw [hsingle] at hops
        obtain ⟨rfl, -⟩ := List.cons.inj hops
        exact absurd hverb' hverb
      · refine .inl ⟨by rw [hsame, ht]; exact hawaits.past_eq, hawaits.mode, wr', ?_, hverb', ?_⟩
        · rw [hops, hsingle]
        · rw [ht, howner]
    · refine .inr ⟨past, by rw [hsame, ht]; exact hp.past_eq, ?_, fun w hw => hp.landed w ?_⟩
      · rw [hvec]
        exact hp.vector
      · rcases hops with ⟨-, hops⟩ | ⟨-, hops⟩
        · rw [hops]
          exact List.mem_cons_of_mem _ hw
        · rw [← hops]
          exact hw

/-! ## Runs -/

theorem Init.snapshotOK (h : Init cfg s) (c : ClientID) : SnapshotOK cfg s c (s.clients c) where
  future := by simp [h.trace, snapshotPast]
  ordered := by simp [h.trace, snapshotPast]
  current := by simp [(h.clients c).phase, Phase.status]
  acquired := by simp [HasAcquired, h.trace]

/-- **The snapshot of a transaction is the vector at one moment of the past**, in every reachable
state in which no commit timestamp has wrapped. -/
theorem snapshotOK_of_reachable (hmode : cfg.SNAPSHOT_ACQUISITION_TYPE = .COMPLETE)
    (h : Reachable cfg s) (hwrap : NoWrap cfg s) (c : ClientID) :
    SnapshotOK cfg s c (s.clients c) := by
  induction h generalizing c with
  | start hs => exact hs.snapshotOK c
  | next hs _ ha ih =>
    have hwrap' := hwrap.of_step ha
    have hinv := inv_of_reachable hs hwrap'
    have hok := ih hwrap'
    rcases step_client_cases ha c with ⟨vec, cl, o, l, ⟨hreader, -⟩, hstep, rfl⟩ |
      ⟨i, wr, answer, ho, rfl⟩ | helse
    · rw [State.setClient_clients_self]
      exact hstep.snapshotOK hs hinv (hok c) hmode hreader
    · exact (hok c).effect hs (hinv.clients c) ho
    · obtain ⟨e, htrace, hcpu, heffect⟩ := helse.event
      rw [helse.client]
      refine (hok c).frame (fun n => ?_) fun o' cts ha => ?_
      · rw [htrace]
        refine snapshotPast_cons_of_none ?_
        unfold Event.snapshotPast
        split
        · exact if_neg fun h => heffect _ _ (by rw [h.2.1])
        · exact if_neg fun h => hcpu _ _ (by rw [h.2.1])
        · rfl
      · rw [HasAcquired, htrace] at ha
        exact (List.mem_cons.1 ha).resolve_left (hcpu _ _ ·.symm)

/-! ## Visibility -/

/-- A timestamp that the vector of the past covers was acquired in the past. -/
theorem HasAcquired.of_le_vectorOf (ha : HasAcquired s c o cts) (h : Reachable cfg s)
    (hwrap : NoWrap cfg s) {s₀ : State} (h₀ : Reachable cfg s₀) (hpast : s₀.trace <:+ s.trace)
    (hle : cts ≤ s₀.lastCommittedVector c) : HasAcquired s₀ c o cts := by
  have hst := stamps_of_reachable h hwrap
  have hpos : 0 < cts := hst.positive _ (hasAcquired_iff.1 ha)
  rcases (vectorOK_of_reachable h₀ (hwrap.of_suffix hpast) c).entry with hzero | ⟨o', ho'⟩
  · rw [hzero] at hle
    exact absurd hpos (UInt32.not_lt.2 hle)
  · obtain ⟨later, hlater⟩ := hpast
    have hacq : s.acquisitions = later.filterMap Event.acquisition ++ s₀.acquisitions := by
      rw [State.acquisitions, ← hlater, List.filterMap_append]
      rfl
    have hmem := hasAcquired_iff.1 ha
    rw [hacq, List.mem_append] at hmem
    rcases hmem with hmem | hmem
    · have hsorted := hst.sorted
      rw [hacq, List.pairwise_append] at hsorted
      have hlt := hsorted.2.2 _ hmem _ (hasAcquired_iff.1 ho') rfl
      exact absurd hlt (UInt32.not_lt.2 hle)
    · exact hasAcquired_iff.2 hmem

theorem published_of_le (h : Reachable cfg s) (hwrap : NoWrap cfg s)
    (ha : HasAcquired s c o cts) (hpast : past <:+ s.trace) (hle : cts ≤ vectorOf past c)
    (hab : ¬ HasAborted s c o) : ∃ signaled reply,
      Event.effect c ⟨o, .writeVectorEntry c cts, signaled⟩ reply ∈ past := by
  obtain ⟨s₀, h₀, rfl⟩ := exists_past h hpast
  rw [← lastCommittedVector_eq h₀] at hle
  have ha₀ := ha.of_le_vectorOf h hwrap h₀ hpast hle
  rcases (vectorOK_of_reachable h₀ (hwrap.of_suffix hpast) c).resolved o cts ha₀ with
    ⟨-, -, hlt⟩ | ⟨reason, hmem⟩ | hpublished
  · exact absurd hlt (UInt32.not_lt.2 hle)
  · exact absurd ⟨reason, hpast.subset hmem⟩ hab
  · exact hpublished

/-- **What is visible to a visible transaction is visible.** Transaction `o` of client `c` is
visible to a transaction `m` of client `r` with the snapshot `past`; the timestamp `u` of client
`d` was visible to it, or was its client's own and older. -/
theorem visible_trans (hmode : cfg.SNAPSHOT_ACQUISITION_TYPE = .COMPLETE) (h : Reachable cfg s)
    (hwrap : NoWrap cfg s) (ha : HasAcquired s c o cts)
    (hsnap : snapshotPast cfg r m s.trace = some past)
    (hvis : (c = r ∧ o.t ≤ m) ∨ cts ≤ vectorOf past c)
    (hu : (d = c ∧ u ≤ cts) ∨
      ∃ p, snapshotPast cfg c o.t s.trace = some p ∧ u ≤ vectorOf p d) :
    d = r ∨ u ≤ vectorOf past d := by
  have hpast := snapshotPast_suffix hsnap
  rcases hu with ⟨rfl, hu⟩ | ⟨p, hp, hu⟩
  · rcases hvis with ⟨rfl, -⟩ | hle
    · exact .inl rfl
    · exact .inr (UInt32.le_trans hu hle)
  · right
    have hsuffix : p <:+ past := by
      rcases hvis with ⟨rfl, hle⟩ | hle
      · exact (snapshotOK_of_reachable hmode h hwrap c).ordered _ _ _ _ hle hp hsnap
      · obtain ⟨s₀, h₀, rfl⟩ := exists_past h hpast
        rw [← lastCommittedVector_eq h₀] at hle
        have ha₀ := ha.of_le_vectorOf h hwrap h₀ hpast hle
        obtain ⟨p', hp'⟩ :=
          (snapshotOK_of_reachable hmode h₀ (hwrap.of_suffix hpast) c).acquired o cts ha₀
        rw [snapshotPast_of_suffix hp' hpast] at hp
        cases hp
        exact snapshotPast_suffix hp'
    exact UInt32.le_trans hu (vectorOf_mono h hwrap hsuffix hpast d)

end RdmaSnapshot
