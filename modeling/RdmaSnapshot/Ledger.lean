import RdmaSnapshot.Course

/-!
# The transactions behind the versions of a record

The trace says which transactions locked a record and which of them put the old word back. The
versions of the record are those of the transactions that locked it and did not put the word back,
in the order in which they locked it, each computed from the version before it. A transaction that
holds the record now is still to install its version.
-/

namespace RdmaSnapshot

variable {cfg : Config} {s s' : State} {c c' : ClientID} {cl cl' : Client} {o : Owner}
  {l : CpuLabel} {k : Key} {i g : ℕ} {wr : WorkRequest} {answer : IndexAnswer}
  {vec : ClientID → UInt32} {t : Ticket} {stage : Stage}

/-- A transaction is identified by its client and its number. -/
def Ticket.id (t : Ticket) : ClientID × ℕ := (t.client, t.owner.t)

def Event.locks (k : Key) : Event → Option Ticket
  | .effect c ⟨o, .compareAndSwap k' oldTS newTS _, _⟩ (.word existing) =>
    if k' = k ∧ existing = oldTS then some ⟨c, o, newTS⟩ else none
  | _ => none

/-- The transaction of a WRITE that put the word of record `k` back. -/
def Event.reverts (k : Key) : Event → Option (ClientID × ℕ)
  | .effect c ⟨o, .writeTimestamp k' _, _⟩ _ => if k' = k then some (c, o.t) else none
  | _ => none

namespace State

/-- The transactions that locked record `k`, newest first. -/
def locked (s : State) (k : Key) : List Ticket := s.trace.filterMap (Event.locks k)

/-- The transactions that locked record `k` and put its word back. -/
def reverted (s : State) (k : Key) : List (ClientID × ℕ) := s.trace.filterMap (Event.reverts k)

/-- The transactions that locked record `k` and did not put its word back, newest first. -/
def lockers (s : State) (k : Key) : List Ticket :=
  (s.locked k).filter fun t => t.id ∉ s.reverted k

end State

/-- `Computed cfg k v₀ ts vs`: the versions `vs`, newest first, start from `v₀`, and each further
one was computed by the next of the transactions `ts` from the version before it. -/
inductive Computed (cfg : Config) (k : Key) (v₀ : Version (Row k.table)) :
    List Ticket → List (Version (Row k.table)) → Prop
  | start : Computed cfg k v₀ [] [v₀]
  | install {ts : List Ticket} {x y v : Version (Row k.table)}
      {past : List (Version (Row k.table))} {t : Ticket} (h : Computed cfg k v₀ ts (x :: past))
      (hy : SameVersion k y x) (hb : Built cfg t k y v) :
      Computed cfg k v₀ (t :: ts) (v :: x :: past)

structure Ledger (cfg : Config) (s : State) (k : Key) : Prop where
  nodup : ((s.locked k).map Ticket.id).Nodup
  subset : ∀ id ∈ s.reverted k, id ∈ (s.locked k).map Ticket.id
  pending : ∀ c, ∀ wr ∈ (s.clients c).outstanding, ∀ oldTS newTS b,
    wr.verb = .compareAndSwap k oldTS newTS b → (c, wr.owner.t) ∉ (s.locked k).map Ticket.id
  computed : ∃ ts, s.lockers k = ((s.holder k).map Prod.fst).toList ++ ts ∧
    Computed cfg k (s.populated k).head ts (s.versions k)

/-! ## What the trace says after an effect -/

namespace State

theorem locked_effect : (s.effect c i wr answer).locked k =
    (Event.locks k (.effect c wr (wr.verb.reply s.mem))).toList ++ s.locked k := by
  unfold locked
  rw [effect_trace, List.filterMap_cons]
  cases Event.locks k (.effect c wr (wr.verb.reply s.mem)) <;> rfl

theorem reverted_effect : (s.effect c i wr answer).reverted k =
    (Event.reverts k (.effect c wr (wr.verb.reply s.mem))).toList ++ s.reverted k := by
  unfold reverted
  rw [effect_trace, List.filterMap_cons]
  cases Event.reverts k (.effect c wr (wr.verb.reply s.mem)) <;> rfl

theorem locked_effect_of_ne (h : ∀ oldTS newTS b, wr.verb = .compareAndSwap k oldTS newTS b →
    (s.mem k).head.writeTimestamp ≠ oldTS) :
    (s.effect c i wr answer).locked k = s.locked k := by
  obtain ⟨o, verb, sig⟩ := wr
  rw [locked_effect]
  cases verb with
  | compareAndSwap k' oldTS newTS b =>
    have hne : ¬ (k' = k ∧ (s.mem k').head.writeTimestamp = oldTS) := by
      rintro ⟨rfl, hw⟩
      exact h oldTS newTS b rfl hw
    simp [Event.locks, Verb.reply, hne]
  | _ => rfl

theorem locked_effect_swap {oldTS newTS : Timestamp} {b : ℕ}
    (hv : wr.verb = .compareAndSwap k oldTS newTS b)
    (hw : (s.mem k).head.writeTimestamp = oldTS) :
    (s.effect c i wr answer).locked k = ⟨c, wr.owner, newTS⟩ :: s.locked k := by
  obtain ⟨o, verb, sig⟩ := wr
  cases hv
  simp [locked_effect, Event.locks, Verb.reply, hw]

theorem reverted_effect_of_ne (h : ∀ ts, wr.verb ≠ .writeTimestamp k ts) :
    (s.effect c i wr answer).reverted k = s.reverted k := by
  obtain ⟨o, verb, sig⟩ := wr
  rw [reverted_effect]
  cases verb with
  | writeTimestamp k' ts =>
    have hne : k' ≠ k := by
      rintro rfl
      exact h ts rfl
    simp [Event.reverts, hne]
  | _ => rfl

theorem reverted_effect_writeTimestamp {ts : Timestamp} (hv : wr.verb = .writeTimestamp k ts) :
    (s.effect c i wr answer).reverted k = (c, wr.owner.t) :: s.reverted k := by
  obtain ⟨o, verb, sig⟩ := wr
  cases hv
  simp [reverted_effect, Event.reverts]

theorem exists_of_mem_locked {n : ℕ} (h : (c, n) ∈ (s.locked k).map Ticket.id) :
    ∃ wr reply, Event.effect c wr reply ∈ s.trace ∧ wr.owner.t = n ∧ wr.verb.kind = .lock := by
  obtain ⟨t, ht, hid⟩ := List.mem_map.1 h
  obtain ⟨e, he, hlocks⟩ := List.mem_filterMap.1 ht
  unfold Event.locks at hlocks
  split at hlocks
  · split at hlocks
    · cases hlocks
      cases hid
      exact ⟨_, _, he, rfl, rfl⟩
    · cases hlocks
  · cases hlocks

end State

/-! ## Steps of the protocol -/

theorem Inv.compareAndSwap_unique (hinv : Inv cfg s) (ho : (s.clients c).Oldest cfg i wr)
    (hk : k.versioned = true) {oldTS newTS : Timestamp} {b : ℕ}
    (hv : wr.verb = .compareAndSwap k oldTS newTS b) {w : WorkRequest}
    (hw : w ∈ (s.clients c).outstanding.eraseIdx i) : w.verb.mutates k = false := by
  have hmut : wr.verb.mutates k = true := by simp [hv, Verb.mutates]
  obtain ⟨trx, htrx, -, hmem⟩ :=
    (hinv.clients c).writeSet_of_compareAndSwap (List.mem_of_getElem? ho.getElem) hv hk
  have hops := Client.ops_eq_cons ho hmut
  have hrest : ((s.clients c).complete i wr).ops k = [] := by
    cases (hinv.clients c).locking trx htrx _ hmem with
    | pending hpend =>
      rw [hpend] at hops
      exact (List.cons.inj hops).2.symm
    | acquired hnone | refused hnone => simp [hnone] at hops
  by_contra hm
  have hin : (w.owner, w.verb) ∈ ((s.clients c).complete i wr).ops k := by
    rw [Client.ops_eq_map_filter]
    exact List.mem_map.2 ⟨w, List.mem_filter.2 ⟨hw, by simpa using hm⟩, rfl⟩
  simp [hrest] at hin

namespace Ledger

variable (h : Ledger cfg s k)

include h

theorem congr (hlocked : s'.locked k = s.locked k) (hreverted : s'.reverted k = s.reverted k)
    (hholder : (s'.holder k).map Prod.fst = (s.holder k).map Prod.fst)
    (hversions : s'.versions k = s.versions k) (hpop : s'.populated = s.populated)
    (hpending : ∀ c, ∀ wr ∈ (s'.clients c).outstanding, ∀ oldTS newTS b,
      wr.verb = .compareAndSwap k oldTS newTS b →
        (c, wr.owner.t) ∉ (s.locked k).map Ticket.id) : Ledger cfg s' k where
  nodup := by
    rw [hlocked]
    exact h.nodup
  subset := by
    rw [hlocked, hreverted]
    exact h.subset
  pending := by
    rw [hlocked]
    exact hpending
  computed := by
    rw [State.lockers, hlocked, hreverted, hholder, hversions, hpop]
    exact h.computed

theorem pending_effect : ∀ c',
    ∀ w ∈ ((s.effect c i wr answer).clients c').outstanding, ∀ oldTS newTS b,
      w.verb = .compareAndSwap k oldTS newTS b →
        (c', w.owner.t) ∉ (s.locked k).map Ticket.id := by
  intro c' w hw
  refine h.pending c' w ?_
  by_cases hc : c' = c
  · subst hc
    rw [State.effect_clients_self] at hw
    exact List.mem_of_mem_eraseIdx hw
  · rwa [State.effect_clients_of_ne hc] at hw

theorem acquire (hinv : Inv cfg s) (hk : k.versioned = true) (ho : (s.clients c).Oldest cfg i wr)
    {oldTS newTS : Timestamp} {b : ℕ} (hv : wr.verb = .compareAndSwap k oldTS newTS b)
    (hw : (s.mem k).head.writeTimestamp = oldTS) (hfree : s.holder k = none) :
    Ledger cfg (s.effect c i wr answer) k := by
  have hlocked : (s.effect c i wr answer).locked k = ⟨c, wr.owner, newTS⟩ :: s.locked k :=
    State.locked_effect_swap hv hw
  have hreverted : (s.effect c i wr answer).reverted k = s.reverted k :=
    State.reverted_effect_of_ne fun ts hts => by simp [hv] at hts
  have hfresh : (c, wr.owner.t) ∉ (s.locked k).map Ticket.id :=
    h.pending c wr (List.mem_of_getElem? ho.getElem) _ _ _ hv
  have hkeep : (c, wr.owner.t) ∉ s.reverted k := fun hmem => hfresh (h.subset _ hmem)
  exact {
    nodup := by
      rw [hlocked, List.map_cons, List.nodup_cons]
      exact ⟨hfresh, h.nodup⟩
    subset := by
      rw [hlocked, hreverted]
      exact fun id hid => List.mem_cons_of_mem _ (h.subset id hid)
    pending := by
      intro c' w hw' oldTS' newTS' b' hv'
      rw [hlocked, List.map_cons, List.mem_cons, not_or]
      refine ⟨fun hid => ?_, h.pending_effect c' w hw' _ _ _ hv'⟩
      obtain rfl : c' = c := (Prod.mk.inj hid).1
      rw [State.effect_clients_self] at hw'
      have hnone := hinv.compareAndSwap_unique ho hk hv hw'
      simp [hv', Verb.mutates] at hnone
    computed := by
      obtain ⟨ts, hts, hcomp⟩ := h.computed
      refine ⟨ts, ?_, ?_⟩
      · have hnew : decide ((⟨c, wr.owner, newTS⟩ : Ticket).id ∉ s.reverted k) = true :=
          decide_eq_true hkeep
        rw [State.lockers, hlocked, hreverted, State.holder_effect_swap hv hw, List.filter_cons,
          if_pos hnew]
        rw [hfree] at hts
        exact congrArg _ hts
      · rw [State.versions_effect_of_ne fun v hv' => by simp [hv] at hv']
        exact hcomp }

theorem revert {ts : Timestamp} (hv : wr.verb = .writeTimestamp k ts)
    (hh : s.holder k = some (t, stage)) (ht : t.client = c) (howner : t.owner = wr.owner) :
    Ledger cfg (s.effect c i wr answer) k := by
  have hlocked : (s.effect c i wr answer).locked k = s.locked k :=
    State.locked_effect_of_ne fun _ _ _ hv' => by simp [hv] at hv'
  have hreverted : (s.effect c i wr answer).reverted k = t.id :: s.reverted k := by
    rw [State.reverted_effect_writeTimestamp hv, Ticket.id, ht, howner]
  obtain ⟨ts, hts, hcomp⟩ := h.computed
  rw [hh] at hts
  have hmem : t ∈ s.locked k := by
    have hlocker : t ∈ s.lockers k := by simp [hts]
    exact (List.mem_filter.1 hlocker).1
  exact {
    nodup := by
      rw [hlocked]
      exact h.nodup
    subset := by
      rw [hlocked, hreverted]
      intro id hid
      rcases List.mem_cons.1 hid with rfl | hid
      · exact List.mem_map_of_mem hmem
      · exact h.subset id hid
    pending := by
      rw [hlocked]
      exact h.pending_effect
    computed := by
      refine ⟨ts, ?_, ?_⟩
      · -- the holder is the only locker with its identity
        have hne : ∀ t' ∈ ts, t'.id ≠ t.id := by
          have hnodup : ((t :: ts).map Ticket.id).Nodup := by
            have hsub : t :: ts = s.lockers k := hts.symm
            rw [hsub]
            exact h.nodup.sublist (List.filter_sublist.map _)
          rw [List.map_cons, List.nodup_cons] at hnodup
          intro t' ht' hid
          exact hnodup.1 (hid ▸ List.mem_map_of_mem ht')
        have hfilter : (s.effect c i wr answer).lockers k =
            (s.lockers k).filter fun t' => t'.id ≠ t.id := by
          rw [State.lockers, State.lockers, hlocked, hreverted, List.filter_filter]
          refine List.filter_congr fun t' _ => ?_
          simp
        rw [hfilter, hts, State.holder_effect_writeTimestamp hv]
        simpa using hne
      · rw [State.versions_effect_of_ne fun v hv' => by simp [hv] at hv']
        exact hcomp }

theorem install {y v : Version (Row k.table)}
    (hv : wr.verb = .writeHead k v) (hh : s.holder k = some (t, stage))
    (hy : SameVersion k y (s.current k)) (hb : Built cfg t k y v) :
    Ledger cfg (s.effect c i wr answer) k := by
  have hlocked : (s.effect c i wr answer).locked k = s.locked k :=
    State.locked_effect_of_ne fun _ _ _ hv' => by simp [hv] at hv'
  have hreverted : (s.effect c i wr answer).reverted k = s.reverted k :=
    State.reverted_effect_of_ne fun ts hts => by simp [hv] at hts
  exact {
    nodup := by
      rw [hlocked]
      exact h.nodup
    subset := by
      rw [hlocked, hreverted]
      exact h.subset
    pending := by
      rw [hlocked]
      exact h.pending_effect
    computed := by
      obtain ⟨ts, hts, hcomp⟩ := h.computed
      refine ⟨t :: ts, ?_, ?_⟩
      · rw [State.lockers, hlocked, hreverted, State.holder_effect_writeHead hv]
        rw [hh] at hts
        exact hts
      · rw [State.versions_effect_writeHead hv, State.effect_populated]
        obtain ⟨x, past, hpast⟩ := List.exists_cons_of_ne_nil (s.versions_ne_nil k)
        have hx : s.current k = x := by simp [State.current, hpast]
        rw [hpast] at hcomp ⊢
        exact .install hcomp (hx ▸ hy) hb }

theorem effect (hinv : Inv cfg s) (hk : k.versioned = true) (ho : (s.clients c).Oldest cfg i wr) :
    Ledger cfg (s.effect c i wr answer) k := by
  cases hinv.recordStep ho hk with
  | other hv =>
    refine h.congr ?_ ?_ (by rw [State.holder_effect_of_not_mutates hv]) ?_ rfl
      h.pending_effect
    · exact State.locked_effect_of_ne fun _ _ _ hv' => by simp [hv', Verb.mutates] at hv
    · exact State.reverted_effect_of_ne fun _ hv' => by simp [hv', Verb.mutates] at hv
    · exact State.versions_effect_of_ne fun _ hv' => by simp [hv', Verb.mutates] at hv
  | refused hv hw =>
    refine h.congr ?_ ?_ (by rw [State.holder_effect_noSwap hv hw]) ?_ rfl h.pending_effect
    · refine State.locked_effect_of_ne fun oldTS' newTS' b' hv' => ?_
      rw [hv] at hv'
      cases hv'
      exact hw
    · exact State.reverted_effect_of_ne fun _ hv' => by simp [hv] at hv'
    · exact State.versions_effect_of_ne fun _ hv' => by simp [hv] at hv'
  | acquired hv hfree =>
    exact h.acquire hinv hk ho hv ((hinv.records k hk).head_of_free hfree).1 hfree
  | reverted hv hh ht howner => exact h.revert hv hh ht howner
  | pushed hv hh =>
    refine h.congr ?_ ?_ ?_ ?_ rfl h.pending_effect
    · exact State.locked_effect_of_ne fun _ _ _ hv' => by simp [hv] at hv'
    · exact State.reverted_effect_of_ne fun _ hv' => by simp [hv] at hv'
    · rw [State.holder_effect_writePointerList hv, hh]
      rfl
    · exact State.versions_effect_of_ne fun _ hv' => by simp [hv] at hv'
  | saved hv hh =>
    refine h.congr ?_ ?_ ?_ ?_ rfl h.pending_effect
    · exact State.locked_effect_of_ne fun _ _ _ hv' => by simp [hv] at hv'
    · exact State.reverted_effect_of_ne fun _ hv' => by simp [hv] at hv'
    · rw [State.holder_effect_writeOlderVersion hv, hh]
      rfl
    · exact State.versions_effect_of_ne fun _ hv' => by simp [hv] at hv'
  | installed hv hh _ _ hy hb => exact h.install hv hh hy hb

/-- The CPU of a client runs: it posts the CASes of a transaction that has locked nothing yet. -/
theorem setClient (hcourses : Courses cfg s) (hstep : ClientStep cfg vec c (s.clients c) cl o l) :
    Ledger cfg (s.setClient c cl o l) k := by
  refine h.congr rfl rfl rfl rfl rfl ?_
  intro c' wr hwr oldTS newTS b hv
  by_cases hc : c' = c
  · subst hc
    obtain ⟨posts, hadv⟩ := hstep.advance
    rw [State.setClient_clients_self, hadv.outstanding, List.mem_append, List.mem_map] at hwr
    rcases hwr with hwr | ⟨p, hp, rfl⟩
    · exact h.pending c' wr hwr _ _ _ hv
    · intro hmem
      obtain ⟨w, reply, hw, hn, hkind⟩ := State.exists_of_mem_locked hmem
      have hpkind : p.verb.kind = .lock := by
        change p.verb = _ at hv
        rw [hv]
        rfl
      -- CASes are posted by a transaction that so far has only read
      obtain ⟨hreading, hl⟩ : (s.clients c').phase.status = .reading ∧ l ≠ .begin := by
        have hstep := hadv.advance
        generalize (s.clients c').phase.status = st, cl.phase.status = st' at hstep
        cases hstep with
        | call | stop | abort | finish => cases hp
        | lock => exact ⟨rfl, by simp⟩
        | start hk | read hk | giveUp hk | commit hk | proceed hk =>
          simp [(hk p hp).1] at hpkind
      have ht : w.owner.t = (s.clients c').t := by
        have hnumber := hadv.number
        rw [if_neg hl] at hnumber
        rw [hn, ← hnumber]
        exact hadv.owner
      have hcur := ((hcourses.clients c').current w (.inr ⟨reply, hw⟩) ht (by simp [hreading])).2
      rw [hreading] at hcur
      simp [Status.allows, hkind] at hcur
  · rw [State.setClient_clients_of_ne hc] at hwr
    exact h.pending c' wr hwr _ _ _ hv

theorem readOracle : Ledger cfg (s.readOracle g) k :=
  h.congr rfl rfl rfl rfl rfl h.pending

end Ledger

theorem Init.ledger (h : Init cfg s) (k : Key) : Ledger cfg s k where
  nodup := by simp [State.locked, h.trace]
  subset := by simp [State.reverted, h.trace]
  pending := by
    intro c wr hwr
    simp [(h.clients c).outstanding] at hwr
  computed := by
    refine ⟨[], by simp [State.lockers, State.locked, h.trace, h.holder], ?_⟩
    rw [h.versions, h.mem]
    exact .start

/-- **The versions of a record are those of its lockers**, in every reachable state in which no
commit timestamp has wrapped. -/
theorem ledger_of_reachable (h : Reachable cfg s) (hwrap : NoWrap cfg s)
    (hk : k.versioned = true) : Ledger cfg s k := by
  induction h with
  | start hs => exact hs.ledger k
  | next hs _ ha ih =>
    have hwrap' := hwrap.of_step ha
    have hinv := inv_of_reachable hs hwrap'
    rcases step_cases ha with ⟨c, vec, cl, o, l, -, hstep, rfl⟩ |
      ⟨c, i, wr, answer, -, ho, rfl⟩ | ⟨g, -, rfl⟩
    · exact (ih hwrap').setClient (courses_of_reachable hs hwrap') hstep
    · exact (ih hwrap').effect hinv hk ho
    · exact (ih hwrap').readOracle

end RdmaSnapshot
