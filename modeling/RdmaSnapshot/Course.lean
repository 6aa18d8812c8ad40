import RdmaSnapshot.Advance

/-!
# What a client has posted so far

Every request a client has posted belongs to one of its transactions. Those of the transaction in
execution are of the kinds that belong to the course it has taken so far. In particular a
transaction that has not come to its commit has posted nothing that changes a record, the log, the
index or the oracle's vector, and once a transaction has aborted nothing of it is left in a queue.
-/

namespace RdmaSnapshot

variable {cfg : Config} {s s' : State} {c c' : ClientID} {cl cl' : Client} {o : Owner}
  {l : CpuLabel} {k : Key} {i g : ℕ} {wr : WorkRequest} {answer : IndexAnswer}
  {vec : ClientID → UInt32} {t : Ticket} {stage : Stage}

/-- Client `c`, in state `cl`, has posted `wr`: the request is outstanding or has taken effect. -/
def HasPosted (s : State) (c : ClientID) (cl : Client) (wr : WorkRequest) : Prop :=
  wr ∈ cl.outstanding ∨ ∃ reply, Event.effect c wr reply ∈ s.trace

/-- The kinds of verbs a transaction may have posted when it has come to a status. -/
def Status.allows : Status → VerbKind → Prop
  | .idle, _ => True
  | .reading, kind => kind = .read
  | .locking, kind => kind = .read ∨ kind = .lock
  | .reverting, kind => kind ≠ .commit
  | .committing, kind => kind ≠ .release

/-- The transaction of an abort: it is over, it left nothing in the queues, and it never posted
anything that belongs to a commit. -/
structure Withdrawn (s : State) (c : ClientID) (cl : Client) (n : ℕ) : Prop where
  le : n ≤ cl.t
  idle : n = cl.t → cl.phase.status = .idle
  gone : ∀ wr ∈ cl.outstanding, wr.owner.t ≠ n
  harmless : ∀ wr, HasPosted s c cl wr → wr.owner.t = n → wr.verb.kind ≠ .commit

/-- The invariant of client `c` in state `cl`. -/
structure Course (cfg : Config) (s : State) (c : ClientID) (cl : Client) : Prop where
  number : ∀ wr, HasPosted s c cl wr → wr.owner.t ≤ cl.t
  current : ∀ wr, HasPosted s c cl wr → wr.owner.t = cl.t → cl.phase.status ≠ .idle →
    cl.phase.trx = some wr.owner.trx ∧ cl.phase.status.allows wr.verb.kind
  covered : ∀ wr ∈ cl.outstanding, Covered cfg wr.owner.trx wr.verb wr.signaled
  aborted : ∀ o reason, Event.cpu c o (.finish (.ABORTED reason)) ∈ s.trace →
    Withdrawn s c cl o.t

def HeldOnLanes (cfg : Config) (s : State) : Prop :=
  ∀ k, k.versioned = true → ∀ t stage, s.holder k = some (t, stage) →
    QueuePair.server (cfg.serverOf k) ∈ t.owner.trx.lanes cfg

/-! ## The holder of a record -/

theorem Phase.lane_of_mem_writeSet {ph : Phase} {trx : Trx} {p : Key × ℕ}
    (h : p ∈ ph.writeSet cfg) (htrx : ph.trx = some trx) :
    QueuePair.server (cfg.serverOf p.1) ∈ trx.lanes cfg := by
  cases ph with
  | idle => simp [writeSet] at h
  | newOrder cart pc =>
    obtain rfl : Trx.newOrder cart = trx := Option.some.inj htrx
    cases pc with
    | locks cts =>
      rcases List.mem_append.1 h with h | h
      · split at h
        · cases h
        · rw [List.mem_singleton.1 h]
          simp [Trx.lanes, Config.serverOf, Config.qpOf]
      · obtain ⟨item, hitem, hk⟩ := NewOrderTransaction.mem_stockSlots.1 h
        rw [hk]
        simp only [Trx.lanes, Config.serverOf, List.mem_cons, List.mem_map]
        exact .inr (.inr ⟨item, List.mem_of_getElem? hitem, rfl⟩)
    | _ => simp [writeSet] at h
  | payment cart pc =>
    obtain rfl : Trx.payment cart = trx := Option.some.inj htrx
    cases pc with
    | locks cID cts =>
      simp only [writeSet, List.mem_cons, List.not_mem_nil, or_false] at h
      rcases h with rfl | rfl | rfl <;> simp [Trx.lanes, Config.serverOf, Config.qpOf]
    | _ => simp [writeSet] at h
  | delivery cart dID pc =>
    obtain rfl : Trx.delivery cart dID = trx := Option.some.inj htrx
    cases pc with
    | locks cID cts =>
      rw [List.mem_singleton.1 h]
      simp [Trx.lanes, Config.serverOf, Config.qpOf]
    | _ => simp [writeSet] at h

theorem RecordStep.holder_eq_some (h : RecordStep cfg s c wr k)
    (hh : (s.effect c i wr answer).holder k = some (t, stage)) :
    (∃ stage', s.holder k = some (t, stage')) ∨
      ∃ oldTS b, wr.verb = .compareAndSwap k oldTS t.word b ∧ t.client = c ∧
        t.owner = wr.owner := by
  cases h with
  | other hv => exact .inl ⟨stage, by rwa [State.holder_effect_of_not_mutates hv] at hh⟩
  | refused hv hw => exact .inl ⟨stage, by rwa [State.holder_effect_noSwap hv hw] at hh⟩
  | @acquired cts b hv =>
    by_cases hw : (s.mem k).head.writeTimestamp = (s.current k).writeTimestamp
    · rw [State.holder_effect_swap hv hw] at hh
      cases hh
      exact .inr ⟨_, b, hv, rfl, rfl⟩
    · exact .inl ⟨stage, by rwa [State.holder_effect_noSwap hv hw] at hh⟩
  | reverted hv => simp [State.holder_effect_writeTimestamp hv] at hh
  | pushed hv hh' =>
    rw [State.holder_effect_writePointerList hv, hh'] at hh
    cases hh
    exact .inl ⟨_, hh'⟩
  | saved hv hh' =>
    rw [State.holder_effect_writeOlderVersion hv, hh'] at hh
    cases hh
    exact .inl ⟨_, hh'⟩
  | installed hv => simp [State.holder_effect_writeHead hv] at hh

theorem ClientOK.writeSet_of_compareAndSwap (h : ClientOK cfg s c cl) (hwr : wr ∈ cl.outstanding)
    {oldTS newTS : Timestamp} {b : ℕ} (hv : wr.verb = .compareAndSwap k oldTS newTS b)
    (hk : k.versioned = true) :
    ∃ trx, cl.phase.trx = some trx ∧ wr.owner = ⟨cl.t, trx⟩ ∧ (k, b) ∈ cl.phase.writeSet cfg := by
  obtain ⟨⟨trx, htrx, ho⟩, -, haw⟩ := h.lands wr hwr (by rw [hv]; rfl)
  rw [hv] at haw
  exact ⟨trx, htrx, ho, haw.2 hk⟩

theorem HeldOnLanes.effect (h : HeldOnLanes cfg s) (hinv : Inv cfg s)
    (ho : (s.clients c).Oldest cfg i wr) :
    HeldOnLanes cfg (s.effect c i wr answer) := by
  intro k hk t stage hh
  rcases (hinv.recordStep ho hk).holder_eq_some hh with ⟨stage', hold⟩ | ⟨oldTS, b, hv, -, howner⟩
  · exact h k hk t stage' hold
  · obtain ⟨trx, htrx, hwr, hmem⟩ :=
      (hinv.clients c).writeSet_of_compareAndSwap (List.mem_of_getElem? ho.getElem) hv hk
    rw [howner, hwr]
    exact Phase.lane_of_mem_writeSet hmem htrx

/-! ## The end of a poll loop -/

/-- What the queue of a client whose CPU runs on cannot hold: requests whose result is waited for,
signaled requests, and requests on the queue pairs its poll loop covers. -/
structure Settled (cfg : Config) (cl : Client) : Prop where
  landed : ∀ wr ∈ cl.outstanding, wr.verb.lands = false
  unsignaled : ∀ wr ∈ cl.outstanding, wr.signaled = false
  lanes : ∀ q ∈ cl.waits cfg, ∀ wr ∈ cl.outstanding, wr.qp cfg ≠ q

theorem Polled.settled (h : Polled cfg s c cl) : Settled cfg cl where
  landed := h.landed
  unsignaled := by simpa [List.countP_eq_zero] using h.unsignaled
  lanes := fun q hq => Fifo.lane_eq_nil_iff.1 (h.lanes q hq)

theorem ClientStep.settled (h : ClientStep cfg vec c cl cl' o l) (hcl : ClientOK cfg s c cl) :
    Settled cfg cl := by
  cases h with
  | newOrder _ hidle | payment _ hidle | delivery _ hidle =>
    exact (hcl.polled_of_idle hidle).settled
  | resume htrx hpoll =>
    have hs := (hcl.poll hpoll).settled
    exact ⟨hs.landed, hs.unsignaled, hs.lanes⟩

theorem Verb.lands_of_kind {v : Verb} (h : v.kind = .read ∨ v.kind = .lock) :
    v.lands = true := by
  cases v <;> simp_all [kind, lands]

/-- Verbs of a commit conform only behind the lock of their own transaction. -/
theorem Conforms.owner_eq {m : Option (Ticket × Stage)} {cur : Version (Row k.table)}
    {ops : List (Owner × Verb)} (h : Conforms cfg k cur m ops) {p : Owner × Verb}
    (hp : p ∈ ops) : ∃ t stage, m = some (t, stage) ∧ p.1 = t.owner := by
  cases h with
  | free => cases hp
  | revert | push | save | install =>
    refine ⟨_, _, rfl, ?_⟩
    simp only [List.mem_cons, List.not_mem_nil, or_false] at hp
    rcases hp with rfl | rfl | rfl <;> rfl

theorem Course.lane_of_settled (h : Course cfg s c cl) (hcl : ClientOK cfg s c cl)
    (hheld : HeldOnLanes cfg s) (hset : Settled cfg cl) (hwr : wr ∈ cl.outstanding) :
    wr.qp cfg ∈ wr.owner.trx.lanes cfg := by
  cases h.covered wr hwr with
  | lands hl => simp [hset.landed wr hwr] at hl
  | signaled hs => simp [hset.unsignaled wr hwr] at hs
  | lane hq => exact hq
  | record k hk hm =>
    have hops : (wr.owner, wr.verb) ∈ cl.ops k := by
      rw [Client.ops_eq_map_filter]
      exact List.mem_map.2 ⟨wr, List.mem_filter.2 ⟨hwr, hm⟩, rfl⟩
    by_cases hw : k ∈ (cl.phase.writeSet cfg).map Prod.fst
    · -- a record that is being locked has nothing but its CAS pending
      exfalso
      obtain ⟨⟨k, b⟩, hp, rfl⟩ := List.mem_map.1 hw
      obtain ⟨trx, htrx⟩ := Phase.exists_trx (Phase.ne_idle_of_mem_writeSet hp)
      cases hcl.locking trx htrx _ hp with
      | pending hpend =>
        rw [hpend] at hops
        have hlands := hset.landed wr hwr
        rw [(Prod.mk.inj (List.mem_singleton.1 hops)).2] at hlands
        cases hlands
      | acquired hnone | refused hnone => simp [hnone] at hops
    · obtain ⟨t, stage, hmine, ho⟩ :=
        (hcl.conforms k hk hw).owner_eq (List.mem_append_left _ hops)
      change wr.owner = t.owner at ho
      rw [WorkRequest.qp, Verb.qp_of_mutates hm, ho]
      exact hheld k hk t stage (State.mine_eq_some.1 hmine).1

theorem Client.waits_of_reverting {trx : Trx} (h : cl.phase.status = .reverting)
    (htrx : cl.phase.trx = some trx) : cl.waits cfg = trx.lanes cfg := by
  cases hph : cl.phase with
  | idle => simp [hph, Phase.status] at h
  | newOrder cart pc =>
    rw [hph] at h htrx
    obtain rfl : Trx.newOrder cart = trx := Option.some.inj htrx
    cases pc with
    | reverts => simp [Client.waits, hph, Trx.lanes]
    | _ => cases h
  | payment cart pc =>
    rw [hph] at h htrx
    obtain rfl : Trx.payment cart = trx := Option.some.inj htrx
    cases pc with
    | reverts => simp [Client.waits, hph, Trx.lanes]
    | _ => cases h
  | delivery cart dID pc =>
    rw [hph] at h htrx
    obtain rfl : Trx.delivery cart dID = trx := Option.some.inj htrx
    cases pc with
    | reverts => simp [Client.waits, hph, Trx.lanes]
    | _ => cases h

/-- When a transaction that has not come to its commit runs on, nothing of it is in the queue. -/
theorem Course.gone (h : Course cfg s c cl) (hcl : ClientOK cfg s c cl)
    (hheld : HeldOnLanes cfg s) (hset : Settled cfg cl)
    (hstatus : cl.phase.status = .reading ∨ cl.phase.status = .reverting) :
    ∀ wr ∈ cl.outstanding, wr.owner.t ≠ cl.t := by
  intro wr hwr ht
  have hne : cl.phase.status ≠ .idle := by rcases hstatus with hst | hst <;> simp [hst]
  obtain ⟨htrx, hallows⟩ := h.current wr (.inl hwr) ht hne
  rcases hstatus with hst | hst
  · rw [hst] at hallows
    have hlands := Verb.lands_of_kind (.inl hallows)
    simp [hset.landed wr hwr] at hlands
  · have hlane := h.lane_of_settled hcl hheld hset hwr
    rw [← Client.waits_of_reverting hst htrx] at hlane
    exact hset.lanes _ hlane wr hwr rfl

/-! ## Steps -/

theorem AdvanceBy.hasPosted {posts : List Post} (h : AdvanceBy cfg cl cl' o l posts) :
    HasPosted (s.setClient c cl' o l) c cl' wr ↔
      HasPosted s c cl wr ∨ ∃ p ∈ posts, (⟨o, p.verb, p.signaled⟩ : WorkRequest) = wr := by
  simp only [HasPosted, h.outstanding, List.mem_append, List.mem_map, State.setClient_trace,
    List.mem_cons, reduceCtorEq, false_or]
  exact or_right_comm

theorem Status.allows_of_advance {trx : Trx} {st st' : Status} {posts : List Post}
    {kind : VerbKind} (h : Advance cfg trx st l posts st') (hne : st ≠ .idle)
    (hallows : st.allows kind) : st'.allows kind := by
  cases h with
  | call | start => exact absurd rfl hne
  | stop | abort | finish => trivial
  | read | proceed => exact hallows
  | lock => exact .inl hallows
  | giveUp | commit => rcases hallows with rfl | rfl <;> simp [allows]

theorem Advance.allows {trx : Trx} {st st' : Status} {posts : List Post}
    (h : Advance cfg trx st l posts st') : ∀ p ∈ posts, st'.allows p.verb.kind ∧
      Covered cfg trx p.verb p.signaled := by
  intro p hp
  cases h with
  | call | stop | abort | finish => cases hp
  | start h | read h | lock _ h | giveUp h | commit h | proceed h =>
    obtain ⟨hkind, hcov⟩ := h p hp
    exact ⟨by simp [Status.allows, hkind], hcov⟩

/-- The withdrawal of an earlier transaction is final. -/
theorem Withdrawn.advance {n : ℕ} {posts : List Post} (h : Withdrawn s c cl n)
    (hadv : AdvanceBy cfg cl cl' o l posts) : Withdrawn (s.setClient c cl' o l) c cl' n := by
  have hle := h.le
  have hnumber := hadv.number
  -- if the transaction is still the last one, the step cannot post anything
  have hlast : n = cl'.t → posts = [] ∧ cl'.phase.status = .idle := by
    intro hn
    obtain ⟨hbegin, hn⟩ := hadv.not_begin h.le hn
    exact hadv.of_idle hbegin (h.idle hn)
  have hnew : ∀ p ∈ posts, o.t ≠ n := by
    intro p hp hn
    rw [hadv.owner] at hn
    rw [(hlast hn.symm).1] at hp
    cases hp
  refine ⟨?_, fun hn => (hlast hn).2, ?_, ?_⟩
  · split at hnumber <;> omega
  · intro wr hwr
    rw [hadv.outstanding, List.mem_append, List.mem_map] at hwr
    rcases hwr with hwr | ⟨p, hp, rfl⟩
    · exact h.gone wr hwr
    · exact hnew p hp
  · intro wr hwr hn
    rcases hadv.hasPosted.1 hwr with hwr | ⟨p, hp, rfl⟩
    · exact h.harmless wr hwr hn
    · exact absurd hn (hnew p hp)

theorem Course.withdraw {reason : AbortReason} {posts : List Post} (h : Course cfg s c cl)
    (hgone : cl.phase.status = .reading ∨ cl.phase.status = .reverting →
      ∀ wr ∈ cl.outstanding, wr.owner.t ≠ cl.t)
    (hadv : AdvanceBy cfg cl cl' o (.finish (.ABORTED reason)) posts) :
    Withdrawn (s.setClient c cl' o (.finish (.ABORTED reason))) c cl' o.t := by
  have ht : cl'.t = cl.t := by simpa using hadv.number
  obtain ⟨hstatus, rfl, hidle⟩ : (cl.phase.status = .reading ∨ cl.phase.status = .reverting) ∧
      posts = [] ∧ cl'.phase.status = .idle := by
    have hstep := hadv.advance
    generalize cl.phase.status = st, cl'.phase.status = st' at hstep
    cases hstep <;> simp
  rw [hadv.owner]
  refine ⟨Nat.le_refl _, fun _ => hidle, ?_, ?_⟩
  · intro wr hwr
    rw [hadv.outstanding, List.map_nil, List.append_nil] at hwr
    rw [ht]
    exact hgone hstatus wr hwr
  · intro wr hwr hn
    rcases hadv.hasPosted.1 hwr with hwr | ⟨p, hp, -⟩
    · have hne : cl.phase.status ≠ .idle := by rcases hstatus with hst | hst <;> simp [hst]
      have hallows := (h.current wr hwr (hn.trans ht) hne).2
      rcases hstatus with hst | hst <;> rw [hst] at hallows
      · simp only [Status.allows] at hallows
        simp [hallows]
      · exact hallows
    · cases hp

theorem Course.advance {posts : List Post} (h : Course cfg s c cl)
    (hgone : cl.phase.status = .reading ∨ cl.phase.status = .reverting →
      ∀ wr ∈ cl.outstanding, wr.owner.t ≠ cl.t)
    (htrx : cl.phase.status ≠ .idle → cl.phase.trx = some o.trx)
    (hadv : AdvanceBy cfg cl cl' o l posts) : Course cfg (s.setClient c cl' o l) c cl' where
  number := by
    intro wr hwr
    have hnumber := hadv.number
    rcases hadv.hasPosted.1 hwr with hwr | ⟨p, hp, rfl⟩
    · have hle := h.number wr hwr
      split at hnumber <;> omega
    · exact Nat.le_of_eq hadv.owner
  current := by
    intro wr hwr ht hne
    rcases hadv.hasPosted.1 hwr with hwr | ⟨p, hp, rfl⟩
    · obtain ⟨hbegin, ht⟩ := hadv.not_begin (h.number wr hwr) ht
      have hne' : cl.phase.status ≠ .idle := fun hidle => hne (hadv.of_idle hbegin hidle).2
      obtain ⟨hwrTrx, hallows⟩ := h.current wr hwr ht hne'
      rw [hadv.trx hne, ← htrx hne']
      exact ⟨hwrTrx, Status.allows_of_advance hadv.advance hne' hallows⟩
    · exact ⟨hadv.trx hne, (hadv.advance.allows p hp).1⟩
  covered := by
    intro wr hwr
    rw [hadv.outstanding, List.mem_append, List.mem_map] at hwr
    rcases hwr with hwr | ⟨p, hp, rfl⟩
    · exact h.covered wr hwr
    · exact (hadv.advance.allows p hp).2
  aborted := by
    intro o' reason hmem
    rw [State.setClient_trace, List.mem_cons] at hmem
    rcases hmem with hev | hmem
    · cases hev
      exact h.withdraw hgone hadv
    · exact (h.aborted o' reason hmem).advance hadv

/-- What has happened to client `c` in a step that is not one of its CPU: at most that a request of
its own has taken effect. -/
structure Unmoved (s s' : State) (c : ClientID) : Prop where
  phase : (s'.clients c).phase = (s.clients c).phase
  number : (s'.clients c).t = (s.clients c).t
  outstanding : ∀ wr ∈ (s'.clients c).outstanding, wr ∈ (s.clients c).outstanding
  posted : ∀ wr, HasPosted s' c (s'.clients c) wr → HasPosted s c (s.clients c) wr
  events : ∀ o l, Event.cpu c o l ∈ s'.trace → Event.cpu c o l ∈ s.trace
  trace : s.trace ⊆ s'.trace

theorem Elsewhere.unmoved (h : Elsewhere s s' c) : Unmoved s s' c := by
  obtain ⟨hcl, e, htrace, hcpu, heffect⟩ := h
  refine ⟨by rw [hcl], by rw [hcl], by simp [hcl], ?_, fun o l hmem => ?_, by simp [htrace]⟩
  · rw [hcl]
    rintro wr (hwr | ⟨reply, hwr⟩)
    · exact .inl hwr
    · rw [htrace, List.mem_cons] at hwr
      exact .inr ⟨reply, hwr.resolve_left fun heq => heffect wr reply heq.symm⟩
  · rw [htrace, List.mem_cons] at hmem
    exact hmem.resolve_left fun heq => hcpu o l heq.symm

theorem Unmoved.effect (ho : (s.clients c).Oldest cfg i wr) :
    Unmoved s (s.effect c i wr answer) c' := by
  by_cases hc : c' = c
  · subst hc
    have hsub : ∀ w ∈ (s.clients c').outstanding.eraseIdx i, w ∈ (s.clients c').outstanding :=
      fun w hw => List.mem_of_mem_eraseIdx hw
    refine ⟨?_, ?_, ?_, ?_, fun o l hmem => by simpa using hmem, List.subset_cons_self _ _⟩
    all_goals rw [State.effect_clients_self]
    · rfl
    · rfl
    · exact hsub
    · rintro w (hw | ⟨reply, hw⟩)
      · exact .inl (hsub w hw)
      · rw [State.effect_trace, List.mem_cons] at hw
        rcases hw with hev | hw
        · cases hev
          exact .inl (List.mem_of_getElem? ho.getElem)
        · exact .inr ⟨reply, hw⟩
  · exact (Elsewhere.effect hc).unmoved

theorem step_moves {a : Action} (ha : step cfg s a = some s') (c : ClientID) :
    (∃ vec cl o l, a.Runs c (s.clients c).phase o ∧
      ClientStep cfg vec c (s.clients c) cl o l ∧ s' = s.setClient c cl o l) ∨ Unmoved s s' c := by
  rcases step_client_cases ha c with ⟨vec, cl, o, l, ⟨-, hrun⟩, hstep, rfl⟩ |
    ⟨i, wr, answer, ho, rfl⟩ | helse
  · exact .inl ⟨vec, cl, o, l, hrun, hstep, rfl⟩
  · exact .inr (.effect ho)
  · exact .inr helse.unmoved

theorem Course.unmoved (h : Course cfg s c (s.clients c)) (hu : Unmoved s s' c) :
    Course cfg s' c (s'.clients c) where
  number := by
    rw [hu.number]
    exact fun wr hwr => h.number wr (hu.posted wr hwr)
  current := by
    rw [hu.number, hu.phase]
    exact fun wr hwr => h.current wr (hu.posted wr hwr)
  covered := fun wr hwr => h.covered wr (hu.outstanding wr hwr)
  aborted := by
    intro o reason hmem
    have hw := h.aborted o reason (hu.events o _ hmem)
    exact ⟨hu.number ▸ hw.le, by rw [hu.number, hu.phase]; exact hw.idle,
      fun wr hwr => hw.gone wr (hu.outstanding wr hwr),
      fun wr hwr => hw.harmless wr (hu.posted wr hwr)⟩

/-- What holds of all clients and of the records they hold. -/
structure Courses (cfg : Config) (s : State) : Prop where
  held : HeldOnLanes cfg s
  clients : ∀ c, Course cfg s c (s.clients c)

theorem Init.courses (h : Init cfg s) : Courses cfg s where
  held := by
    intro k _ t stage hh
    simp [h.holder] at hh
  clients := by
    intro c
    have hout := (h.clients c).outstanding
    have hnone : ∀ wr, ¬ HasPosted s c (s.clients c) wr := by
      simp [HasPosted, hout, h.trace]
    exact ⟨fun wr hwr => absurd hwr (hnone wr), fun wr hwr => absurd hwr (hnone wr),
      by simp [hout], by simp [h.trace]⟩

theorem ClientStep.trx_of_ne_idle (h : ClientStep cfg vec c cl cl' o l) (hne : cl.phase ≠ .idle) :
    cl.phase.trx = some o.trx := by
  cases h with
  | newOrder _ hidle | payment _ hidle | delivery _ hidle => exact absurd hidle hne
  | resume htrx => exact htrx

theorem ClientStep.trx_of_not_idle (h : ClientStep cfg vec c cl cl' o l)
    (hne : cl.phase.status ≠ .idle) : cl.phase.trx = some o.trx :=
  h.trx_of_ne_idle fun hidle => hne (by rw [hidle]; rfl)

theorem HeldOnLanes.step {a : Action} (h : HeldOnLanes cfg s) (hinv : Inv cfg s)
    (ha : step cfg s a = some s') : HeldOnLanes cfg s' := by
  rcases step_cases ha with ⟨c, vec, cl, o, l, -, -, rfl⟩ | ⟨c, i, wr, answer, -, ho, rfl⟩ |
    ⟨g, -, rfl⟩
  · exact h
  · exact h.effect hinv ho
  · exact h

theorem Courses.step {a : Action} (h : Courses cfg s) (hinv : Inv cfg s)
    (ha : step cfg s a = some s') : Courses cfg s' := by
  refine ⟨h.held.step hinv ha, fun c => ?_⟩
  rcases step_moves ha c with ⟨vec, cl, o, l, -, hstep, rfl⟩ | hu
  · obtain ⟨posts, hadv⟩ := hstep.advance
    rw [State.setClient_clients_self]
    exact (h.clients c).advance
      ((h.clients c).gone (hinv.clients c) h.held (hstep.settled (hinv.clients c)))
      hstep.trx_of_not_idle hadv
  · exact (h.clients c).unmoved hu

/-- **Every client keeps to the course of its transactions** in every reachable state in which no
commit timestamp has wrapped. -/
theorem courses_of_reachable (h : Reachable cfg s) (hwrap : NoWrap cfg s) : Courses cfg s := by
  induction h with
  | start hs => exact hs.courses
  | next hs _ ha ih =>
    have hwrap' := hwrap.of_step ha
    exact (ih hwrap').step (inv_of_reachable hs hwrap') ha

/-- A transaction that has ended is over: its client is between transactions, or executes a later
one. -/
theorem over_of_finish (h : Reachable cfg s) {outcome : Outcome}
    (hmem : Event.cpu c o (.finish outcome) ∈ s.trace) :
    o.t ≤ (s.clients c).t ∧ (o.t = (s.clients c).t → (s.clients c).phase.status = .idle) := by
  induction h with
  | start hs => simp [hs.trace] at hmem
  | next hs _ ha ih =>
    rcases step_moves ha c with ⟨vec, cl, o₁, l, -, hstep, rfl⟩ | hu
    · obtain ⟨posts, hadv⟩ := hstep.advance
      rw [State.setClient_clients_self]
      have hnumber := hadv.number
      have hadvance := hadv.advance
      rcases List.mem_cons.1 hmem with hev | hmem
      · cases hev
        refine ⟨Nat.le_of_eq hadv.owner, fun _ => ?_⟩
        generalize cl.phase.status = st' at hadvance
        generalize Phase.status _ = st at hadvance
        cases hadvance <;> rfl
      · obtain ⟨hle, hidle⟩ := ih hmem
        refine ⟨by split at hnumber <;> omega, fun heq => ?_⟩
        obtain ⟨hbegin, heq⟩ := hadv.not_begin hle heq
        exact (hadv.of_idle hbegin (hidle heq)).2
    · rw [hu.number, hu.phase]
      exact ih (hu.events o _ hmem)

end RdmaSnapshot
