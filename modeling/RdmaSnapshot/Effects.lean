import RdmaSnapshot.Locking

/-!
# A work request takes effect

When a work request takes effect, every versioned record makes at most one step of the lock
protocol, on behalf of the client that posted the request. From this follow the invariant of the
records, what the other clients notice, and the invariant of the client itself.
-/

namespace RdmaSnapshot

variable {cfg : Config} {s : State} {c c' : ClientID} {cl : Client} {k : Key} {i : ℕ}
  {wr : WorkRequest} {answer : IndexAnswer}

/-- What a request of client `c` that takes effect in state `s` does to record `k`. -/
inductive RecordStep (cfg : Config) (s : State) (c : ClientID) (wr : WorkRequest) (k : Key) : Prop
  /-- The verb is about something else. -/
  | other (hv : wr.verb.mutates k = false)
  /-- The CAS found another word. -/
  | refused {oldTS newTS : Timestamp} {b : ℕ} (hv : wr.verb = .compareAndSwap k oldTS newTS b)
      (hw : (s.mem k).head.writeTimestamp ≠ oldTS)
  /-- The CAS swapped. -/
  | acquired {cts : UInt32} {b : ℕ}
      (hv : wr.verb = .compareAndSwap k (s.current k).writeTimestamp
        (lockTimestamp (s.current k).writeTimestamp c cts) b)
      (hfree : s.holder k = none) (hc : c.toNat < cfg.clientCnt)
      (hcts : cts.toNat < s.nextCts cfg c)
      (hfresh : ∀ u ∈ s.versions k, u.writeTimestamp.writer ≠ (c, cts))
  /-- The holder released the record. -/
  | reverted {t : Ticket} (hv : wr.verb = .writeTimestamp k (s.current k).writeTimestamp)
      (hh : s.holder k = some (t, .locked)) (ht : t.client = c) (ho : t.owner = wr.owner)
  /-- The holder wrote the pointer list. -/
  | pushed {t : Ticket} {list : List Timestamp} (hv : wr.verb = .writePointerList k list)
      (hh : s.holder k = some (t, .locked)) (ht : t.client = c) (ho : t.owner = wr.owner)
  /-- The holder wrote the current version to the ring. -/
  | saved {t : Ticket} {x : Version (Row k.table)}
      (hv : wr.verb = .writeOlderVersion k x.writeTimestamp.versionOffset.toNat x)
      (hh : s.holder k = some (t, .pushed)) (ht : t.client = c) (ho : t.owner = wr.owner)
      (hx : SameVersion k x (s.current k))
  /-- The holder installed the version it built from the current one. -/
  | installed {t : Ticket} {y v : Version (Row k.table)} (hv : wr.verb = .writeHead k v)
      (hh : s.holder k = some (t, .saved)) (ht : t.client = c) (ho : t.owner = wr.owner)
      (hy : SameVersion k y (s.current k)) (hb : Built cfg t k y v)

namespace RecordStep

theorem recordOK (h : RecordStep cfg s c wr k) (hrec : RecordOK cfg s k) :
    RecordOK cfg (s.effect c i wr answer) k := by
  cases h with
  | other hv => exact hrec.of_not_mutates hv
  | refused hv hw => exact hrec.noSwap hv hw
  | acquired hv hfree hc hcts hfresh =>
    exact hrec.acquire hfree hv hc hcts hfresh
  | reverted hv hh => exact hrec.revert hh hv
  | pushed hv hh => exact hrec.push hh hv
  | saved hv hh _ _ hx => exact hrec.save hh hv hx
  | installed hv hh _ _ hy hb => exact hrec.install hh hv hy hb

theorem holder_cases (h : RecordStep cfg s c wr k) (hrec : RecordOK cfg s k) :
    (s.effect c i wr answer).holder k = s.holder k ∨
    (∀ p, s.holder k = some p → p.1.client = c) ∧
      ∀ p, (s.effect c i wr answer).holder k = some p → p.1.client = c := by
  cases h with
  | other hv => exact .inl (State.holder_effect_of_not_mutates hv)
  | refused hv hw => exact .inl (State.holder_effect_noSwap hv hw)
  | acquired hv hfree =>
    right
    rw [hfree, State.holder_effect_swap hv (hrec.head_of_free hfree).1]
    simp
  | reverted hv hh ht =>
    right
    rw [hh, State.holder_effect_writeTimestamp hv]
    simpa using ht
  | pushed hv hh ht =>
    right
    rw [State.holder_effect_writePointerList hv, hh]
    simpa using ht
  | saved hv hh ht =>
    right
    rw [State.holder_effect_writeOlderVersion hv, hh]
    simpa using ht
  | installed hv hh ht =>
    right
    rw [hh, State.holder_effect_writeHead hv]
    simpa using ht

theorem mine_of_ne (h : RecordStep cfg s c wr k) (hrec : RecordOK cfg s k) (hne : c' ≠ c) :
    (s.effect c i wr answer).mine c' k = s.mine c' k := by
  rcases h.holder_cases hrec with hsame | ⟨hold, hnew⟩
  · rw [State.mine, hsame, State.mine]
  · have hnone : ∀ {s' : State}, (∀ p, s'.holder k = some p → p.1.client = c) →
        s'.mine c' k = none := by
      intro s' hall
      cases hh : s'.holder k with
      | none => exact State.mine_eq_none_of_holder hh
      | some p => exact State.mine_eq_none_of_ne hh (by rw [hall p hh]; exact hne.symm)
    rw [hnone hold, hnone hnew]

theorem versions_cases (h : RecordStep cfg s c wr k) :
    ((s.effect c i wr answer).versions k = s.versions k ∧
      (s.effect c i wr answer).current k = s.current k) ∨
    ∃ t v, s.holder k = some (t, .saved) ∧ t.client = c ∧
      (∃ offset, v.writeTimestamp = .setAll false false offset c t.word.timestamp) ∧
      (s.effect c i wr answer).versions k = v :: s.versions k ∧
      (s.effect c i wr answer).current k = v := by
  by_cases hinst : ∃ v, wr.verb = .writeHead k v
  · obtain ⟨v', hv'⟩ := hinst
    cases h with
    | installed hv hh ht _ _ hb =>
      right
      obtain ⟨offset, hword⟩ := hb.writeTimestamp_eq
      rw [ht] at hword
      exact ⟨_, _, hh, ht, ⟨offset, hword⟩, State.versions_effect_writeHead hv,
        State.current_effect_writeHead hv⟩
    | other hv => simp [hv', Verb.mutates] at hv
    | refused hv | acquired hv | reverted hv | pushed hv | saved hv => simp [hv'] at hv
  · have hne : ∀ v, wr.verb ≠ .writeHead k v := fun v hv => hinst ⟨v, hv⟩
    exact .inl ⟨State.versions_effect_of_ne hne, State.current_effect_of_ne hne⟩

end RecordStep

theorem frame_effect (hsteps : ∀ k, k.versioned = true → RecordStep cfg s c wr k)
    (hrec : RecordsOK cfg s) (hne : c' ≠ c) :
    Frame s (s.effect c i wr answer) c' where
  versions := fun _ _ hu => State.mem_versions_effect hu
  foreign := by
    intro k hk u hu
    rcases (hsteps k hk).versions_cases with ⟨hvers, -⟩ | ⟨t, v, -, -, ⟨offset, hword⟩, hvers, -⟩
    · rw [hvers] at hu
      exact .inl hu
    · rw [hvers] at hu
      rcases List.mem_cons.1 hu with rfl | hu
      · right
        rw [hword]
        exact hne.symm
      · exact .inl hu
  mine := fun k hk => (hsteps k hk).mine_of_ne (hrec k hk) hne
  current := by
    intro k hk hmine
    rcases (hsteps k hk).versions_cases with ⟨-, hcur⟩ | ⟨t, v, hh, ht, -, -, -⟩
    · exact hcur
    · exfalso
      exact hmine (State.mine_eq_none_of_ne hh (by rw [ht]; exact hne.symm))

/-! ## The queue of the client -/

theorem Client.ops_eq_map_filter : cl.ops k =
    (cl.outstanding.filter fun w => w.verb.mutates k).map fun w => (w.owner, w.verb) := by
  simp only [Client.ops, opsOn, List.filter_map]
  rfl

theorem Client.ops_eq_cons (ho : cl.Oldest cfg i wr)
    (hm : wr.verb.mutates k = true) :
    cl.ops k = (wr.owner, wr.verb) :: (cl.complete i wr).ops k := by
  have hlane : ∀ w : WorkRequest, w.verb.mutates k = true → w.qp cfg = wr.qp cfg := by
    intro w hw
    rw [WorkRequest.qp, WorkRequest.qp, Verb.qp_of_mutates hw, Verb.qp_of_mutates hm]
  rw [ops_eq_map_filter, Fifo.filter_eq_cons ho _ hm hlane, List.map_cons, ops_eq_map_filter]
  rfl

theorem Client.ops_complete (ho : cl.Oldest cfg i wr)
    (hm : wr.verb.mutates k = false) : (cl.complete i wr).ops k = cl.ops k := by
  rw [ops_eq_map_filter, ops_eq_map_filter]
  exact congrArg _ (Fifo.filter_eraseIdx_of_neg ho.getElem _ hm)

theorem Client.ops_land :
    ((s.land wr answer cl).complete i wr).ops k = (cl.complete i wr).ops k := rfl

/-! ## Steps of the protocol -/

theorem Conforms.recordStep {rest : List (Owner × Verb)}
    (h : Conforms cfg k (s.current k) (s.mine c k) ((wr.owner, wr.verb) :: rest)) :
    RecordStep cfg s c wr k := by
  generalize hmine : s.mine c k = m at h
  generalize hops : (wr.owner, wr.verb) :: rest = ops at h
  cases h with
  | free => cases hops
  | revert =>
    obtain ⟨howner, hv⟩ := Prod.mk.inj (List.cons.inj hops).1
    obtain ⟨hh, ht⟩ := State.mine_eq_some.1 hmine
    exact .reverted hv hh ht howner.symm
  | push =>
    obtain ⟨howner, hv⟩ := Prod.mk.inj (List.cons.inj hops).1
    obtain ⟨hh, ht⟩ := State.mine_eq_some.1 hmine
    exact .pushed hv hh ht howner.symm
  | save hx =>
    obtain ⟨howner, hv⟩ := Prod.mk.inj (List.cons.inj hops).1
    obtain ⟨hh, ht⟩ := State.mine_eq_some.1 hmine
    exact .saved hv hh ht howner.symm hx
  | install hy hb =>
    obtain ⟨howner, hv⟩ := Prod.mk.inj (List.cons.inj hops).1
    obtain ⟨hh, ht⟩ := State.mine_eq_some.1 hmine
    exact .installed hv hh ht howner.symm hy hb

theorem Conforms.effect {rest : List (Owner × Verb)}
    (h : Conforms cfg k (s.current k) (s.mine c k) ((wr.owner, wr.verb) :: rest)) :
    Conforms cfg k ((s.effect c i wr answer).current k) ((s.effect c i wr answer).mine c k)
      rest := by
  generalize hmine : s.mine c k = m at h
  generalize hops : (wr.owner, wr.verb) :: rest = ops at h
  cases h with
  | free => cases hops
  | revert =>
    obtain ⟨hwr, rfl⟩ := List.cons.inj hops
    rw [State.mine_eq_none_of_holder (State.holder_effect_writeTimestamp (Prod.mk.inj hwr).2)]
    exact .free
  | @push t x y v list hx hy hb =>
    obtain ⟨hwr, rfl⟩ := List.cons.inj hops
    have hv := (Prod.mk.inj hwr).2
    obtain ⟨hh, ht⟩ := State.mine_eq_some.1 hmine
    have hcur : (s.effect c i wr answer).current k = s.current k :=
      State.current_effect_of_ne fun v' hv' => by simp [hv] at hv'
    have hmine' : (s.effect c i wr answer).mine c k = some (t, .pushed) :=
      State.mine_eq_some.2 ⟨by rw [State.holder_effect_writePointerList hv, hh]; rfl, ht⟩
    rw [hcur, hmine']
    exact .save hx hy hb
  | @save t x y v hx hy hb =>
    obtain ⟨hwr, rfl⟩ := List.cons.inj hops
    have hv := (Prod.mk.inj hwr).2
    obtain ⟨hh, ht⟩ := State.mine_eq_some.1 hmine
    have hcur : (s.effect c i wr answer).current k = s.current k :=
      State.current_effect_of_ne fun v' hv' => by simp [hv] at hv'
    have hmine' : (s.effect c i wr answer).mine c k = some (t, .saved) :=
      State.mine_eq_some.2 ⟨by rw [State.holder_effect_writeOlderVersion hv, hh]; rfl, ht⟩
    rw [hcur, hmine']
    exact .install hy hb
  | install =>
    obtain ⟨hwr, rfl⟩ := List.cons.inj hops
    rw [State.mine_eq_none_of_holder (State.holder_effect_writeHead (Prod.mk.inj hwr).2)]
    exact .free

theorem ClientOK.recordStep (h : ClientOK cfg s c cl) (hrec : RecordsOK cfg s)
    (ho : cl.Oldest cfg i wr) (hk : k.versioned = true) :
    RecordStep cfg s c wr k := by
  by_cases hm : wr.verb.mutates k = true
  swap
  · exact .other (by simpa using hm)
  have hops := Client.ops_eq_cons ho hm
  by_cases hmem : k ∈ (cl.phase.writeSet cfg).map Prod.fst
  · -- the record is being locked, so the request is the CAS
    obtain ⟨⟨k, b⟩, hp, rfl⟩ := List.mem_map.1 hmem
    have hactive := h.active (Phase.ne_idle_of_mem_writeSet hp)
    have hcts := h.lockCts (Phase.isLocks_of_mem_writeSet hp)
    obtain ⟨trx, htrx⟩ := Phase.exists_trx (Phase.ne_idle_of_mem_writeSet hp)
    cases h.locking trx htrx _ hp with
    | pending hpend hmine hfresh =>
      rw [hops] at hpend
      have hv := (Prod.mk.inj (List.cons.inj hpend).1).2
      obtain ⟨u, hu, hsame⟩ := h.genuine _ hp
      by_cases hw : (s.mem k).head.writeTimestamp = (cl.copy k b).writeTimestamp
      · rw [hsame.1] at hv hw
        obtain ⟨hfree, rfl⟩ := (hrec k hk).current_of_word_eq hu hw
        exact .acquired hv hfree hactive hcts hfresh
      · exact .refused hv hw
    | acquired hpend => simp [hops] at hpend
    | refused hpend => simp [hops] at hpend
  · have hconf := h.conforms k hk hmem
    rw [hops, List.cons_append] at hconf
    exact hconf.recordStep

end RdmaSnapshot
