import RdmaSnapshot.OlderVersions
import RdmaSnapshot.Advance

/-!
# Version chains over whole runs

A commit shifts the pointer list of a record in its own buffer, puts the word of the replaced head
in front, and writes the list, then the replaced head into the ring, then the new head. The list it
shifts was read before the record was locked. It is still the list of the record, because the head
was read before the list and the lock was taken from the word of that head.

This is what keeps list and ring of a record together for Warehouse and Stock records. It does not
for the others: a Payment reads the list of its customer into the buffer of the district's list, and
a Delivery installs a customer in the ring slot of the version it replaces.
-/

namespace RdmaSnapshot

open DBExecutor

variable {cfg : Config} {s s' : State} {c : ClientID} {cl cl' : Client} {k : Key} {i : ℕ}
  {wr : WorkRequest} {answer : IndexAnswer} {t : Ticket}

/-! ## Records -/

/-- The pointer list of a record whose replaced versions are `vs`, newest first. -/
def pointers {B : Type} (V : ℕ) (vs : List (Version B)) : List Timestamp :=
  List.take V (vs.map Version.writeTimestamp ++ List.replicate V .empty)

theorem pushPointer_pointers {B : Type} (hV : 0 < cfg.VERSION_NUM) (v : Version B)
    (vs : List (Version B)) :
    pushPointer cfg v.writeTimestamp (pointers cfg.VERSION_NUM vs) =
      pointers cfg.VERSION_NUM (v :: vs) := by
  obtain ⟨n, hn⟩ := Nat.exists_eq_add_one.2 hV
  rw [pushPointer_eq _ (by simp [pointers]) hV, List.dropLast_eq_take, pointers, List.take_take]
  simp [pointers, hn]

/-- The number of newest versions, none or the current one, that the pointer list does not show. -/
def unlisted : Option (Ticket × Stage) → ℕ
  | some (_, .pushed) | some (_, .saved) => 0
  | none | some (_, .locked) => 1

/-- The number of newest versions, none or the current one, that the ring does not hold. -/
def unsaved : Option (Ticket × Stage) → ℕ
  | some (_, .saved) => 0
  | none | some (_, .locked) | some (_, .pushed) => 1

/-- The versions of a record are numbered from the oldest on. The number of a version determines
its ring slot; the pointer list and the ring show the newest of the versions that were replaced. -/
structure Chain (cfg : Config) (s : State) (k : Key) : Prop where
  offset : ∀ j v, (s.versions k).reverse[j]? = some v →
    v.writeTimestamp.versionOffset.toNat = j % cfg.VERSION_NUM
  list : (s.mem k).tsList = pointers cfg.VERSION_NUM ((s.versions k).drop (unlisted (s.holder k)))
  ring : ∀ j v, (s.versions k).reverse[j]? = some v →
    j + unsaved (s.holder k) < (s.versions k).length →
    (s.versions k).length ≤ j + cfg.VERSION_NUM + unsaved (s.holder k) →
      SameVersion k ((s.mem k).olderVersions (j % cfg.VERSION_NUM)) v

/-- What a step does to the version chain of record `k`. -/
inductive ChainStep (cfg : Config) (s s' : State) (k : Key) : Prop
  | kept (hversions : s'.versions k = s.versions k)
      (hunlisted : unlisted (s'.holder k) = unlisted (s.holder k))
      (hunsaved : unsaved (s'.holder k) = unsaved (s.holder k))
      (hlist : (s'.mem k).tsList = (s.mem k).tsList)
      (hring : (s'.mem k).olderVersions = (s.mem k).olderVersions)
  | pushed {t : Ticket} (hversions : s'.versions k = s.versions k)
      (hh : s.holder k = some (t, .locked)) (hh' : s'.holder k = some (t, .pushed))
      (hlist : (s'.mem k).tsList = pointers cfg.VERSION_NUM (s.versions k))
      (hring : (s'.mem k).olderVersions = (s.mem k).olderVersions)
  | saved {t : Ticket} {x : Version (Row k.table)} (hversions : s'.versions k = s.versions k)
      (hh : s.holder k = some (t, .pushed)) (hh' : s'.holder k = some (t, .saved))
      (hx : SameVersion k x (s.current k)) (hlist : (s'.mem k).tsList = (s.mem k).tsList)
      (hring : (s'.mem k).olderVersions = Function.update (s.mem k).olderVersions
        x.writeTimestamp.versionOffset.toNat x)
  | installed {t : Ticket} {y v : Version (Row k.table)}
      (hversions : s'.versions k = v :: s.versions k) (hh : s.holder k = some (t, .saved))
      (hh' : s'.holder k = none) (hy : SameVersion k y (s.current k)) (hb : Built cfg t k y v)
      (hlist : (s'.mem k).tsList = (s.mem k).tsList)
      (hring : (s'.mem k).olderVersions = (s.mem k).olderVersions)

/-- Every effect is such a step, if the pointer lists that are written are right. -/
theorem RecordStep.chainStep (h : RecordStep cfg s c wr k) (hrec : RecordOK cfg s k)
    (hpush : ∀ list, wr.verb = .writePointerList k list →
      list = pointers cfg.VERSION_NUM (s.versions k)) :
    ChainStep cfg s (s.effect c i wr answer) k := by
  cases h with
  | other hv =>
    have hmem : ((s.effect c i wr answer).mem k).tsList = (s.mem k).tsList ∧
        ((s.effect c i wr answer).mem k).olderVersions = (s.mem k).olderVersions := by
      rw [State.effect_mem]
      by_cases hfaa : ∃ wID dID, wr.verb = .fetchAndAdd wID dID ∧ k = .district wID dID
      · obtain ⟨wID, dID, hwr, rfl⟩ := hfaa
        simp [hwr, Verb.apply]
      · rw [Verb.apply_of_not_mutates hv fun wID dID hwr hk => hfaa ⟨wID, dID, hwr, hk⟩]
        exact ⟨rfl, rfl⟩
    refine .kept (State.versions_effect_of_ne fun v hwr => ?_) ?_ ?_ hmem.1 hmem.2
    · simp [hwr, Verb.mutates] at hv
    all_goals rw [State.holder_effect_of_not_mutates hv]
  | refused hv hw =>
    refine .kept (State.versions_effect_of_ne (by simp [hv])) ?_ ?_ ?_ ?_
    all_goals first
      | rw [State.holder_effect_noSwap hv hw]
      | simp [hv, Verb.apply, hw]
  | acquired hv hfree =>
    have hw := (hrec.head_of_free hfree).1
    refine .kept (State.versions_effect_of_ne (by simp [hv])) ?_ ?_ ?_ ?_
    all_goals first
      | rw [State.holder_effect_swap hv hw, hfree]; rfl
      | simp [hv, Verb.apply, hw]
  | reverted hv hh =>
    refine .kept (State.versions_effect_of_ne (by simp [hv])) ?_ ?_ ?_ ?_
    all_goals first
      | rw [State.holder_effect_writeTimestamp hv, hh]; rfl
      | simp [hv, Verb.apply]
  | pushed hv hh =>
    refine .pushed (State.versions_effect_of_ne (by simp [hv])) hh ?_ ?_ ?_
    · rw [State.holder_effect_writePointerList hv, hh]
      rfl
    · rw [← hpush _ hv]
      simp [hv, Verb.apply]
    · simp [hv, Verb.apply]
  | saved hv hh _ _ hx =>
    refine .saved (State.versions_effect_of_ne (by simp [hv])) hh ?_ hx ?_ ?_
    · rw [State.holder_effect_writeOlderVersion hv, hh]
      rfl
    all_goals simp [hv, Verb.apply]
  | installed hv hh _ _ hy hb =>
    refine .installed (State.versions_effect_writeHead hv) hh (State.holder_effect_writeHead hv) hy
      hb ?_ ?_
    all_goals simp [hv, Verb.apply]

/-- Outside the Customer table an installed version takes the next slot of the ring. -/
theorem Built.versionOffset_eq {y v : Version (Row k.table)} (h : Built cfg t k y v)
    (hk : k.table ≠ .customer) :
    v.writeTimestamp.versionOffset = nextVersionOffset cfg y.writeTimestamp := by
  cases h with
  | customer | delivered => exact absurd rfl hk
  | _ => rfl

theorem State.reverse_versions_getElem? (s : State) (k : Key) :
    (s.versions k).reverse[(s.versions k).length - 1]? = some (s.current k) := by
  have hlen := List.length_pos_iff.2 (s.versions_ne_nil k)
  rw [List.getElem?_reverse (by omega), ← s.head?_versions k, List.head?_eq_getElem?]
  congr 1
  omega

theorem Chain.step (h : Chain cfg s k) (hstep : ChainStep cfg s s' k) (hk : k.table ≠ .customer)
    (hpos : 0 < cfg.VERSION_NUM) (hV : cfg.VERSION_NUM ≤ 256) : Chain cfg s' k := by
  have hlen := List.length_pos_iff.2 (s.versions_ne_nil k)
  have hcur := h.offset _ _ (s.reverse_versions_getElem? k)
  cases hstep with
  | kept hversions hunlisted hunsaved hlist hring =>
    refine ⟨?_, ?_, ?_⟩
    · rw [hversions]
      exact h.offset
    · rw [hversions, hlist, hunlisted]
      exact h.list
    · rw [hversions, hunsaved, hring]
      exact h.ring
  | pushed hversions hh hh' hlist hring =>
    have hold := h.ring
    rw [hh] at hold
    refine ⟨?_, ?_, ?_⟩
    · rw [hversions]
      exact h.offset
    · rw [hversions, hlist, hh']
      rfl
    · rw [hversions, hh', hring]
      exact hold
  | @saved t x hversions hh hh' hx hlist hring =>
    have hold := h.list
    have hslot := h.ring
    rw [hh] at hold hslot
    refine ⟨?_, ?_, ?_⟩
    · rw [hversions]
      exact h.offset
    · rw [hversions, hlist, hh']
      exact hold
    · rw [hversions, hh', hring, hx.1, hcur]
      intro j v hj hlt hle
      simp only [unsaved, Nat.add_zero] at hlt hle hslot
      by_cases hlast : j = (s.versions k).length - 1
      · subst hlast
        rw [s.reverse_versions_getElem? k] at hj
        cases hj
        rw [Function.update_self]
        exact hx
      · -- the slot of another version that stays is not the slot of the current one
        rw [Function.update_of_ne]
        · exact hslot j v hj (by omega) (by omega)
        · intro heq
          have hdvd := Nat.dvd_of_mod_eq_zero (Nat.sub_mod_eq_zero_of_mod_eq heq.symm)
          have := Nat.le_of_dvd (by omega) hdvd
          omega
  | @installed t y v hversions hh hh' hy hb hlist hring =>
    have hold := h.list
    have hslot := h.ring
    rw [hh] at hold hslot
    refine ⟨?_, ?_, ?_⟩
    · rw [hversions, List.reverse_cons]
      intro j u hj
      rcases Nat.lt_or_ge j (s.versions k).length with hlt | hge
      · rw [List.getElem?_append_left (by simpa using hlt)] at hj
        exact h.offset j u hj
      · rw [List.getElem?_append_right (by simpa using hge), List.length_reverse] at hj
        obtain ⟨h0, rfl⟩ := List.getElem?_eq_some_iff.1 hj
        rw [List.length_singleton] at h0
        simp only [List.getElem_singleton]
        rw [hb.versionOffset_eq hk, toNat_nextVersionOffset hV, hy.1, hcur, Nat.mod_add_mod]
        · congr 1
          omega
        · rw [hy.1, hcur]
          exact Nat.mod_lt _ hpos
    · rw [hversions, hlist, hh']
      exact hold
    · rw [hversions, hh', hring, List.reverse_cons, List.length_cons]
      intro j u hj hlt hle
      simp only [unsaved, Nat.add_zero] at hlt hle hslot
      rw [List.getElem?_append_left (by rw [List.length_reverse]; omega)] at hj
      exact hslot j u hj (by omega) (by omega)

/-! ## Copies of pointer lists -/

/-- Copies of the head and of the pointer list of a record, the head read first: if the head is
still the current version and nobody has written the list, the list is still the record's. -/
structure ListSeen (cfg : Config) (s : State) (k : Key) (x : Version (Row k.table))
    (list : List Timestamp) : Prop where
  seen : Seen s k x
  current : x.writeTimestamp = (s.current k).writeTimestamp → unlisted (s.holder k) = 1 →
    list = pointers cfg.VERSION_NUM (s.versions k).tail

theorem State.current_congr (h : s'.versions k = s.versions k) : s'.current k = s.current k :=
  Option.some.inj (by rw [← s'.head?_versions, h, s.head?_versions])

theorem ListSeen.step {x : Version (Row k.table)} {list : List Timestamp}
    (h : ListSeen cfg s k x list) (hstep : ChainStep cfg s s' k) (hrec : RecordOK cfg s' k) :
    ListSeen cfg s' k x list := by
  cases hstep with
  | kept hversions hunlisted =>
    refine ⟨?_, ?_⟩
    · rw [Seen, hversions]
      exact h.seen
    · rw [hversions, hunlisted, State.current_congr hversions]
      exact h.current
  | pushed hversions _ hh' | saved hversions _ hh' =>
    refine ⟨?_, ?_⟩
    · rw [Seen, hversions]
      exact h.seen
    · rw [hh']
      intro _ hzero
      cases hzero
  | @installed t y v hversions _ _ _ hb =>
    have hv : s'.current k = v := Option.some.inj (by rw [← s'.head?_versions, hversions]; rfl)
    obtain ⟨offset, hword⟩ := hb.writeTimestamp_eq
    refine ⟨?_, ?_⟩
    · rw [Seen, hversions]
      exact h.seen.imp_right (Or.imp_right fun ⟨u, hu, hsame⟩ =>
        ⟨u, List.mem_cons_of_mem _ hu, hsame⟩)
    · -- the word of a new version was not seen before
      rw [hv]
      intro hxv
      exfalso
      rcases h.seen with hlocked | hdeleted | ⟨u, hu, hsame⟩
      · simp [hxv, hword] at hlocked
      · simp [hxv, hword] at hdeleted
      · have hnodup := hrec.lockWord.nodup
        rw [hversions] at hnodup
        refine (List.nodup_cons.1 hnodup).1 (List.mem_map.2 ⟨u, hu, ?_⟩)
        simp only [lockScheme]
        rw [← hsame.1, hxv]

/-- A pointer list is on its way only while its client holds the record and has written nothing
else; what it writes to the ring is the current version. -/
theorem Conforms.of_push {cur : Version (Row k.table)} {mine : Option (Ticket × Stage)}
    {ops : List (Owner × Verb)} (h : Conforms cfg k cur mine ops) {o : Owner}
    {list : List Timestamp} (hpush : (o, .writePointerList k list) ∈ ops) :
    (∃ t, mine = some (t, .locked)) ∧
      ∀ o' slot x, (o', .writeOlderVersion k slot x) ∈ ops → SameVersion k x cur := by
  cases h with
  | free => cases hpush
  | revert | save | install => simp at hpush
  | push _ hx =>
    refine ⟨⟨_, rfl⟩, fun o' slot x hsave => ?_⟩
    simp only [List.mem_cons, Prod.mk.injEq, reduceCtorEq, and_false, Verb.writeOlderVersion.injEq,
      heq_eq_eq, true_and, false_or, List.not_mem_nil, or_false] at hsave
    rw [hsave.2.2]
    exact hx

theorem ClientOK.of_push (h : ClientOK cfg s c cl) (hk : k.versioned = true)
    (hwr : wr ∈ cl.outstanding) {list : List Timestamp}
    (hv : wr.verb = .writePointerList k list) : (∃ t, s.holder k = some (t, .locked)) ∧
      ∀ wr' ∈ cl.outstanding, ∀ slot x, wr'.verb = .writeOlderVersion k slot x →
        SameVersion k x (s.current k) := by
  have hops : ∀ wr' ∈ cl.outstanding, wr'.verb.mutates k = true →
      (wr'.owner, wr'.verb) ∈ cl.ops k := fun wr' hwr' hm =>
    List.mem_filter.2 ⟨List.mem_map.2 ⟨wr', hwr', rfl⟩, hm⟩
  have hpush : (wr.owner, .writePointerList k list) ∈ cl.ops k :=
    hv ▸ hops wr hwr (by simp [hv, Verb.mutates])
  by_cases hset : k ∈ (cl.phase.writeSet cfg).map Prod.fst
  · -- a record that is being locked has nothing but its CAS on the way
    exfalso
    obtain ⟨p, hp, rfl⟩ := List.mem_map.1 hset
    have hne : cl.phase ≠ .idle := fun hidle => by simp [hidle, Phase.writeSet] at hp
    obtain ⟨trx, htrx⟩ := Phase.exists_trx hne
    cases h.locking trx htrx p hp with
    | pending heq | acquired heq | refused heq => simp [heq] at hpush
  · obtain ⟨⟨t, hmine⟩, hsave⟩ := (h.conforms k hk hset).of_push (List.mem_append_left _ hpush)
    refine ⟨⟨t, (State.mine_eq_some.1 hmine).1⟩, fun wr' hwr' slot x hx => ?_⟩
    exact hsave _ slot x (List.mem_append_left _ (hx ▸ hops wr' hwr' (by simp [hx, Verb.mutates])))

/-! ## The lists of a client -/

/-- The records whose version chain is kept. -/
def Key.chained : Key → Bool
  | .warehouse _ | .stock _ _ => true
  | _ => false

/-- What a transaction reads in order to push a word on the pointer list of a record: the record,
the entry of its head buffer, and the buffer of its list. -/
def Phase.listSet : Phase → List ((Key × ℕ) × ListBuffer)
  | .newOrder cart .readSet | .newOrder cart .snapshot | .newOrder cart (.olderVersions _)
  | .newOrder cart (.locks _) | .newOrder cart (.log _) =>
    cart.items.zipIdx.map fun p => ((.stock p.1.OL_SUPPLY_W_ID p.1.I_ID, p.2), .stockTS p.2)
  | .payment cart .readSet | .payment cart .lookup | .payment cart (.customer _)
  | .payment cart (.snapshot _) | .payment cart (.locks _ _) | .payment cart (.log _ _) =>
    [((.warehouse cart.wID, 0), .warehouseTS)]
  | _ => []

/-- The verbs that a chain depends on. -/
def Verb.onLists : Verb → Bool
  | .readHead k _ | .writePointerList k _ => k.chained
  | .readPointerList _ .warehouseTS | .readPointerList _ (.stockTS _) => true
  | _ => false

/-- The invariant of the copies of lists in client `cl`, and of the lists it writes. -/
structure ListsOK (cfg : Config) (s : State) (cl : Client) : Prop where
  own : ∀ wr ∈ cl.outstanding, ∀ k buf, wr.verb = .readPointerList k buf →
    ∀ e ∈ cl.phase.listSet, e.2 = buf → e.1.1 = k
  order : ∀ e ∈ cl.phase.listSet, Fifo.Followed (fun wr => wr.verb = .readHead e.1.1 e.1.2)
    (fun wr => wr.verb = .readPointerList e.1.1 e.2) cl.outstanding
  seen : ∀ e ∈ cl.phase.listSet,
    (∀ wr ∈ cl.outstanding, wr.verb ≠ .readPointerList e.1.1 e.2) →
      ListSeen cfg s e.1.1 (cl.copy e.1.1 e.1.2) (cl.buffers.pointerList e.2)
  written : ∀ wr ∈ cl.outstanding, ∀ k list, k.chained = true →
    wr.verb = .writePointerList k list → list = pointers cfg.VERSION_NUM (s.versions k)

theorem Key.versioned_of_chained (h : k.chained = true) : k.versioned = true := by
  cases k <;> first | rfl | cases h

theorem Key.table_of_chained (h : k.chained = true) :
    k.table ≠ .orderLine ∧ k.table ≠ .district ∧ k.table ≠ .customer := by
  cases k <;> first | cases h; done | simp

/-- What a list set consists of. -/
theorem Phase.of_mem_listSet {ph : Phase} {e : (Key × ℕ) × ListBuffer} (h : e ∈ ph.listSet) :
    e.1.1.chained = true ∧ (e.2 = .warehouseTS ∨ ∃ n, e.2 = .stockTS n) ∧
      (e.1.1.table = .stock ∨ ph.fetches = false) ∧ (ph.readsHeads = true → e.1 ∈ ph.readSet) := by
  cases ph with
  | idle | delivery => simp [listSet] at h
  | newOrder cart pc =>
    cases pc with
    | readSet | snapshot | olderVersions | locks | log =>
      obtain ⟨⟨item, n⟩, hx, rfl⟩ := List.mem_map.1 h
      refine ⟨rfl, .inr ⟨n, rfl⟩, .inl rfl, fun hreads => ?_⟩
      first
      | cases hreads; done
      | exact List.mem_append_right _ (NewOrderTransaction.mem_stockSlots.2
          ⟨item, List.mem_zipIdx_iff_getElem?.1 hx, rfl⟩)
    | _ => simp [listSet] at h
  | payment cart pc =>
    cases pc with
    | readSet | lookup | customer | snapshot | locks | log =>
      rw [List.mem_singleton.1 h]
      exact ⟨rfl, .inl rfl, .inr rfl, fun hreads => by
        first | cases hreads; done | simp [readSet]⟩
    | _ => simp [listSet] at h

theorem State.landLocal_pointerList_of_ne {v : Verb} {m : LocalMemory} {buf : ListBuffer}
    (h : ∀ k, v ≠ .readPointerList k buf) :
    (s.landLocal v m).pointerList buf = m.pointerList buf := by
  cases v with
  | readPointerList k buf' =>
    exact Function.update_of_ne (fun heq => h k (by rw [heq])) _ _
  | readVersion k ts =>
    simp only [landLocal]
    split <;> rfl
  | _ => rfl

/-- What happens to the records does not disturb what a client has read and writes. -/
theorem ListsOK.step (h : ListsOK cfg s cl) (hcl : ClientOK cfg s' c cl)
    (hstep : ∀ k, k.chained = true → ChainStep cfg s s' k) (hrec : RecordsOK cfg s') :
    ListsOK cfg s' cl where
  own := h.own
  order := h.order
  seen e he hnone := by
    have hk := (Phase.of_mem_listSet he).1
    exact (h.seen e he hnone).step (hstep _ hk) (hrec _ (Key.versioned_of_chained hk))
  written wr hwr k list hk hv := by
    obtain ⟨⟨t, hh⟩, -⟩ := hcl.of_push (Key.versioned_of_chained hk) hwr hv
    rw [h.written wr hwr k list hk hv]
    cases hstep k hk with
    | kept hversions | pushed hversions | saved hversions => rw [hversions]
    | installed _ _ hh' => simp [hh] at hh'

/-- A request of the client takes effect. -/
theorem ListsOK.effect (h : ListsOK cfg s cl) (hcl : ClientOK cfg s c cl) (ho : cl.Oldest cfg i wr)
    (hchain : ∀ k, k.chained = true → Chain cfg s k) :
    ListsOK cfg s ((s.land wr answer cl).complete i wr) := by
  have hbuffers : ((s.land wr answer cl).complete i wr).buffers =
      s.landLocal wr.verb cl.buffers := hcl.buffers_land ho
  have hsub : ∀ wr' ∈ cl.outstanding.eraseIdx i, wr' ∈ cl.outstanding :=
    fun wr' hwr' => List.mem_of_mem_eraseIdx hwr'
  have horder : ∀ e ∈ cl.phase.listSet, Fifo.Followed (fun wr => wr.verb = .readHead e.1.1 e.1.2)
      (fun wr => wr.verb = .readPointerList e.1.1 e.2) (cl.outstanding.eraseIdx i) := by
    intro e he
    refine (h.order e he).erase ho fun x y hx hy => ?_
    simp [WorkRequest.qp, Verb.qp, hx, hy]
  refine ⟨fun wr' hwr' => h.own wr' (hsub wr' hwr'), horder, fun e he hnone => ?_,
    fun wr' hwr' => h.written wr' (hsub wr' hwr')⟩
  obtain ⟨hk, -, hfetches, hreads⟩ := Phase.of_mem_listSet he
  -- no READ of the head is left behind the READ of the list
  have hhead : ∀ wr' ∈ cl.outstanding.eraseIdx i, wr'.verb ≠ .readHead e.1.1 e.1.2 := by
    intro wr' hwr' hv
    obtain ⟨y, hy, hlist⟩ := (horder e he).exists_of_mem hwr' hv
    exact hnone y hy hlist
  by_cases hv : wr.verb = .readPointerList e.1.1 e.2
  · have hawait := hcl.awaits_of_lands ho (by rw [hv]; rfl)
    rw [hv] at hawait
    have hcopy : ((s.land wr answer cl).complete i wr).copy e.1.1 e.1.2 = cl.copy e.1.1 e.1.2 := by
      rw [Client.copy, hbuffers, hv]
      rfl
    rw [hcopy, hbuffers, hv]
    refine ⟨?_, fun _ hunlisted => ?_⟩
    · refine (hcl.reads e.1 (hreads hawait)).resolve_left ?_
      rintro ⟨wr', hwr', hv'⟩
      exact hhead wr' (ho.mem_eraseIdx hwr' fun heq => by simp [heq, hv] at hv') hv'
    · simp only [State.landLocal, LocalMemory.setPointerList, Function.update_self]
      rw [(hchain _ hk).list, hunlisted, List.drop_one]
  · have hnone' : ∀ wr' ∈ cl.outstanding, wr'.verb ≠ .readPointerList e.1.1 e.2 := by
      intro wr' hwr' hv'
      exact hnone wr' (ho.mem_eraseIdx hwr' fun heq => hv (heq ▸ hv')) hv'
    have hmem : wr ∈ cl.outstanding := List.mem_of_getElem? ho.getElem
    have hcopy : ((s.land wr answer cl).complete i wr).copy e.1.1 e.1.2 = cl.copy e.1.1 e.1.2 := by
      rw [Client.copy, hbuffers]
      refine hcl.head_land_of_awaits ho (fun hheads k b hset hread => ?_) ?_ ?_ ?_
      · by_contra hsame
        push Not at hsame
        have hkb := hset (Key.versioned_of_table_eq hsame.1.symm (Key.versioned_of_chained hk))
        have heq := Phase.readSet_inj _ _ hkb _ (hreads hheads) hsame.1.symm hsame.2.symm
        obtain ⟨rfl, rfl⟩ : k = e.1.1 ∧ b = e.1.2 := ⟨congrArg Prod.fst heq, congrArg Prod.snd heq⟩
        obtain ⟨y, hy, hlist⟩ := (h.order e he).exists_of_mem hmem hread
        exact hnone' y hy hlist
      · exact fun _ => (Key.table_of_chained hk).1
      · intro hfetch k _ hstock
        rcases hfetches with htable | hnot
        · exact .inl (htable ▸ hstock.symm)
        · cases hnot.symm.trans hfetch
      · exact fun _ => (Key.table_of_chained hk).2.1
    rw [hcopy, hbuffers, State.landLocal_pointerList_of_ne]
    · exact h.seen e he hnone'
    · intro k hlist
      exact hv (by rw [hlist, h.own wr hmem k _ hlist e he rfl])

/-! ## Stretches of code -/

variable {vec : ClientID → UInt32} {o : Owner} {l : CpuLabel} {trx : Trx}
  {new : List WorkRequest} {posts : List Post}

theorem ListsOK.written_of_append (h : ListsOK cfg s cl)
    (hout : cl'.outstanding = cl.outstanding ++ new)
    (hnew : ∀ wr ∈ new, wr.verb.onLists = false) : ∀ wr ∈ cl'.outstanding, ∀ k list,
      k.chained = true → wr.verb = .writePointerList k list →
        list = pointers cfg.VERSION_NUM (s.versions k) := by
  intro wr hwr k list hk hv
  rw [hout] at hwr
  rcases List.mem_append.1 hwr with hwr | hwr
  · exact h.written wr hwr k list hk hv
  · have hnot := hnew wr hwr
    simp [hv, Verb.onLists, hk] at hnot

/-- Verbs that no chain depends on are posted. -/
theorem ListsOK.keep (h : ListsOK cfg s cl) (hset : cl'.phase.listSet = cl.phase.listSet)
    (hbuffers : cl'.buffers = cl.buffers) (hout : cl'.outstanding = cl.outstanding ++ new)
    (hnew : ∀ wr ∈ new, wr.verb.onLists = false) : ListsOK cfg s cl' where
  own wr hwr k buf hv e he hbuf := by
    rw [hset] at he
    rw [hout] at hwr
    rcases List.mem_append.1 hwr with hwr | hwr
    · exact h.own wr hwr k buf hv e he hbuf
    · have hnot := hnew wr hwr
      rw [hv, ← hbuf] at hnot
      rcases (Phase.of_mem_listSet he).2.1 with heq | ⟨n, heq⟩ <;> simp [heq, Verb.onLists] at hnot
  order e he := by
    rw [hset] at he
    rw [hout]
    refine (h.order e he).append (Fifo.followed_of_forall fun wr hwr hv => ?_)
    have hnot := hnew wr hwr
    simp [hv, Verb.onLists, (Phase.of_mem_listSet he).1] at hnot
  seen e he hnone := by
    rw [hset] at he
    rw [hout] at hnone
    rw [Client.copy, hbuffers]
    exact h.seen e he fun wr hwr => hnone wr (List.mem_append_left _ hwr)
  written := h.written_of_append hout hnew

/-- A transaction that has nothing to push any more. -/
theorem ListsOK.drop (h : ListsOK cfg s cl) (hset : cl'.phase.listSet = [])
    (hout : cl'.outstanding = cl.outstanding ++ new)
    (hnew : ∀ wr ∈ new, wr.verb.onLists = false) : ListsOK cfg s cl' where
  own := by simp [hset]
  order := by simp [hset]
  seen := by simp [hset]
  written := h.written_of_append hout hnew

/-- A transaction starts with posts in which the READ of every head is followed by the READ of its
list. -/
theorem ListsOK.start (h : ListsOK cfg s cl)
    (hquiet : ∀ wr ∈ cl.outstanding, wr.verb.lands = false)
    (hout : cl'.outstanding =
      cl.outstanding ++ (startPosts cfg ++ posts).map fun p => ⟨o, p.verb, p.signaled⟩)
    (hfetches : ∀ p ∈ posts, p.verb.fetches = true)
    (hown : ∀ p ∈ posts, ∀ k buf, p.verb = .readPointerList k buf →
      ∀ e ∈ cl'.phase.listSet, e.2 = buf → e.1.1 = k)
    (horder : ∀ e ∈ cl'.phase.listSet, Fifo.Followed
      (fun p : Post => p.verb = .readHead e.1.1 e.1.2)
      (fun p => p.verb = .readPointerList e.1.1 e.2) posts)
    (hlist : ∀ e ∈ cl'.phase.listSet, ∃ p ∈ posts, p.verb = .readPointerList e.1.1 e.2) :
    ListsOK cfg s cl' := by
  have hcases : ∀ wr ∈ cl'.outstanding, wr ∈ cl.outstanding ∨ wr.verb = .readVector ∨
      ∃ p ∈ posts, wr.verb = p.verb := by
    intro wr hwr
    rw [hout, List.map_append] at hwr
    rcases List.mem_append.1 hwr with hwr | hwr
    · exact .inl hwr
    rcases List.mem_append.1 hwr with hwr | hwr <;> obtain ⟨p, hp, rfl⟩ := List.mem_map.1 hwr
    · exact .inr (.inl (by rw [mem_startPosts hp]))
    · exact .inr (.inr ⟨p, hp, rfl⟩)
  refine ⟨fun wr hwr k buf hv => ?_, fun e he => ?_, fun e he hnone => ?_,
    fun wr hwr k list hk hv => ?_⟩
  · rcases hcases wr hwr with hold | hvec | ⟨p, hp, heq⟩
    · have hlands := hquiet wr hold
      simp [hv, Verb.lands] at hlands
    · simp [hv] at hvec
    · exact hown p hp k buf (heq ▸ hv)
  · rw [hout, List.map_append]
    refine (Fifo.followed_of_forall fun wr hwr hv => ?_).append
      ((Fifo.followed_of_forall fun wr hwr hv => ?_).append (Fifo.followed_map (horder e he)))
    · have hlands := hquiet wr hwr
      simp [hv, Verb.lands] at hlands
    · obtain ⟨p, hp, rfl⟩ := List.mem_map.1 hwr
      simp [mem_startPosts hp] at hv
  · obtain ⟨p, hp, hv⟩ := hlist e he
    refine absurd hv (hnone ⟨o, p.verb, p.signaled⟩ ?_)
    rw [hout]
    exact List.mem_append_right _ (List.mem_map.2 ⟨p, List.mem_append_right _ hp, rfl⟩)
  · rcases hcases wr hwr with hold | hvec | ⟨p, hp, heq⟩
    · exact h.written wr hold k list hk hv
    · simp [hv] at hvec
    · have hread := hfetches p hp
      simp [← heq, hv, Verb.fetches] at hread

theorem Starts.lists {ph : Phase} (h : Starts cfg ph trx cl'.phase posts) (hl : ListsOK cfg s cl)
    (hquiet : ∀ wr ∈ cl.outstanding, wr.verb.lands = false)
    (hout : cl'.outstanding =
      cl.outstanding ++ (startPosts cfg ++ posts).map fun p => ⟨o, p.verb, p.signaled⟩) :
    ListsOK cfg s cl' := by
  refine hl.start hquiet hout h.fetches ?_ ?_ ?_
  all_goals
    generalize cl'.phase = p at h
    cases h with
    | delivery => simp [Phase.listSet]
    | payment cart =>
      simp [Phase.listSet, PaymentTransaction.readSetPosts, retrieveWarehouse,
        retrieveWarehousePointerList, retrieveDistrict, retrieveDistrictPointerList, Fifo.Followed]
    | newOrder cart => ?_
  · intro p hp k buf hv e he hbuf
    obtain ⟨⟨item, n⟩, hx, rfl⟩ := List.mem_map.1 he
    rw [NewOrderTransaction.readSetPosts_eq, List.mem_append] at hp
    rcases hp with hp | hp
    · simp only [List.mem_cons, List.not_mem_nil, or_false] at hp
      rcases hp with rfl | rfl | rfl | rfl | rfl | rfl <;> cases hv <;> cases hbuf
    · obtain ⟨⟨item', n'⟩, hx', hp⟩ := List.mem_flatMap.1 hp
      simp only [NewOrderTransaction.linePosts, List.mem_cons, List.not_mem_nil, or_false] at hp
      rcases hp with rfl | rfl | rfl <;> cases hv
      cases hbuf
      rw [List.mem_zipIdx_iff_getElem?] at hx hx'
      cases hx.symm.trans hx'
      rfl
  · intro e he
    obtain ⟨⟨item, n⟩, hx, rfl⟩ := List.mem_map.1 he
    rw [NewOrderTransaction.readSetPosts_eq]
    refine Fifo.Followed.append ?_ (Fifo.followed_flatMap fun x _ => ?_)
    · simp [retrieveWarehouse, retrieveWarehousePointerList, retrieveDistrict,
        retrieveDistrictPointerList, retrieveCustomer, retrieveCustomerPointerList, Fifo.Followed]
    · simp +contextual [NewOrderTransaction.linePosts, retrieveItem, retrieveStock,
        retrieveStockPointerList, Fifo.Followed]
  · intro e he
    obtain ⟨⟨item, n⟩, hx, rfl⟩ := List.mem_map.1 he
    rw [NewOrderTransaction.readSetPosts_eq]
    refine ⟨retrieveStockPointerList n item.I_ID item.OL_SUPPLY_W_ID true,
      List.mem_append_right _ (List.mem_flatMap.2 ⟨(item, n), hx, ?_⟩), rfl⟩
    simp [NewOrderTransaction.linePosts]

/-- A commit pushes words that were read with the lists, and saves the versions they belong to. -/
theorem ListsOK.commit {o' : Owner} (h : ListsOK cfg s cl) (hrec : RecordsOK cfg s)
    (hV : 0 < cfg.VERSION_NUM) (hquiet : ∀ wr ∈ cl.outstanding, wr.verb.lands = false)
    (hcl' : ClientOK cfg (s.setClient c cl' o l) c cl') (hset' : cl'.phase.listSet = [])
    (hout : cl'.outstanding = cl.outstanding ++ posts.map fun p => ⟨o', p.verb, p.signaled⟩)
    (hpush : ∀ q ∈ posts, ∀ k list, k.chained = true → q.verb = .writePointerList k list →
      ∃ e ∈ cl.phase.listSet, (e.1.1.Names (cl.copy e.1.1 e.1.2).body → e.1.1 = k) ∧
        list = pushPointer cfg (cl.copy e.1.1 e.1.2).writeTimestamp (cl.buffers.pointerList e.2) ∧
        ∃ q' ∈ posts, ∃ slot x, q'.verb = .writeOlderVersion k slot x ∧
          x.writeTimestamp = (cl.copy e.1.1 e.1.2).writeTimestamp) : ListsOK cfg s cl' := by
  refine ⟨by simp [hset'], by simp [hset'], by simp [hset'], fun wr hwr k list hk hv => ?_⟩
  have hposted : ∀ q ∈ posts, ⟨o', q.verb, q.signaled⟩ ∈ cl'.outstanding := by
    intro q hq
    rw [hout]
    exact List.mem_append_right _ (List.mem_map.2 ⟨q, hq, rfl⟩)
  have hversioned := Key.versioned_of_chained hk
  obtain ⟨⟨t, hh⟩, hsaves⟩ := hcl'.of_push hversioned hwr hv
  rw [hout] at hwr
  rcases List.mem_append.1 hwr with hwr | hwr
  · exact h.written wr hwr k list hk hv
  obtain ⟨q, hq, rfl⟩ := List.mem_map.1 hwr
  obtain ⟨⟨⟨k', b⟩, buf⟩, he, hkey, rfl, q', hq', slot, x, hsave, hword⟩ := hpush q hq k list hk hv
  -- what is saved is the current version, so that its word was read as it is now
  have hcur := (hsaves _ (hposted q' hq') slot x hsave).1
  rw [State.current_setClient, hword] at hcur
  have hunlocked : (s.current k).writeTimestamp.isLocked ≠ true :=
    (hrec k hversioned).lockWord.unlocked _ (s.current_mem k)
  have halive := (hrec k hversioned).alive _ (s.current_mem k)
  have hseen := h.seen _ he fun wr hwr hv => by simpa [hv, Verb.lands] using hquiet wr hwr
  have hnames : k'.Names (cl.copy k' b).body := by
    rcases hseen.seen with hlocked | hdeleted | ⟨u, hu, hsame⟩
    · exact absurd (hcur ▸ hlocked) hunlocked
    · simp [hcur, halive] at hdeleted
    · exact (Key.names_iff_of_mask_eq hsame.2).2
        ((hrec k' (Key.versioned_of_chained (Phase.of_mem_listSet he).1)).names u hu)
  obtain rfl := hkey hnames
  rw [hseen.current hcur (by rw [show s.holder k' = _ from hh]; rfl), hcur,
    pushPointer_pointers hV, ← List.eq_cons_of_mem_head? (s.head?_versions k')]

theorem NewOrderTransaction.lists_append {base : Client} {cart : NewOrderCart} {rest : List Post}
    {o' : Owner} (hl : ListsOK cfg s cl) (hrec : RecordsOK cfg s) (hV : 0 < cfg.VERSION_NUM)
    (hquiet : ∀ wr ∈ cl.outstanding, wr.verb.lands = false)
    (hcl' : ClientOK cfg (s.setClient c cl' o l) c cl')
    (hset : cl.phase.listSet = (Phase.newOrder cart .readSet).listSet)
    (hbuffers : cl.buffers = buffers base) (hset' : cl'.phase.listSet = [])
    (hrest : ∀ q ∈ rest, q.verb.onLists = false) (hout : cl'.outstanding = cl.outstanding ++
      (appendPosts cfg base cart ++ rest).map fun p => ⟨o', p.verb, p.signaled⟩) :
    ListsOK cfg s cl' := by
  refine hl.commit hrec hV hquiet hcl' hset' hout fun q hq k list hk hv => ?_
  rcases List.mem_append.1 hq with hq | hq
  swap
  · have hnot := hrest q hq
    simp [hv, Verb.onLists, hk] at hnot
  rcases List.mem_append.1 hq with hdistrict | hline
  · split at hdistrict
    · cases hdistrict
    · rcases List.mem_pair.1 hdistrict with rfl | rfl <;> cases hv
      cases hk
  obtain ⟨⟨item, n⟩, hx, hline⟩ := List.mem_flatMap.1 hline
  have hsave : updateStockOlderVersions (stockV base n) item.OL_SUPPLY_W_ID false ∈
      appendPosts cfg base cart :=
    List.mem_append_right _ (List.mem_flatMap.2 ⟨(item, n), hx, by simp⟩)
  rcases List.mem_pair.1 hline with rfl | rfl <;> cases hv
  have hlt : n < cart.items.length :=
    (List.getElem?_eq_some_iff.1 (List.mem_zipIdx_iff_getElem?.1 hx)).1
  refine ⟨((.stock item.OL_SUPPLY_W_ID item.I_ID, n), .stockTS n), ?_, fun hnames => ?_, ?_,
    _, List.mem_append_left _ hsave, _, _, rfl, ?_⟩
  · rw [hset]
    exact List.mem_map.2 ⟨(item, n), hx, rfl⟩
  · rw [Client.copy, hbuffers] at hnames
    rw [← hnames.2]
    rfl
  · rw [Client.copy, hbuffers, pushedLists, if_pos hlt]
    rfl
  · rw [Client.copy, hbuffers]
    rfl

theorem Reads.lists {p : Phase} (h : Reads cfg c cl trx p posts) :
    p.listSet = cl.phase.listSet ∧ p.cls = cl.phase.cls ∧ ∀ q ∈ posts, q.verb.onLists = false := by
  cases h with
  | newOrder hph hpc =>
    refine ⟨by rcases hpc with rfl | rfl <;> rw [hph] <;> rfl, by rw [hph]; rfl, fun q hq => ?_⟩
    obtain ⟨k, ind, ts, rfl, -⟩ := NewOrderTransaction.exists_of_mem_checkVersions hq
    rcases retrieveOlderVersion_cases cfg k ind ts with ⟨slot, heq⟩ | heq <;> rw [heq] <;> rfl
  | lookup hph =>
    refine ⟨by rw [hph]; rfl, by rw [hph]; rfl, fun q hq => ?_⟩
    rw [List.mem_singleton.1 hq]
    rfl
  | payment hph hpc =>
    refine ⟨by rcases hpc with rfl | rfl <;> rw [hph] <;> rfl, by rw [hph]; rfl, fun q hq => ?_⟩
    rcases List.mem_pair.1 hq with rfl | rfl <;> rfl
  | orderRows hph =>
    refine ⟨by rw [hph]; rfl, by rw [hph]; rfl, fun q hq => ?_⟩
    simp only [DeliveryTransaction.orderRowsPosts, List.mem_cons, List.not_mem_nil, or_false] at hq
    rcases hq with rfl | rfl | rfl <;> rfl
  | delivery hph =>
    refine ⟨by rw [hph]; rfl, by rw [hph]; rfl, fun q hq => ?_⟩
    rcases List.mem_pair.1 hq with rfl | rfl <;> rfl
  | @olderVersion cart dID _ cID _ hph _ _ hfetch =>
    refine ⟨by rw [hph]; rfl, by rw [hph]; rfl, fun q hq => ?_⟩
    obtain ⟨ind, ts, rfl⟩ := mem_fetchOlderVersion hfetch hq
    rcases retrieveOlderVersion_cases cfg (.customer cart.wID dID cID) ind ts
      with ⟨slot, heq⟩ | heq <;>
      rw [retrieveCustomerOlderVersion, heq] <;> rfl

theorem Locks.lists {p : Phase} (h : Locks cfg c cl trx p posts) :
    p.listSet = cl.phase.listSet ∧ p.cls = cl.phase.cls := by
  cases h with
  | newOrder hph | delivery hph =>
    rw [hph]
    exact ⟨rfl, rfl⟩
  | payment hph hpc => rcases hpc with rfl | rfl <;> rw [hph] <;> exact ⟨rfl, rfl⟩

theorem Won.lists {p : Phase} (h : Won cfg cl p) :
    p.listSet = cl.phase.listSet ∧ p.cls = cl.phase.cls := by
  cases h with
  | newOrder hph | payment hph | delivery hph =>
    rw [hph]
    exact ⟨rfl, rfl⟩

theorem NewOrderTransaction.onLists_installPosts {cart : NewOrderCart} {cts assignedOID : UInt32} :
    ∀ q ∈ installPosts cfg c cl cart cts assignedOID, q.verb.onLists = false := by
  intro q hq
  rw [installPosts_eq, List.mem_append] at hq
  rcases hq with hq | hq
  · rcases List.mem_pair.1 hq with rfl | rfl <;> rfl
  · obtain ⟨x, -, hq⟩ := List.mem_flatMap.1 hq
    rcases List.mem_pair.1 hq with rfl | rfl <;> rfl

theorem DeliveryTransaction.onLists_installPosts {cart : DeliveryCart} {cts : UInt32} :
    ∀ q ∈ installPosts cfg c cl cart cts, q.verb.onLists = false := by
  intro q hq
  simp only [installPosts, appendPosts, rowPosts, List.mem_append, List.mem_pair, List.mem_map,
    List.mem_singleton] at hq
  rcases hq with ((rfl | rfl) | (rfl | rfl) | ⟨n, -, rfl⟩) | rfl <;> rfl

theorem Ends.listSet {p : Phase} (h : Ends trx p) : p.listSet = [] := by
  cases h <;> rfl

/-- What a commit pushes on a list of versions is the word that the new version replaces. -/
theorem EntersCommit.lists {base : Client} {p : Phase} (h : EntersCommit cfg c base p cl')
    (hl : ListsOK cfg s cl) (hrec : RecordsOK cfg s) (hV : 0 < cfg.VERSION_NUM)
    (hquiet : ∀ wr ∈ cl.outstanding, wr.verb.lands = false)
    (hcl' : ClientOK cfg (s.setClient c cl' o l) c cl')
    (hphase : p.listSet = cl.phase.listSet ∧ p.cls = cl.phase.cls)
    (hmem : base.localMemory = cl.localMemory) (hout : base.outstanding = cl.outstanding) :
    ListsOK cfg s cl' := by
  obtain ⟨hset, hcls⟩ := hphase
  have hbuffers : cl.buffers = base.localMemory p.cls := by rw [Client.buffers, hmem, hcls]
  cases h with
  | append cart cts =>
    have hrest : ∀ q ∈ [retrieveAndIncrementDistrictNextOID cart.wID cart.dID true],
        q.verb.onLists = false := by
      simp [retrieveAndIncrementDistrictNextOID, Verb.onLists]
    exact NewOrderTransaction.lists_append hl hrec hV hquiet hcl' hset.symm hbuffers rfl hrest
      (by rw [← hout]; rfl)
  | newOrder cart cts =>
    have hrest : ∀ q ∈ updateDistrict (NewOrderTransaction.newDistrictV cfg c cts
        (NewOrderTransaction.districtV base)) true :: NewOrderTransaction.installPosts cfg c
          (NewOrderTransaction.districtUpdated cfg c base cart cts) cart cts
          (NewOrderTransaction.districtV base).body.D_NEXT_O_ID.toUInt32,
        q.verb.onLists = false := by
      intro q hq
      rcases List.mem_cons.1 hq with rfl | hq
      · rfl
      · exact NewOrderTransaction.onLists_installPosts q hq
    exact NewOrderTransaction.lists_append hl hrec hV hquiet hcl' hset.symm hbuffers rfl hrest (by
      simp [NewOrderTransaction.installStep, Client.post, NewOrderTransaction.districtUpdated,
        NewOrderTransaction.appended, Client.setLocal, hout]
      rfl)
  | payment cart cID cts =>
    refine hl.commit hrec hV hquiet hcl' rfl (by rw [← hout]; rfl) fun q hq k list hk hv => ?_
    have hsave : updateWarehouseOlderVersions (PaymentTransaction.warehouseV base) false ∈
        PaymentTransaction.appendPosts cfg base ++
          PaymentTransaction.installPosts cfg c base cart cID cts := by
      simp [PaymentTransaction.appendPosts]
    simp only [PaymentTransaction.appendPosts, PaymentTransaction.installPosts, List.mem_append,
      List.mem_cons, List.not_mem_nil, or_false] at hq
    rcases hq with (rfl | rfl | rfl | rfl | rfl | rfl) | rfl | rfl | rfl | rfl <;> cases hv
    · refine ⟨((.warehouse cart.wID, 0), .warehouseTS), ?_, fun hnames => ?_, ?_, _, hsave, _, _,
        rfl, ?_⟩
      · rw [← hset]
        exact List.mem_singleton_self _
      · rw [Client.copy, hbuffers] at hnames
        rw [← hnames]
        rfl
      all_goals
        rw [Client.copy, hbuffers]
        rfl
    all_goals cases hk
  | delivery cart dID cID cts =>
    exact hl.drop rfl (by rw [← hout]; rfl)
      (List.forall_mem_map.2 DeliveryTransaction.onLists_installPosts)

/-- **One stretch of code.** -/
theorem Stretch.lists (h : Stretch cfg vec c cl trx cl' l) (hl : ListsOK cfg s cl)
    (hrec : RecordsOK cfg s) (hV : 0 < cfg.VERSION_NUM)
    (hquiet : ∀ wr ∈ cl.outstanding, wr.verb.lands = false)
    (hcl' : ClientOK cfg (s.setClient c cl' o l) c cl') : ListsOK cfg s cl' := by
  have hdrop : ∀ p : Phase, p.listSet = [] → ListsOK cfg s { cl with phase := p } := fun p hp =>
    hl.drop hp (List.append_nil _).symm (by simp)
  cases h with
  | call cart hidle hp => exact hdrop _ (by rcases hp with rfl | rfl <;> rfl)
  | start hvec h => exact h.lists hl hquiet rfl
  | read h =>
    obtain ⟨hset, hcls, hposts⟩ := h.lists
    exact hl.keep hset (congrArg cl.localMemory hcls) rfl (List.forall_mem_map.2 hposts)
  | snapshot vec' hmode hposts h =>
    refine hl.keep ?_ (congrArg cl.localMemory ?_) rfl (List.forall_mem_map.2 fun q hq => ?_)
    · generalize cl.phase = ph at h
      cases h <;> rfl
    · generalize cl.phase = ph at h
      cases h <;> rfl
    · rcases hposts q hq with hv | ⟨id, hv⟩ <;> rw [hv] <;> rfl
  | stop _ _ h | abort _ _ h | finish h => exact hdrop _ h.listSet
  | lock h =>
    refine hl.keep h.lists.1 (congrArg cl.localMemory h.lists.2) rfl
      (List.forall_mem_map.2 fun q hq => ?_)
    obtain ⟨k, oldTS, offset, b, hv⟩ := h.swaps q hq
    rw [hv]
    rfl
  | giveUp h =>
    refine hl.drop (by cases h <;> rfl) rfl (List.forall_mem_map.2 fun q hq => ?_)
    obtain ⟨⟨k, cls, t, i, hv⟩, -⟩ := h.restores q hq
    rw [hv]
    rfl
  | log _ h =>
    refine hl.keep h.lists.1 (congrArg cl.localMemory h.lists.2) rfl fun wr hwr => ?_
    obtain ⟨server, -, rfl⟩ := List.mem_map.1 hwr
    rfl
  | commit _ hbase h =>
    rcases hbase with ⟨rfl, rfl⟩ | ⟨hwon, rfl⟩
    · exact h.lists hl hrec hV hquiet hcl' ⟨rfl, rfl⟩ rfl rfl
    · exact h.lists hl hrec hV hquiet hcl' hwon.lists rfl rfl
  | insert hph =>
    exact hl.drop rfl rfl (List.forall_mem_map.2 NewOrderTransaction.onLists_installPosts)
  | register h =>
    refine hl.drop (by cases h <;> rfl) rfl (List.forall_mem_map.2 fun q hq => ?_)
    rw [List.mem_singleton.1 hq]
    cases h <;> rfl
  | publish h =>
    refine hl.drop (by cases h <;> rfl) rfl (List.forall_mem_map.2 fun q hq => ?_)
    rw [List.mem_singleton.1 hq]
    rfl
  | finishNewOrder hph => exact hl.drop rfl (List.append_nil _).symm (by simp)

/-! ## Runs -/

/-- The version chains of the records, and what the clients know of them. -/
structure ChainInv (cfg : Config) (s : State) : Prop where
  chains : ∀ k, k.chained = true → Chain cfg s k
  lists : ∀ c, ListsOK cfg s (s.clients c)

theorem Init.chainInv (h : Init cfg s) : ChainInv cfg s where
  chains k hk := by
    have hversions := h.versions k
    refine ⟨fun j v hj => ?_, ?_, fun j v hj hlt => ?_⟩
    · rw [hversions, List.reverse_singleton, List.getElem?_singleton] at hj
      split at hj
      · rename_i hzero
        cases hj
        rw [hzero, h.head (Key.versioned_of_chained hk)]
        rfl
      · cases hj
    · rw [hversions, h.holder, h.mem, (h.records k).tsList]
      simp [unlisted, pointers]
    · rw [hversions, h.holder] at hlt
      simp [unsaved] at hlt
  lists c := by
    have hout := (h.clients c).outstanding
    have hset : (s.clients c).phase.listSet = [] := by rw [(h.clients c).phase]; rfl
    exact ⟨by simp [hout], by simp [hset], by simp [hset], by simp [hout]⟩

/-- When the CPU of a client goes on, nothing that it waited for is on the way. -/
theorem ClientStep.quiet (h : ClientStep cfg vec c cl cl' o l) (hcl : ClientOK cfg s c cl) :
    ∀ wr ∈ cl.outstanding, wr.verb.lands = false := by
  cases h with
  | newOrder _ hidle | payment _ hidle | delivery _ hidle => exact (hcl.polled_of_idle hidle).landed
  | resume _ hpoll => exact (hcl.poll hpoll).landed

theorem ChainInv.step {a : Action} (h : ChainInv cfg s) (ha : step cfg s a = some s')
    (hinv : Inv cfg s) (hinv' : Inv cfg s') (hpos : 0 < cfg.VERSION_NUM)
    (hV : cfg.VERSION_NUM ≤ 256) : ChainInv cfg s' := by
  suffices hstep : (∀ k, k.chained = true → ChainStep cfg s s' k) ∧
      ∀ c, ListsOK cfg s (s'.clients c) by
    obtain ⟨hchains, hlists⟩ := hstep
    exact ⟨fun k hk => (h.chains k hk).step (hchains k hk) (Key.table_of_chained hk).2.2 hpos hV,
      fun c => (hlists c).step (hinv'.clients c) hchains hinv'.records⟩
  rcases step_cases ha with ⟨c, vec, cl, o, l, -, hstep, rfl⟩ | ⟨c, i, wr, answer, -, ho, rfl⟩ |
    ⟨g, -, rfl⟩
  · refine ⟨fun k _ => .kept rfl rfl rfl rfl rfl, fun c' => ?_⟩
    by_cases hc : c' = c
    · subst hc
      obtain ⟨n, m, trx, -, hstretch⟩ := hstep.stretch
      have hl := h.lists c'
      have hl' : ListsOK cfg s ((s.clients c').recount n m) :=
        ⟨hl.own, hl.order, hl.seen, hl.written⟩
      have hcl := hinv'.clients c'
      rw [State.setClient_clients_self] at hcl ⊢
      exact hstretch.lists hl' hinv.records hpos (hstep.quiet (hinv.clients c')) hcl
    · rw [State.setClient_clients_of_ne hc]
      exact h.lists c'
  · refine ⟨fun k hk => ?_, fun c' => ?_⟩
    · have hversioned := Key.versioned_of_chained hk
      exact (hinv.recordStep ho hversioned).chainStep (hinv.records k hversioned)
        fun list hv => (h.lists c).written wr (List.mem_of_getElem? ho.getElem) k list hk hv
    · by_cases hc : c' = c
      · subst hc
        rw [State.effect_clients_self]
        exact (h.lists c').effect (hinv.clients c') ho h.chains
      · rw [State.effect_clients_of_ne hc]
        exact h.lists c'
  · exact ⟨fun k _ => .kept rfl rfl rfl rfl rfl, h.lists⟩

theorem chainInv_of_reachable (h : Reachable cfg s) (hwrap : NoWrap cfg s)
    (hpos : 0 < cfg.VERSION_NUM) (hV : cfg.VERSION_NUM ≤ 256) : ChainInv cfg s := by
  induction h with
  | start hs => exact hs.chainInv
  | next hs _ ha ih =>
    have hwrap' := hwrap.of_step ha
    exact (ih hwrap').step ha (inv_of_reachable hs hwrap')
      ((inv_of_reachable hs hwrap').step ha hwrap) hpos hV

/-- In a list of pointers the versions come first. -/
theorem getElem?_pointers {B : Type} {V j : ℕ} {vs : List (Version B)} (hj : j < V) :
    (pointers V vs)[j]? = some ((vs[j]?.map Version.writeTimestamp).getD .empty) := by
  rw [pointers, List.getElem?_take_of_lt hj]
  rcases Nat.lt_or_ge j vs.length with hlt | hge
  · simp [List.getElem?_append_left, hlt]
  · rw [List.getElem?_append_right (by simpa using hge), List.getElem?_eq_none hge,
      List.getElem?_replicate, if_pos (by rw [List.length_map]; omega)]
    rfl

/-- Entry `j` of the list of replaced versions is version `olds.length - 1 - j` of the record. -/
theorem getElem?_reverse_cons {B : Type} {x v : B} {olds : List B} {j : ℕ}
    (h : olds[j]? = some v) :
    j < olds.length ∧ (x :: olds).reverse[olds.length - 1 - j]? = some v := by
  have hlt := (List.getElem?_eq_some_iff.1 h).1
  refine ⟨hlt, ?_⟩
  have hidx : (x :: olds).length - 1 - (olds.length - 1 - j) = j + 1 := by
    rw [List.length_cons]
    omega
  rw [List.getElem?_reverse (by rw [List.length_cons]; omega), hidx, List.getElem?_cons_succ, h]

/-- Versions that are numbered, listed and stored by their numbers make a version chain. -/
theorem versionChain_of_numbered {B : Type} {V : ℕ} {r : Record B} {olds : List (Version B)}
    (hoffset : ∀ j v, (r.head :: olds).reverse[j]? = some v →
      v.writeTimestamp.versionOffset.toNat = j % V) (hlist : r.tsList = pointers V olds)
    (hstored : ∀ j < V, ∀ v, olds[j]? = some v →
      r.olderVersions v.writeTimestamp.versionOffset.toNat = v) : VersionChain V r := by
  have hlength : r.tsList.length = V := by
    rw [hlist]
    simp [pointers]
  have hhead : r.head.writeTimestamp.versionOffset.toNat = olds.length % V := hoffset _ _ (by simp)
  have halive : ∀ j ts, r.tsList[j]? = some ts → ts.isDeleted = false →
      ∃ v, j < V ∧ olds[j]? = some v ∧ ts = v.writeTimestamp ∧
        ts.versionOffset.toNat = ringSlot V r.head.writeTimestamp.versionOffset.toNat j := by
    intro j ts hts hdel
    have hj : j < V := hlength ▸ (List.getElem?_eq_some_iff.1 hts).1
    rw [hlist, getElem?_pointers hj] at hts
    cases hv : olds[j]? with
    | none =>
      simp [hv] at hts
      simp [← hts, Timestamp.empty] at hdel
    | some v =>
      obtain ⟨hlt, hnum⟩ := getElem?_reverse_cons hv
      obtain rfl : v.writeTimestamp = ts := by simpa [hv] using hts
      refine ⟨v, hj, rfl, rfl, ?_⟩
      have hsum : olds.length + (V - 1 - j) = olds.length - 1 - j + V := by omega
      rw [hoffset _ v hnum, hhead, ringSlot, Nat.mod_add_mod, hsum, Nat.add_mod_right]
  refine ⟨hlength, fun j ts hts hdel => ?_, fun j ts hts hdel => ?_⟩
  · obtain ⟨-, -, -, -, hslot⟩ := halive j ts hts hdel
    exact hslot
  · obtain ⟨v, hj, hv, rfl, hslot⟩ := halive j ts hts hdel
    rw [← hslot, hstored j hj v hv]

/-- **The version chain of a record.** Behind the head of an unlocked Warehouse or Stock record, the
pointer list names the versions that were replaced, newest first, as many as it can, and the ring
holds each of them in the slot that its word names. -/
theorem version_chain (h : Reachable cfg s) (hwrap : NoWrap cfg s) (hpos : 0 < cfg.VERSION_NUM)
    (hV : cfg.VERSION_NUM ≤ 256) (hk : k.chained = true)
    (hunlocked : (s.mem k).head.writeTimestamp.isLocked = false) :
    VersionChain cfg.VERSION_NUM (s.mem k) ∧ ∃ olds, s.versions k = (s.mem k).head :: olds ∧
      (∀ j < cfg.VERSION_NUM, (s.mem k).tsList[j]? =
        some ((olds[j]?.map Version.writeTimestamp).getD .empty)) ∧
      ∀ j < cfg.VERSION_NUM, ∀ v, olds[j]? = some v →
        (s.mem k).olderVersions v.writeTimestamp.versionOffset.toNat = v := by
  have hrec := (inv_of_reachable h hwrap).records k (Key.versioned_of_chained hk)
  have hne := (Key.table_of_chained hk).2.1
  obtain ⟨hoffset, hlist, hring⟩ := (chainInv_of_reachable h hwrap hpos hV).chains k hk
  have hfree : s.holder k = none := by
    rw [← Option.not_isSome_iff_eq_none, ← hrec.isLocked_iff, hunlocked]
    simp
  obtain ⟨olds, hversions⟩ : ∃ olds, s.versions k = (s.mem k).head :: olds :=
    ⟨_, (hrec.head_of_free hfree).eq hne ▸ List.eq_cons_of_mem_head? (s.head?_versions k)⟩
  rw [hversions, hfree] at hlist hring
  rw [hversions] at hoffset
  simp only [unlisted, unsaved, List.drop_one, List.tail_cons, List.length_cons] at hlist hring
  have hstored : ∀ j < cfg.VERSION_NUM, ∀ v, olds[j]? = some v →
      (s.mem k).olderVersions v.writeTimestamp.versionOffset.toNat = v := by
    intro j hj v hv
    obtain ⟨hlt, hnum⟩ := getElem?_reverse_cons (x := (s.mem k).head) hv
    rw [hoffset _ v hnum]
    exact (hring _ v hnum (by omega) (by omega)).eq hne
  refine ⟨versionChain_of_numbered hoffset hlist hstored, olds, hversions, fun j hj => ?_, hstored⟩
  rw [hlist, getElem?_pointers hj]

set_option maxRecDepth 100000 in
theorem version_chain_two : ∃ s, Reachable (.shipped 2) s ∧
    ∃ olds, s.versions (.stock 0 1) = (s.mem (.stock 0 1)).head :: olds ∧ olds.length = 2 ∧
      ∀ j < 2, ∀ v, olds[j]? = some v →
        (s.mem (.stock 0 1)).olderVersions v.writeTimestamp.versionOffset.toNat = v := by
  obtain ⟨s, hs, hwrap, h⟩ := exists_reachable (init_plain (.shipped 2))
    (newOrderAlone 0 ++ newOrderAlone 1)
    (fun s => (s.mem (.stock 0 1)).head.writeTimestamp.isLocked = false ∧
      (s.versions (.stock 0 1)).length = 3) (by decide +kernel) (by decide +kernel)
  obtain ⟨hunlocked, hlength⟩ := of_decide_eq_true h
  obtain ⟨-, olds, hversions, -, hstored⟩ := version_chain (k := .stock 0 1) hs hwrap (by decide)
    (by decide) rfl hunlocked
  rw [hversions, List.length_cons] at hlength
  exact ⟨s, hs, olds, hversions, by omega,
    fun j hj => hstored j (Nat.lt_of_lt_of_le hj (by decide))⟩

end RdmaSnapshot
