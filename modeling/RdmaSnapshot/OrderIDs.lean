import RdmaSnapshot.Course
import RdmaSnapshot.Populate

/-!
# Order ids

A NewOrder draws its order id with an FAA on `D_NEXT_O_ID` and takes no lock. A Payment locks the
timestamp word of the district and writes back the whole record it has read, the counter included.
An FAA that takes effect in between is undone, and the next NewOrder draws the same id again.
-/

namespace RdmaSnapshot

open DBExecutor PaymentTransaction

variable {cfg : Config} {s s' : State} {c : ClientID} {cl cl' : Client} {l : CpuLabel}
  {trx : Trx} {posts : List Post} {vec : ClientID → UInt32} {i : ℕ}
  {wr : WorkRequest} {answer : IndexAnswer} {m : Memory} {wID : UInt16} {dID : UInt8}

/-- The order id that an FAA on the counter of a district returned. -/
def Event.assigns (wID : UInt16) (dID : UInt8) : Event → Option UInt64
  | .effect _ ⟨_, .fetchAndAdd wID' dID', _⟩ (.counter old) =>
    if wID' = wID ∧ dID' = dID then some old else none
  | _ => none

/-- The order ids drawn in a district so far, newest first. `doOne` cuts them to 32 bits. -/
def State.assigned (s : State) (wID : UInt16) (dID : UInt8) : List UInt64 :=
  s.trace.filterMap (Event.assigns wID dID)

def counter (m : Memory) (wID : UInt16) (dID : UInt8) : UInt64 :=
  (m (.district wID dID)).head.body.D_NEXT_O_ID

/-- The Payment on the district has yet to give up or to post its WRITEs. -/
def Phase.carries (wID : UInt16) (dID : UInt8) : Phase → Bool
  | .payment _ .reverts | .payment _ .install | .payment _ .publish => false
  | .payment cart _ => cart.wID = wID ∧ cart.dID = dID
  | _ => false

/-- An FAA takes effect only while the district is not locked and no Payment on it is under way. -/
def counterUnread (cfg : Config) (s : State) : Action → Bool
  | .nic c i _ => match (s.clients c).outstanding[i]? with
    | some ⟨_, .fetchAndAdd wID dID, _⟩ =>
      !(s.mem (.district wID dID)).head.writeTimestamp.isLocked &&
        (List.range cfg.clientCnt).all fun n => !(s.clients (.ofNat n)).phase.carries wID dID
    | _ => true
  | _ => true

theorem unlocked_of_counterUnread (h : counterUnread cfg s (.nic c i answer) = true)
    (hwr : (s.clients c).outstanding[i]? = some wr) (hv : wr.verb = .fetchAndAdd wID dID) :
    (s.mem (.district wID dID)).head.writeTimestamp.isLocked = false ∧
      ∀ c' : ClientID, c'.toNat < cfg.clientCnt →
        (s.clients c').phase.carries wID dID = false := by
  obtain ⟨o, verb, sig⟩ := wr
  cases hv
  simp only [counterUnread, hwr, Bool.and_eq_true, Bool.not_eq_true', List.all_eq_true,
    List.mem_range] at h
  refine ⟨h.1, fun c' hc' => ?_⟩
  have hphase := h.2 _ hc'
  rwa [UInt16.ofNat_toNat] at hphase

/-- The counters that a client has read, or has posted, and is going to write back. -/
structure Fresh (m : Memory) (cl : Client) : Prop where
  copy : ∀ wID dID, cl.phase.carries wID dID = true →
    (∃ wr ∈ cl.outstanding, wr.verb = .readHead (.district wID dID) 0) ∨
      (districtV cl).body.D_NEXT_O_ID = counter m wID dID
  pending : ∀ wr ∈ cl.outstanding, ∀ wID dID v, wr.verb = .writeHead (.district wID dID) v →
    v.body.D_NEXT_O_ID = counter m wID dID

/-! ## Steps of a client's CPU -/

def Keeps (m : Memory) (posts : List Post) : Prop :=
  ∀ p ∈ posts, ∀ wID dID v, p.verb = .writeHead (.district wID dID) v →
    v.body.D_NEXT_O_ID = counter m wID dID

theorem keeps_of_kind (h : ∀ p ∈ posts, p.verb.kind ≠ .commit) : Keeps m posts :=
  fun p hp _ _ _ hv => absurd (by rw [hv]; rfl) (h p hp)

theorem Fresh.post {o : Owner} (h : Fresh m cl)
    (hout : cl'.outstanding = cl.outstanding ++ posts.map fun p => ⟨o, p.verb, p.signaled⟩)
    (hcopy : ∀ wID dID, cl'.phase.carries wID dID = true →
      cl.phase.carries wID dID = true ∧ cl'.localMemory .payment = cl.localMemory .payment ∨
        ∃ p ∈ posts, p.verb = .readHead (.district wID dID) 0)
    (hposts : Keeps m posts) : Fresh m cl' where
  copy := by
    intro wID dID hc
    rw [hout]
    rcases hcopy wID dID hc with ⟨hc, hlocal⟩ | ⟨p, hp, hv⟩
    · refine (h.copy wID dID hc).imp (fun ⟨wr, hwr, hv⟩ => ⟨wr, List.mem_append_left _ hwr, hv⟩)
        fun hcopy => ?_
      rw [← hcopy, districtV, buffers, hlocal]
      rfl
    · exact .inl ⟨_, List.mem_append_right _ (List.mem_map_of_mem hp), hv⟩
  pending := by
    rw [hout]
    intro wr hwr
    rcases List.mem_append.1 hwr with hwr | hwr
    · exact h.pending wr hwr
    · obtain ⟨p, hp, rfl⟩ := List.mem_map.1 hwr
      exact hposts p hp

theorem NewOrderTransaction.keeps_append (cart : NewOrderCart) :
    Keeps m (appendPosts cfg cl cart ++
      [retrieveAndIncrementDistrictNextOID cart.wID cart.dID true]) := by
  intro p hp wID dID v hv
  simp only [appendPosts, List.mem_append, List.mem_flatMap, List.mem_cons, List.not_mem_nil,
    or_false] at hp
  rcases hp with (hp | ⟨⟨item, olNumber⟩, -, rfl | rfl⟩) | rfl
  · split at hp
    · cases hp
    · rcases List.mem_pair.1 hp with rfl | rfl <;> cases hv
  all_goals cases hv

theorem NewOrderTransaction.keeps_installPosts (cart : NewOrderCart) (cts assignedOID : UInt32) :
    Keeps m (installPosts cfg c cl cart cts assignedOID) := by
  intro p hp wID dID v hv
  simp only [installPosts, List.mem_append, List.mem_flatMap, List.mem_cons, List.not_mem_nil,
    or_false] at hp
  rcases hp with (rfl | rfl) | ⟨⟨item, olNumber⟩, -, rfl | rfl⟩ <;> cases hv

theorem PaymentTransaction.counter_of_mem {cart : PaymentCart} {cID cts : UInt32} {p : Post}
    {v : Version District} (hp : p ∈ appendPosts cfg cl ++ installPosts cfg c cl cart cID cts)
    (hv : p.verb = .writeHead (.district wID dID) v) :
    v.body.D_NEXT_O_ID = (districtV cl).body.D_NEXT_O_ID := by
  simp only [appendPosts, installPosts, List.mem_append, List.mem_cons, List.not_mem_nil,
    or_false] at hp
  rcases hp with (rfl | rfl | rfl | rfl | rfl | rfl) | (rfl | rfl | rfl | rfl) <;> cases hv
  rfl

section

variable (hcomm : cfg.APPLY_COMMUTATIVE_UPDATES = true)
  (hkey : ∀ wr ∈ cl'.outstanding, ∀ wID dID v, wr.verb = .writeHead (.district wID dID) v →
    (∃ cart, wr.owner.trx = .newOrder cart) ∨
      ∃ cart, wr.owner.trx = .payment cart ∧ wID = cart.wID ∧ dID = cart.dID)

include hcomm hkey

theorem EntersCommit.fresh {p : Phase} (h : EntersCommit cfg c cl p cl') (hf : Fresh m cl)
    (hcopy : ∀ wID dID, p.carries wID dID = true →
      (districtV cl).body.D_NEXT_O_ID = counter m wID dID) : Fresh m cl' := by
  cases h with
  | append cart =>
    exact hf.post rfl (fun _ _ hc => nomatch hc) (NewOrderTransaction.keeps_append cart)
  | newOrder _ _ hncomm => simp [hcomm] at hncomm
  | payment cart cID cts =>
    refine hf.post rfl (fun _ _ hc => nomatch hc) fun p hp wID dID v hv => ?_
    rcases hkey _ (List.mem_append_right _ (List.mem_map_of_mem hp)) wID dID v hv with
      ⟨_, ht⟩ | ⟨_, ht, rfl, rfl⟩ <;> cases ht
    rw [counter_of_mem hp hv]
    exact hcopy _ _ (by simp [Phase.carries])
  | delivery cart _ _ cts =>
    refine hf.post rfl (fun _ _ hc => nomatch hc) fun p hp wID dID v hv => ?_
    rcases hkey _ (List.mem_append_right _ (List.mem_map_of_mem hp)) wID dID v hv with
      ⟨_, ht⟩ | ⟨_, ht, -⟩ <;> cases ht

theorem Stretch.fresh (h : Stretch cfg vec c cl trx cl' l) (hf : Fresh m cl)
    (hlanded : ∀ wr ∈ cl.outstanding, wr.verb.lands = false) : Fresh m cl' := by
  -- at the end of a poll loop the READ has landed
  have hcopy : ∀ wID dID, cl.phase.carries wID dID = true →
      (districtV cl).body.D_NEXT_O_ID = counter m wID dID := by
    intro wID dID hc
    refine (hf.copy wID dID hc).resolve_left fun ⟨wr, hwr, hv⟩ => ?_
    simpa [hv, Verb.lands] using hlanded wr hwr
  have hover : ∀ {cl' : Client}, cl'.outstanding = cl.outstanding →
      (∀ wID dID, cl'.phase.carries wID dID = false) → Fresh m cl' :=
    fun hout hp => ⟨fun wID dID hc => by simp [hp] at hc, by rw [hout]; exact hf.pending⟩
  cases h with
  | call _ _ hp => exact hover rfl fun _ _ => by rcases hp with rfl | rfl <;> rfl
  | stop _ _ h | abort _ _ h | finish h => exact hover rfl fun _ _ => by cases h <;> rfl
  | finishNewOrder => exact hover rfl fun _ _ => rfl
  | start _ h =>
    refine hf.post rfl (fun wID dID hc => .inr ?_) (keeps_of_kind ?_)
    · generalize cl.phase = ph at h
      cases h with
      | newOrder | delivery => cases hc
      | payment cart =>
        obtain ⟨rfl, rfl⟩ := of_decide_eq_true hc
        exact ⟨_, List.mem_append_right _ (.tail _ (.tail _ (.head _))), rfl⟩
    · intro q hq
      rcases List.mem_append.1 hq with hq | hq
      · rw [mem_startPosts hq]
        simp [Verb.kind]
      · simp [(Verb.of_fetches (h.fetches q hq)).1]
  | read h =>
    refine hf.post rfl (fun wID dID hc => .inl ⟨?_, rfl⟩) (keeps_of_kind
      fun q hq => by simp [(Verb.of_fetches (h.fetches q hq)).1])
    cases h with
    | newOrder | orderRows | delivery | olderVersion => cases hc
    | lookup hph => rw [hph]; exact hc
    | payment hph hpc => rcases hpc with rfl | rfl <;> (rw [hph]; exact hc)
  | snapshot _ _ hposts h =>
    refine hf.post rfl (fun wID dID hc => .inl ⟨?_, rfl⟩) (keeps_of_kind
      fun q hq => ?_)
    · generalize cl.phase = ph at h
      cases h with
      | newOrder | delivery => cases hc
      | payment => exact hc
    · rcases hposts q hq with hv | ⟨id, hv⟩ <;> rw [hv] <;> simp [Verb.kind]
  | lock h =>
    refine hf.post rfl (fun wID dID hc => .inl ⟨?_, rfl⟩) (keeps_of_kind
      fun q hq => ?_)
    · cases h with
      | newOrder | delivery => cases hc
      | payment hph hpc => rcases hpc with rfl | rfl <;> (rw [hph]; exact hc)
    · obtain ⟨k, oldTS, offset, b, hv⟩ := h.swaps q hq
      simp [hv, Verb.kind]
  | giveUp h =>
    refine hf.post rfl (fun wID dID hc => by cases h <;> cases hc) (keeps_of_kind
      fun q hq => ?_)
    obtain ⟨⟨k, cls, t, i, hv⟩, -⟩ := h.restores q hq
    simp [hv, Verb.kind]
  | log _ h =>
    refine hf.post (show _ = _ ++ ((logServers cfg c).map fun n => Post.mk (.writeLog n) true).map _
      by simp [Client.postLog]; rfl) (fun wID dID hc => .inl ⟨?_, rfl⟩) fun q hq wID dID v hv => ?_
    · cases h with
      | newOrder | delivery => cases hc
      | payment hph => rw [hph]; exact hc
    · obtain ⟨n, -, rfl⟩ := List.mem_map.1 hq
      cases hv
  | commit _ hbase h =>
    rcases hbase with ⟨rfl, rfl⟩ | ⟨hwon, rfl⟩
    · exact h.fresh hcomm hkey hf hcopy
    · refine h.fresh hcomm hkey ⟨hf.copy, hf.pending⟩ fun wID dID hc => hcopy wID dID ?_
      cases hwon with
      | newOrder | delivery => cases hc
      | payment hph => rw [hph]; exact hc
  | insert =>
    exact hf.post rfl (fun _ _ hc => by cases hc) (NewOrderTransaction.keeps_installPosts _ _ _)
  | register h =>
    refine hf.post rfl (fun wID dID hc => by cases h <;> cases hc) fun q hq wID dID v hv => ?_
    rw [List.mem_singleton.1 hq] at hv
    cases h <;> cases hv
  | publish h =>
    refine hf.post rfl (fun wID dID hc => by cases h <;> cases hc) fun q hq wID dID v hv => ?_
    rw [List.mem_singleton.1 hq] at hv
    cases hv

end

theorem ClientOK.built_of_writeHead {k : Key} {v : Version (Row k.table)}
    (h : ClientOK cfg s c cl) (hk : k.versioned = true) (hwr : wr ∈ cl.outstanding)
    (hv : wr.verb = .writeHead k v) : ∃ t stage y, s.holder k = some (t, stage) ∧
      t.owner = wr.owner ∧ Built cfg t k y v := by
  have hops : (wr.owner, wr.verb) ∈ cl.ops k := by
    rw [Client.ops_eq_map_filter]
    exact List.mem_map.2 ⟨wr, List.mem_filter.2 ⟨hwr, by simp [hv, Verb.mutates]⟩, rfl⟩
  rw [hv] at hops
  by_cases hw : k ∈ (cl.phase.writeSet cfg).map Prod.fst
  · exfalso
    obtain ⟨⟨k, b⟩, hp, rfl⟩ := List.mem_map.1 hw
    obtain ⟨trx, htrx⟩ := Phase.exists_trx (Phase.ne_idle_of_mem_writeSet hp)
    cases h.locking trx htrx _ hp with
    | pending hpend => simp [hpend] at hops
    | acquired hnone | refused hnone => simp [hnone] at hops
  · obtain ⟨t, stage, y, hmine, ho, -, hb⟩ :=
      (h.conforms k hk hw).built_of_mem (List.mem_append_left _ hops)
    exact ⟨t, stage, y, (State.mine_eq_some.1 hmine).1, ho, hb⟩

/-! ## Effects -/

theorem ClientOK.copy_of_carries (h : ClientOK cfg s c cl) (ho : cl.Oldest cfg i wr)
    (hc : cl.phase.carries wID dID = true) (answer : IndexAnswer) :
    wr.verb = .readHead (.district wID dID) 0 ∧
        districtV ((s.land wr answer cl).complete i wr) = (s.mem (.district wID dID)).head ∨
      wr.verb ≠ .readHead (.district wID dID) 0 ∧
        districtV ((s.land wr answer cl).complete i wr) = districtV cl := by
  cases hph : cl.phase with
  | payment cart pc =>
    have hcopy : ∀ cl' : Client, cl'.phase = cl.phase →
        districtV cl' = cl'.buffers.head .district 0 := by
      intro cl' heq
      rw [Client.buffers, heq, hph]
      rfl
    rw [hcopy cl rfl, hcopy ((s.land wr answer cl).complete i wr) rfl, h.buffers_land ho]
    by_cases hv : wr.verb = .readHead (.district wID dID) 0
    · exact .inl ⟨hv, by rw [hv]; exact LocalMemory.setHead_head_self ..⟩
    · refine .inr ⟨hv, h.head_land_of_awaits ho (fun _ k b hread hk => ?_) (by simp) (fun hf => ?_)
        (by simp [hph, Phase.isNextOID])⟩
      · by_contra hne
        push Not at hne
        obtain ⟨htable, rfl⟩ := hne
        cases k with
        | district wID' dID' =>
          have hmem := hread rfl
          refine hv (hk.trans ?_)
          rw [hph] at hc hmem
          cases pc <;> simp_all [Phase.readSet, Phase.carries]
        | _ => cases htable
      · rw [hph] at hf
        cases pc <;> cases hf
  | _ => simp [hph, Phase.carries] at hc

theorem Fresh.land (hf : Fresh m cl) (h : ClientOK cfg s c cl)
    (ho : cl.Oldest cfg i wr) (answer : IndexAnswer)
    (hm : ∀ wID dID, wr.verb = .readHead (.district wID dID) 0 →
      counter m wID dID = counter s.mem wID dID) :
    Fresh m ((s.land wr answer cl).complete i wr) where
  copy := by
    intro wID dID hc
    rcases h.copy_of_carries ho hc answer with ⟨hv, heq⟩ | ⟨hv, heq⟩
    · exact .inr (by rw [heq, hm wID dID hv]; rfl)
    · rw [heq]
      refine (hf.copy wID dID hc).imp_left fun ⟨w, hw, hverb⟩ => ⟨w, ?_, hverb⟩
      obtain ⟨j, hj⟩ := List.getElem?_of_mem hw
      refine List.mem_eraseIdx_iff_getElem?.2 ⟨j, ?_, hj⟩
      rintro rfl
      rw [ho.getElem] at hj
      cases hj
      exact hv hverb
  pending := fun wr hwr => hf.pending wr (List.mem_of_mem_eraseIdx hwr)

/-- The counter after an effect: only an FAA changes it, since whoever writes the record writes the
counter it has. -/
theorem counter_effect (hf : Fresh s.mem (s.clients c)) (hwr : wr ∈ (s.clients c).outstanding)
    (wID : UInt16) (dID : UInt8) :
    wr.verb = .fetchAndAdd wID dID ∧
        counter (wr.verb.apply s.mem) wID dID = counter s.mem wID dID + 1 ∨
      wr.verb ≠ .fetchAndAdd wID dID ∧
        counter (wr.verb.apply s.mem) wID dID = counter s.mem wID dID := by
  have hpending := hf.pending wr hwr wID dID
  obtain ⟨o, verb, sig⟩ := wr
  by_cases hfaa : verb = .fetchAndAdd wID dID
  · exact .inl ⟨hfaa, by simp [hfaa, counter, Verb.apply]⟩
  refine .inr ⟨hfaa, ?_⟩
  by_cases hm : verb.mutates (.district wID dID) = true
  · cases verb with
    | writeHead k v =>
      obtain rfl := of_decide_eq_true hm
      rw [← hpending v rfl]
      simp [counter, Verb.apply]
    | compareAndSwap k =>
      obtain rfl := of_decide_eq_true hm
      simp only [counter, Verb.apply]
      split <;> simp
    | writeTimestamp k | writePointerList k | writeOlderVersion k =>
      obtain rfl := of_decide_eq_true hm
      simp [counter, Verb.apply]
    | _ => cases hm
  · rw [counter, Verb.apply_of_not_mutates (by simpa using hm)]
    · rfl
    · rintro wID' dID' rfl heq
      cases heq
      exact hfaa rfl

/-! ## Runs -/

/-- All clients are up to date, and the counters count. -/
structure OrderIDs (s : State) : Prop where
  fresh : ∀ c, Fresh s.mem (s.clients c)
  counts : ∀ wID dID, ∃ n,
    s.assigned wID dID =
      ((List.range n).map (counter s.populated wID dID + UInt64.ofNat ·)).reverse ∧
    counter s.mem wID dID = counter s.populated wID dID + UInt64.ofNat n

theorem OrderIDs.effect (h : OrderIDs s) (hinv : Inv cfg s) (ho : (s.clients c).Oldest cfg i wr)
    (hok : counterUnread cfg s (.nic c i answer) = true) :
    OrderIDs (s.effect c i wr answer) := by
  have hcounter := counter_effect (h.fresh c) (List.mem_of_getElem? ho.getElem)
  have hfresh : ∀ c', Fresh (wr.verb.apply s.mem) (s.clients c') := by
    refine fun c' => ⟨fun wID dID hc => ?_, fun wr' hwr' wID dID v hv' => ?_⟩ <;>
      rcases hcounter wID dID with ⟨hv, -⟩ | ⟨-, heq⟩
    · have hactive := (hinv.clients c').active fun hidle => by simp [hidle, Phase.carries] at hc
      simp [(unlocked_of_counterUnread hok ho.getElem hv).2 c' hactive] at hc
    · rw [heq]
      exact (h.fresh c').copy wID dID hc
    · -- whoever has a WRITE of the head outstanding holds the record
      obtain ⟨t, stage, y, hholder, -⟩ := (hinv.clients c').built_of_writeHead rfl hwr' hv'
      have hlocked := (hinv.records (.district wID dID) rfl).isLocked_iff.2 (by rw [hholder]; rfl)
      simp [(unlocked_of_counterUnread hok ho.getElem hv).1] at hlocked
    · rw [heq]
      exact (h.fresh c').pending wr' hwr' wID dID v hv'
  refine ⟨fun c' => ?_, fun wID dID => ?_⟩
  · by_cases hc : c' = c
    · rw [hc, State.effect_clients_self]
      refine (hfresh c).land (hinv.clients c) ho answer fun wID dID hv => ?_
      rw [hv]
      rfl
    · rw [State.effect_clients_of_ne hc]
      exact hfresh c'
  · obtain ⟨n, hids, hnext⟩ := h.counts wID dID
    obtain ⟨o, verb, sig⟩ := wr
    rcases hcounter wID dID with ⟨hv, heq⟩ | ⟨hv, heq⟩ <;> rw [State.effect_mem, heq]
    · cases hv
      have hsome : Event.assigns wID dID (.effect c ⟨o, .fetchAndAdd wID dID, sig⟩
          (Verb.reply (.fetchAndAdd wID dID) s.mem)) = some (counter s.mem wID dID) :=
        if_pos ⟨rfl, rfl⟩
      refine ⟨n + 1, ?_, ?_⟩
      · rw [State.assigned, State.effect_trace, List.filterMap_cons_some hsome, List.range_succ,
          List.map_append, List.reverse_append, hnext]
        exact congrArg _ hids
      · rw [hnext, UInt64.ofNat_add, ← UInt64.add_assoc]
        rfl
    · have hnone : Event.assigns wID dID (.effect c ⟨o, verb, sig⟩ (verb.reply s.mem)) = none := by
        cases verb with
        | fetchAndAdd wID' dID' =>
          exact if_neg fun heq => hv (by rw [heq.1, heq.2])
        | _ => rfl
      refine ⟨n, ?_, hnext⟩
      rw [State.assigned, State.effect_trace, List.filterMap_cons_none hnone]
      exact hids

theorem OrderIDs.step {a : Action} (h : OrderIDs s) (hcomm : cfg.APPLY_COMMUTATIVE_UPDATES = true)
    (hinv : Inv cfg s) (hinv' : Inv cfg s') (hok : counterUnread cfg s a = true)
    (ha : step cfg s a = some s') : OrderIDs s' := by
  rcases step_cases ha with ⟨c, vec, cl, o, l, -, hstep, rfl⟩ | ⟨c, i, wr, answer, rfl, ho, rfl⟩ |
    ⟨g, -, rfl⟩
  · refine ⟨fun c' => ?_, h.counts⟩
    by_cases hc : c' = c
    · have hcl := hinv'.clients c
      rw [State.setClient_clients_self] at hcl
      rw [hc, State.setClient_clients_self]
      obtain ⟨n, m, trx, -, hstretch⟩ := hstep.stretch
      refine hstretch.fresh hcomm (fun wr hwr wID dID v hv => ?_)
        ⟨(h.fresh c).copy, (h.fresh c).pending⟩ (hstep.settled (hinv.clients c)).landed
      obtain ⟨t, stage, y, -, ho, hb⟩ := hcl.built_of_writeHead rfl hwr hv
      cases hb with
      | nextOID ht => exact .inl ⟨_, ho ▸ ht⟩
      | district ht => exact .inr ⟨_, ho ▸ ht, rfl, rfl⟩
    · rw [State.setClient_clients_of_ne hc]
      exact h.fresh c'
  · exact h.effect hinv ho hok
  · exact ⟨h.fresh, h.counts⟩

theorem orderIDs_of_reachableBy (hcomm : cfg.APPLY_COMMUTATIVE_UPDATES = true)
    (h : ReachableBy cfg (counterUnread cfg · ·) s) (hwrap : NoWrap cfg s) : OrderIDs s := by
  induction h with
  | start hs =>
    refine ⟨fun c => ⟨?_, ?_⟩, fun wID dID => ?_⟩
    · simp [(hs.clients c).phase, Phase.carries]
    · simp [(hs.clients c).outstanding]
    · exact ⟨0, by simp [State.assigned, hs.trace], by simp [hs.mem]⟩
  | next hs hok ha ih =>
    have hwrap' := hwrap.of_step ha
    exact (ih hwrap').step hcomm (inv_of_reachable hs.reachable hwrap')
      (inv_of_reachable (hs.next hok ha).reachable hwrap) hok ha

/-- **Order ids are unique.** When FAAs take effect only while no Payment is under way on the
district, the ids of its first `2 ^ 32` orders are different, and its counter counts them. -/
theorem orderIDs_unique (hcomm : cfg.APPLY_COMMUTATIVE_UPDATES = true)
    (h : ReachableBy cfg (counterUnread cfg · ·) s) (hwrap : NoWrap cfg s) (wID : UInt16)
    (dID : UInt8) :
    ((s.assigned wID dID).length ≤ 2 ^ 32 →
        ((s.assigned wID dID).map UInt64.toUInt32).Nodup) ∧
      counter s.mem wID dID =
        counter s.populated wID dID + UInt64.ofNat (s.assigned wID dID).length := by
  obtain ⟨n, hids, hnext⟩ := (orderIDs_of_reachableBy hcomm h hwrap).counts wID dID
  have hlength : (s.assigned wID dID).length = n := by simp [hids]
  rw [hlength]
  refine ⟨fun hle => ?_, hnext⟩
  rw [hids, List.map_reverse, List.nodup_reverse, List.map_map]
  refine List.Nodup.map_on (fun m hm n hn heq => ?_) List.nodup_range
  have heq := congrArg UInt32.toNat heq
  simp only [Function.comp_apply, UInt64.toNat_toUInt32, UInt64.toNat_add,
    UInt64.toNat_ofNat'] at heq
  have hm := List.mem_range.1 hm
  have hn := List.mem_range.1 hn
  omega

def plainPayment : PaymentCart := ⟨0, 0, 0, .ID, "", 0, 10⟩

/-- Client 0 executes a Payment; `between` happens when its reads are over. -/
def paymentAround (between : List Action) : List Action :=
  [Action.readerRead 0, Action.payment 0 plainPayment] ++ nics 0 4 .nothing ++ [Action.cpu 0] ++
    nics 0 2 .nothing ++ between ++ [Action.cpu 0] ++ nics 0 3 .nothing ++ [Action.cpu 0] ++
    nics 0 2 .nothing ++ [Action.cpu 0] ++ nics 0 10 .nothing ++ [Action.cpu 0] ++
    nics 0 1 .nothing ++ [Action.cpu 0]

set_option maxRecDepth 100000 in
/-- A Payment between two NewOrders. -/
theorem orderIDs_unique_payment_between : ∃ s,
    ReachableBy (.shipped 2) (counterUnread (.shipped 2) · ·) s ∧ NoWrap (.shipped 2) s ∧
      s.assigned 0 0 = [3001, 3000] ∧ ((s.assigned 0 0).map UInt64.toUInt32).Nodup ∧
      counter s.mem 0 0 = counter s.populated 0 0 + UInt64.ofNat (s.assigned 0 0).length := by
  obtain ⟨s, hs, hwrap, h⟩ := exists_reachableBy (counterUnread (.shipped 2) · ·)
    (init_plain (.shipped 2)) (newOrderAlone 1 ++ paymentAround [] ++ newOrderAlone 1)
    (fun s => decide (s.assigned 0 0 = [3001, 3000])) (by decide +kernel) (by decide +kernel)
  have hids := of_decide_eq_true h
  obtain ⟨hnodup, hcounter⟩ := orderIDs_unique rfl hs hwrap 0 0
  exact ⟨s, hs, hwrap, hids, hnodup (by rw [hids]; decide), hcounter⟩

set_option maxRecDepth 100000 in
/-- A NewOrder draws its id between the READ and the WRITE of a Payment. The WRITE takes the counter
back, and the next NewOrder draws the same id. -/
theorem not_orderIDs_unique : ∃ s, Reachable (.shipped 2) s ∧ NoWrap (.shipped 2) s ∧
    s.assigned 0 0 = [3000, 3000] ∧
    (s.mem (.district 0 0)).head.writeTimestamp.isLocked = false ∧
    counter s.populated 0 0 = 3000 ∧ counter s.mem 0 0 = 3001 := by
  obtain ⟨s, hs, hwrap, h⟩ := exists_reachable (init_plain (.shipped 2))
    (paymentAround (newOrderAlone 1) ++ newOrderAlone 1)
    (fun s => decide (s.assigned 0 0 = [3000, 3000] ∧
      (s.mem (.district 0 0)).head.writeTimestamp.isLocked = false ∧
      counter s.populated 0 0 = 3000 ∧ counter s.mem 0 0 = 3001))
    (by decide +kernel) (by decide +kernel)
  exact ⟨s, hs, hwrap, of_decide_eq_true h⟩

end RdmaSnapshot

