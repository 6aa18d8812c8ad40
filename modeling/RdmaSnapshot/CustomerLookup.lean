import RdmaSnapshot.Completions
import RdmaSnapshot.Advance
import RdmaSnapshot.Populate

/-!
# The lookup of a Payment's customer

A Payment that selects its customer by last name asks the index of the server of the resident
warehouse. The answer lands in the response buffer of that server; `doOne` goes on with what is in
the response buffer of the server of the home warehouse. An observer notes what the index answered,
and the result is compared with it.
-/

namespace RdmaSnapshot

open DBExecutor

variable {cfg : Config} {s s₀ s' : State} {c : ClientID} {cart : PaymentCart} {cl : Client}

/-! ## The observer -/

def Verb.isLookup : Verb → Bool
  | .send _ (.lookupCustomerByLastName ..) => true
  | _ => false

/-- The system, and what the index answered to the last lookup of a client. -/
structure Watched where
  sys : State
  answer : Option CustomerNameIndexRespMsg

def Action.lookupAnswer (c : ClientID) (s : State) : Action → Option CustomerNameIndexRespMsg
  | .nic c' i answer =>
    if c' = c ∧ (s.clients c).outstanding[i]?.any (·.verb.isLookup) then some answer.customerName
    else none
  | _ => none

def Watched.step (cfg : Config) (c : ClientID) (w : Watched) (a : Action) : Option Watched :=
  (RdmaSnapshot.step cfg w.sys a).map fun s' =>
    ⟨s', (a.lookupAnswer c w.sys).or w.answer⟩

def Action.starts (c : ClientID) : Action → Prop
  | .newOrder c' _ | .payment c' _ | .delivery c' _ => c' = c
  | _ => False

instance (c : ClientID) (a : Action) : Decidable (a.starts c) :=
  match a with
  | .newOrder c' _ | .payment c' _ | .delivery c' _ => inferInstanceAs (Decidable (c' = c))
  | .cpu _ | .nic _ _ _ | .readerRead _ => inferInstanceAs (Decidable False)

abbrev During (cfg : Config) (c : ClientID) (s₁ : State) : Watched → Prop :=
  Transition.ReachableBy (· = ⟨s₁, none⟩) (Watched.step cfg c) fun _ a => ¬ a.starts c

/-- The requests of client `c` that have taken effect since `s₀`, or are still to, were outstanding
in `s₀` or only read. -/
structure OnlyReads (s₀ s : State) (c : ClientID) : Prop where
  outstanding : ∀ wr ∈ (s.clients c).outstanding,
    wr ∈ (s₀.clients c).outstanding ∨ wr.verb.kind = .read
  effects : ∃ events, s.trace = events ++ s₀.trace ∧ ∀ wr reply, .effect c wr reply ∈ events →
    wr ∈ (s₀.clients c).outstanding ∨ wr.verb.kind = .read

theorem OnlyReads.refl (s : State) (c : ClientID) : OnlyReads s s c :=
  ⟨fun _ h => .inl h, [], rfl, fun _ _ h => by cases h⟩

theorem OnlyReads.frame (h : OnlyReads s₀ s c) (hcl : s'.clients c = s.clients c) {e : Event}
    (htrace : s'.trace = e :: s.trace) (he : ∀ wr reply, e ≠ .effect c wr reply) :
    OnlyReads s₀ s' c where
  outstanding := hcl ▸ h.outstanding
  effects := by
    obtain ⟨events, hev, hall⟩ := h.effects
    refine ⟨e :: events, by rw [htrace, hev, List.cons_append], fun wr reply hmem => ?_⟩
    rcases List.mem_cons.1 hmem with heq | hmem
    · exact absurd heq.symm (he wr reply)
    · exact hall wr reply hmem

theorem OnlyReads.cpu (h : OnlyReads s₀ s c) {o : Owner} {l : CpuLabel}
    (hposted : ∀ wr ∈ cl.outstanding, wr ∈ (s.clients c).outstanding ∨ wr.verb.kind = .read) :
    OnlyReads s₀ (s.setClient c cl o l) c where
  outstanding := by
    intro wr hwr
    rw [State.setClient_clients_self] at hwr
    rcases hposted wr hwr with hold | hread
    · exact h.outstanding wr hold
    · exact .inr hread
  effects := by
    obtain ⟨events, hev, hall⟩ := h.effects
    refine ⟨.cpu c o l :: events, by simp [hev], fun wr reply hmem => ?_⟩
    rcases List.mem_cons.1 hmem with heq | hmem
    · cases heq
    · exact hall wr reply hmem

theorem OnlyReads.effect (h : OnlyReads s₀ s c) {i : ℕ} {wr : WorkRequest} {answer : IndexAnswer}
    (hwr : (s.clients c).outstanding[i]? = some wr) : OnlyReads s₀ (s.effect c i wr answer) c where
  outstanding := by
    intro w hw
    rw [State.effect_clients_self] at hw
    exact h.outstanding w (List.mem_of_mem_eraseIdx hw)
  effects := by
    obtain ⟨events, hev, hall⟩ := h.effects
    refine ⟨.effect c wr (wr.verb.reply s.mem) :: events, by simp [hev], fun w reply hmem => ?_⟩
    rcases List.mem_cons.1 hmem with heq | hmem
    · obtain ⟨-, rfl, -⟩ := Event.effect.inj heq
      exact h.outstanding w (List.mem_of_getElem? hwr)
    · exact hall w reply hmem

namespace PaymentTransaction

/-! ## Before the customer is known -/

def lookupPost (cfg : Config) (cart : PaymentCart) : Post :=
  lookupCustomerByLastName cfg cart.residentWarehouseID cart.dID cart.cLastName true

abbrev askedServer (cfg : Config) (cart : PaymentCart) : ℕ :=
  cfg.getServerNum cart.residentWarehouseID

/-- Where a Payment that was started in `s₀` stands. -/
inductive Lookup (cfg : Config) (s₀ : State) (c : ClientID) (cart : PaymentCart) (w : Watched) :
    Prop
  /-- Warehouse and district are being read. -/
  | readSet (phase : (w.sys.clients c).phase = .payment cart .readSet)
      (reads : OnlyReads s₀ w.sys c) (accounted : (w.sys.clients c).Accounted cfg)
      (resp : (w.sys.clients c).customerNameResp = (s₀.clients c).customerNameResp)
      (none : (w.sys.clients c).outstanding.countP (·.verb.isLookup) = 0)
  /-- The index has not answered. -/
  | asked (phase : (w.sys.clients c).phase = .payment cart .lookup)
      (reads : OnlyReads s₀ w.sys c) (accounted : (w.sys.clients c).Accounted cfg)
      (resp : (w.sys.clients c).customerNameResp = (s₀.clients c).customerNameResp)
      (one : (w.sys.clients c).outstanding.countP (·.verb.isLookup) = 1)
      (verb : ∀ wr ∈ (w.sys.clients c).outstanding, wr.verb.isLookup = true →
        wr.verb = (lookupPost cfg cart).verb)
  /-- The index has answered. -/
  | answered (ans : CustomerNameIndexRespMsg) (answer : w.answer = some ans)
      (phase : (w.sys.clients c).phase = .payment cart .lookup)
      (reads : OnlyReads s₀ w.sys c)
      (resp : (w.sys.clients c).customerNameResp =
        Function.update (s₀.clients c).customerNameResp (askedServer cfg cart) ans)
      (none : (w.sys.clients c).outstanding.countP (·.verb.isLookup) = 0)
  /-- The customer is known, or the Payment is over. -/
  | past (phase : (w.sys.clients c).phase = .idle ∨ ∃ pc, (w.sys.clients c).phase =
      .payment cart pc ∧ pc ≠ .readSet ∧ pc ≠ .lookup)

variable {w : Watched} {i : ℕ} {wr : WorkRequest} {answer : IndexAnswer}

theorem Lookup.frame (h : Lookup cfg s₀ c cart w) (hcl : s'.clients c = w.sys.clients c)
    {e : Event} (htrace : s'.trace = e :: w.sys.trace) (he : ∀ wr reply, e ≠ .effect c wr reply) :
    Lookup cfg s₀ c cart ⟨s', w.answer⟩ := by
  cases h with
  | readSet phase reads accounted resp none =>
    exact .readSet (by rw [hcl, phase]) (reads.frame hcl htrace he) (by rwa [hcl])
      (by rw [hcl, resp]) (by rw [hcl, none])
  | asked phase reads accounted resp one verb =>
    exact .asked (by rw [hcl, phase]) (reads.frame hcl htrace he) (by rwa [hcl])
      (by rw [hcl, resp]) (by rw [hcl, one]) (by rwa [hcl])
  | answered ans answer phase reads resp none =>
    exact .answered ans answer (by rw [hcl, phase]) (reads.frame hcl htrace he)
      (by rw [hcl, resp]) (by rw [hcl, none])
  | past phase => exact .past (by rwa [hcl])

theorem landCustomerName_of_not_isLookup {v : Verb} (h : v.isLookup = false)
    (resp : ℕ → CustomerNameIndexRespMsg) : v.landCustomerName answer resp = resp := by
  cases v with
  | send n req =>
    cases req with
    | lookupCustomerByLastName => cases h
    | _ => rfl
  | _ => rfl

theorem Lookup.effect (h : Lookup cfg s₀ c cart w) (ho : (w.sys.clients c).Oldest cfg i wr) :
    Lookup cfg s₀ c cart ⟨w.sys.effect c i wr answer,
      if wr.verb.isLookup then some answer.customerName else w.answer⟩ := by
  have hself : (w.sys.effect c i wr answer).clients c =
      (w.sys.land wr answer (w.sys.clients c)).complete i wr := State.effect_clients_self
  have hcount := Fifo.countP_eraseIdx (·.verb.isLookup) ho.getElem
  have hmem := List.mem_of_getElem? ho.getElem
  cases h with
  | readSet phase reads accounted resp none =>
    have hv : wr.verb.isLookup = false := by
      simpa using List.countP_eq_zero.1 none wr hmem
    refine .readSet (by rw [hself]; exact phase) (reads.effect ho.getElem)
      (by rw [hself]; exact accounted.complete ho) ?_ ?_
    · rw [hself, ← resp]
      exact landCustomerName_of_not_isLookup hv _
    · rw [hself]
      simp only [hv] at hcount
      exact (Nat.add_zero _ ▸ hcount).trans none
  | asked phase reads accounted resp one verb =>
    by_cases hv : wr.verb.isLookup = true
    · have hverb := verb wr hmem hv
      refine .answered answer.customerName (by simp [hv]) (by rw [hself]; exact phase)
        (reads.effect ho.getElem) ?_ ?_
      · rw [hself]
        simp only [Client.complete, State.land, hverb, lookupPost, lookupCustomerByLastName,
          Verb.landCustomerName, resp]
      · rw [hself]
        simp only [hv, if_true, one] at hcount
        exact Nat.succ.inj hcount
    · have hv' : wr.verb.isLookup = false := by simpa using hv
      refine .asked (by rw [hself]; exact phase) (reads.effect ho.getElem)
        (by rw [hself]; exact accounted.complete ho) ?_ ?_ ?_
      · rw [hself, ← resp]
        exact landCustomerName_of_not_isLookup hv' _
      · rw [hself]
        simp only [hv'] at hcount
        exact (Nat.add_zero _ ▸ hcount).trans one
      · rw [hself]
        exact fun w hw => verb w (List.mem_of_mem_eraseIdx hw)
  | answered ans hans phase reads resp none =>
    have hv : wr.verb.isLookup = false := by
      simpa using List.countP_eq_zero.1 none wr hmem
    refine .answered ans (by simpa [hv] using hans) (by rw [hself]; exact phase)
      (reads.effect ho.getElem) ?_ ?_
    · rw [hself, ← resp]
      exact landCustomerName_of_not_isLookup hv _
    · rw [hself]
      simp only [hv] at hcount
      exact (Nat.add_zero _ ▸ hcount).trans none
  | past phase => exact .past (by rw [hself]; exact phase)

theorem resume_past (vec : ClientID → UInt32) {pc : PaymentPC} (h : pc ≠ .readSet)
    (hlookup : pc ≠ .lookup) :
    (resume cfg c cl cart vec pc).1.phase = .idle ∨
      ∃ pc', (resume cfg c cl cart vec pc).1.phase = .payment cart pc' ∧ pc' ≠ .readSet ∧
        pc' ≠ .lookup := by
  have hcheck : ∀ cID, (checkStep cfg c cl cart cID).1.phase = .idle ∨
      ∃ pc', (checkStep cfg c cl cart cID).1.phase = .payment cart pc' ∧ pc' ≠ .readSet ∧
        pc' ≠ .lookup := by
    intro cID
    unfold checkStep
    split
    · exact .inr ⟨_, rfl, by simp, by simp⟩
    · exact .inl rfl
  cases pc with
  | readSet => exact absurd rfl h
  | lookup => exact absurd rfl hlookup
  | customer cID =>
    simp only [resume, afterCustomer]
    split
    · exact hcheck cID
    · exact .inr ⟨.snapshot cID, acquireSnapshot_phase .., by simp, by simp⟩
  | snapshot cID => exact hcheck cID
  | locks cID cts =>
    simp only [resume, afterLocks]
    split
    · split
      · exact .inr ⟨.log cID cts, rfl, by simp, by simp⟩
      · exact .inr ⟨.install, rfl, by simp, by simp⟩
    · exact .inr ⟨.reverts, rfl, by simp, by simp⟩
  | reverts => exact .inl rfl
  | log => exact .inr ⟨.install, rfl, by simp, by simp⟩
  | install => exact .inr ⟨.publish, rfl, by simp, by simp⟩
  | publish => exact .inl rfl

theorem customerStep_past (cID : UInt32) : ∃ pc,
    (customerStep cl cart cID).1.phase = .payment cart pc ∧ pc ≠ .readSet ∧ pc ≠ .lookup :=
  ⟨.customer cID, rfl, by simp, by simp⟩

theorem Lookup.afterReadSet (h : Lookup cfg s₀ c cart w)
    (hphase : (w.sys.clients c).phase = .payment cart .readSet)
    (hpoll : (w.sys.clients c).pollCnt cfg ≤ (w.sys.clients c).sendCQ) {o : Owner} {l : CpuLabel} :
    Lookup cfg s₀ c cart
      ⟨w.sys.setClient c (afterReadSet cfg ((w.sys.clients c).poll cfg) cart).1 o l, w.answer⟩ := by
  cases h with
  | readSet phase reads accounted resp none =>
    have hrest := accounted.poll hpoll
    cases hmode : cart.customerSelectionMode with
    | ID =>
      refine .past (.inr ?_)
      simp only [PaymentTransaction.afterReadSet, hmode, State.setClient_clients_self]
      exact customerStep_past cart.cID
    | LAST_NAME =>
      -- the lookup is the only request that is posted
      have hcount : List.countP (fun wr => wr.verb.isLookup)
          [(⟨⟨(w.sys.clients c).t, .payment cart⟩, (lookupPost cfg cart).verb, true⟩ :
            WorkRequest)] = 1 := rfl
      simp only [PaymentTransaction.afterReadSet, hmode]
      refine .asked (by rw [State.setClient_clients_self]; rfl) (reads.cpu fun wr hwr => ?_)
        ?_ ?_ ?_ ?_
      · simp only [Client.post, List.map_cons, List.map_nil, List.mem_append,
          List.mem_singleton] at hwr
        exact hwr.imp id fun hnew => by rw [hnew]; rfl
      · rw [State.setClient_clients_self]
        refine hrest.post (posted_post rfl rfl rfl rfl rfl rfl) (covering_of_signaled ?_)
        simp [lookupCustomerByLastName]
      · rw [State.setClient_clients_self]
        exact resp
      · rw [State.setClient_clients_self]
        simp only [Client.post, Client.poll, List.countP_append, List.map_cons, List.map_nil,
          none, Nat.zero_add]
        exact hcount
      · rw [State.setClient_clients_self]
        intro wr hwr hv
        simp only [Client.post, Client.poll, List.map_cons, List.map_nil, List.mem_append,
          List.mem_singleton] at hwr
        rcases hwr with hold | rfl
        · exact absurd hv (List.countP_eq_zero.1 none wr hold)
        · rfl
  | asked phase | answered _ _ phase =>
    rw [phase] at hphase
    cases hphase
  | past phase =>
    rcases phase with phase | ⟨pc, phase, hne, -⟩ <;> rw [phase] at hphase
    · cases hphase
    · exact absurd (by simpa using hphase) hne

theorem Lookup.cpu (h : Lookup cfg s₀ c cart w) (hstep : step cfg w.sys (.cpu c) = some s') :
    Lookup cfg s₀ c cart ⟨s', w.answer⟩ := by
  obtain ⟨trx, vec, htrx, hpoll, rfl⟩ := cpu_eq_some hstep
  have hphase : ((w.sys.clients c).poll cfg).phase = (w.sys.clients c).phase := rfl
  have hpast : ∀ pc, (w.sys.clients c).phase = .payment cart pc → pc ≠ .readSet → pc ≠ .lookup →
      Lookup cfg s₀ c cart ⟨w.sys.setClient c (((w.sys.clients c).poll cfg).resume cfg vec c).1
        ⟨(((w.sys.clients c).poll cfg).resume cfg vec c).1.t, trx⟩
        (((w.sys.clients c).poll cfg).resume cfg vec c).2, w.answer⟩ := by
    intro pc hpc hne hne'
    refine .past ?_
    simp only [State.setClient_clients_self, Client.resume, hphase, hpc]
    exact resume_past vec hne hne'
  have hlookup : (w.sys.clients c).phase = .payment cart .lookup →
      Lookup cfg s₀ c cart ⟨w.sys.setClient c (((w.sys.clients c).poll cfg).resume cfg vec c).1
        ⟨(((w.sys.clients c).poll cfg).resume cfg vec c).1.t, trx⟩
        (((w.sys.clients c).poll cfg).resume cfg vec c).2, w.answer⟩ := by
    intro hpc
    refine .past ?_
    simp only [State.setClient_clients_self, Client.resume, hphase, hpc, resume, afterLookup]
    split
    · exact .inr (customerStep_past _)
    · exact .inl rfl
  cases h with
  | readSet phase reads accounted resp none =>
    have hsame := (Lookup.readSet phase reads accounted resp none).afterReadSet phase hpoll
      (o := ⟨(((w.sys.clients c).poll cfg).resume cfg vec c).1.t, trx⟩)
      (l := (((w.sys.clients c).poll cfg).resume cfg vec c).2)
    simp only [Client.resume, hphase, phase, resume] at hsame ⊢
    exact hsame
  | asked phase | answered _ _ phase => exact hlookup phase
  | past phase =>
    rcases phase with phase | ⟨pc, phase, hne, hne'⟩
    · rw [phase] at htrx
      cases htrx
    · exact hpast pc phase hne hne'

theorem lands_of_isLookup {v : Verb} (h : v.isLookup = true) : v.lands = true := by
  cases v with
  | send n req => rfl
  | _ => cases h

theorem start_eq_post (cfg : Config) (cl : Client) (cart : PaymentCart) (vec : ClientID → UInt32) :
    ∃ vec', start cfg { cl with t := cl.t + 1 } cart vec = ({ cl with
      t := cl.t + 1, phase := .payment cart .readSet, localTimestampVector := vec' } : Client).post
        (.payment cart) (startPosts cfg ++ readSetPosts cart) :=
  exists_start_eq _ vec _

theorem covering_start (cfg : Config) (cart : PaymentCart) :
    Covering cfg (startPosts cfg ++ readSetPosts cart) := by
  refine Covering.start (covering_concat [_, _, _] rfl fun p hp => ?_) fun p hp => ?_
  · simp only [List.mem_cons, List.not_mem_nil, or_false] at hp
    rcases hp with rfl | rfl | rfl <;> rfl
  · simp only [readSetPosts, List.mem_cons, List.not_mem_nil, or_false] at hp
    rcases hp with rfl | rfl | rfl | rfl <;> exact QueuePair.noConfusion

theorem verb_of_mem_start {p : Post} (hp : p ∈ startPosts cfg ++ readSetPosts cart) :
    p.verb ∈ [.readVector, .readHead (.warehouse cart.wID) 0,
      .readPointerList (.warehouse cart.wID) .warehouseTS,
      .readHead (.district cart.wID cart.dID) 0,
      .readPointerList (.district cart.wID cart.dID) .districtTS] := by
  rcases List.mem_append.1 hp with hp | hp
  · rw [mem_startPosts hp]
    exact List.mem_cons_self
  · exact List.mem_cons_of_mem _ (List.mem_map_of_mem hp)

theorem lookup_start (hrest : (s₀.clients c).Rested)
    (hstart : step cfg s₀ (.payment c cart) = some s) : Lookup cfg s₀ c cart ⟨s, none⟩ := by
  obtain ⟨-, -, vec, -, rfl⟩ := start_eq_some hstart
  obtain ⟨vec', heq⟩ := start_eq_post cfg (s₀.clients c) cart vec
  have hread : ∀ p ∈ startPosts cfg ++ readSetPosts cart,
      p.verb.kind = .read ∧ p.verb.isLookup = false := by
    intro p hp
    have hv := verb_of_mem_start hp
    simp only [List.mem_cons, List.not_mem_nil, or_false] at hv
    rcases hv with hv | hv | hv | hv | hv <;> rw [hv] <;> exact ⟨rfl, rfl⟩
  rw [heq]
  refine .readSet (by rw [State.setClient_clients_self]; rfl)
    ((OnlyReads.refl s₀ c).cpu fun wr hwr => ?_) ?_ (by rw [State.setClient_clients_self]; rfl) ?_
  · rcases List.mem_append.1 hwr with hold | hnew
    · exact .inl hold
    · obtain ⟨p, hp, rfl⟩ := List.mem_map.1 hnew
      exact .inr (hread p hp).1
  · rw [State.setClient_clients_self]
    have hrest' : Client.Rested { s₀.clients c with t := (s₀.clients c).t + 1 } :=
      hrest.congr rfl rfl rfl
    exact hrest'.post (posted_post rfl rfl rfl rfl rfl rfl) (covering_start cfg cart)
  · rw [State.setClient_clients_self, List.countP_eq_zero]
    intro wr hwr hv
    rcases List.mem_append.1 hwr with hold | hnew
    · have hlands := hrest.landed wr hold
      rw [lands_of_isLookup hv] at hlands
      cases hlands
    · obtain ⟨p, hp, rfl⟩ := List.mem_map.1 hnew
      rw [(hread p hp).2] at hv
      cases hv

theorem Lookup.step {a : Action} {w' : Watched} (h : Lookup cfg s₀ c cart w) (hok : ¬ a.starts c)
    (hstep : w.step cfg c a = some w') : Lookup cfg s₀ c cart w' := by
  obtain ⟨s', hs', rfl⟩ := Option.map_eq_some_iff.1 hstep
  cases a with
  | newOrder c' cart' | payment c' cart' | delivery c' cart' =>
    obtain ⟨-, -, vec, -, rfl⟩ := start_eq_some hs'
    exact h.frame (State.setClient_clients_of_ne (Ne.symm hok)) rfl (by simp)
  | cpu c' =>
    by_cases hc : c' = c
    · subst hc
      exact h.cpu hs'
    · obtain ⟨trx, vec, -, -, rfl⟩ := cpu_eq_some hs'
      exact h.frame (State.setClient_clients_of_ne (Ne.symm hc)) rfl (by simp)
  | nic c' i answer =>
    obtain ⟨wr, ho, rfl⟩ := nic_eq_some hs'
    by_cases hc : c' = c
    · subst hc
      have hnote : (Action.lookupAnswer c' w.sys (.nic c' i answer)).or w.answer =
          if wr.verb.isLookup then some answer.customerName else w.answer := by
        by_cases hv : wr.verb.isLookup = true <;>
          simp [Action.lookupAnswer, ho.getElem, hv]
      rw [hnote]
      exact h.effect ho
    · have hnote : (Action.lookupAnswer c w.sys (.nic c' i answer)).or w.answer = w.answer := by
        simp [Action.lookupAnswer, hc]
      rw [hnote]
      refine h.frame (State.effect_clients_of_ne (Ne.symm hc)) rfl fun w r heq => ?_
      exact hc (Event.effect.inj heq).1
  | readerRead g =>
    obtain rfl := Option.some.inj hs'
    exact h.frame rfl rfl (by simp)

/-- **Where a Payment stands**, in every state before its client starts another transaction. -/
theorem lookup_of_during {s₁ : State} (hrest : (s₀.clients c).Rested)
    (hstart : RdmaSnapshot.step cfg s₀ (.payment c cart) = some s₁) (h : During cfg c s₁ w) :
    Lookup cfg s₀ c cart w := by
  refine h.invariant (fun w hw => ?_) fun w a w' _ hl hok hstep => hl.step hok hstep
  rw [hw]
  exact lookup_start hrest hstart

/-! ## The answer -/

/-- `doOne` has left the poll loop of the lookup as `ans` asks for: it goes on with the customer
that was found; or it has returned, and whatever it posted was only to read. -/
structure UsesAnswer (s₀ s' : State) (c : ClientID) (cart : PaymentCart)
    (ans : CustomerNameIndexRespMsg) : Prop where
  found : ans.isSuccessful = true → (s'.clients c).phase = .payment cart (.customer ans.cID)
  missing : ans.isSuccessful = false → (s'.clients c).phase = .idle ∧ OnlyReads s₀ s' c

def SaysSame (resp ans : CustomerNameIndexRespMsg) : Prop :=
  resp.isSuccessful = ans.isSuccessful ∧ (ans.isSuccessful = true → resp.cID = ans.cID)

theorem afterLookup_phase (cl : Client) :
    (afterLookup cfg cl cart).1.phase =
      if (cl.customerNameResp (cfg.getServerNum cart.wID)).isSuccessful then
        .payment cart (.customer (cl.customerNameResp (cfg.getServerNum cart.wID)).cID)
      else .idle := by
  simp only [afterLookup]
  split <;> rfl

/-- An answer is used iff the buffer that is read says the same. -/
theorem usesAnswer_afterLookup {o : Owner} {l : CpuLabel} (ans : CustomerNameIndexRespMsg)
    (hreads : OnlyReads s₀ s c) (hout : cl.outstanding = (s.clients c).outstanding) :
    UsesAnswer s₀ (s.setClient c (afterLookup cfg cl cart).1 o l) c cart ans ↔
      SaysSame (cl.customerNameResp (cfg.getServerNum cart.wID)) ans := by
  have hphase := @afterLookup_phase cfg cart cl
  cases hresp : (cl.customerNameResp (cfg.getServerNum cart.wID)).isSuccessful with
  | true =>
    rw [hresp, if_pos rfl] at hphase
    constructor
    · intro h
      cases hans : ans.isSuccessful with
      | true =>
        have hfound := h.found hans
        rw [State.setClient_clients_self, hphase] at hfound
        exact ⟨hresp.trans hans.symm, fun _ => by simpa using hfound⟩
      | false =>
        have hidle := (h.missing hans).1
        rw [State.setClient_clients_self, hphase] at hidle
        cases hidle
    · rintro ⟨hsame, hid⟩
      refine ⟨fun hans => ?_, fun hans => ?_⟩
      · rw [State.setClient_clients_self, hphase, hid hans]
      · rw [hresp, hans] at hsame
        cases hsame
  | false =>
    rw [hresp, if_neg (by simp)] at hphase
    constructor
    · intro h
      cases hans : ans.isSuccessful with
      | true =>
        have hfound := h.found hans
        rw [State.setClient_clients_self, hphase] at hfound
        cases hfound
      | false => exact ⟨hresp.trans hans.symm, fun ht => by rw [hans] at ht; cases ht⟩
    · rintro ⟨hsame, -⟩
      refine ⟨fun hans => ?_, fun _ => ⟨?_, hreads.cpu fun wr hwr => .inl ?_⟩⟩
      · rw [hresp, hans] at hsame
        cases hsame
      · rw [State.setClient_clients_self, hphase]
      · simp only [afterLookup, hresp] at hwr
        exact hout ▸ hwr

/-- **The answer of the index.** Whatever the other clients do meanwhile, and whatever the response
buffers of the client held when the Payment started: when `doOne` leaves the poll loop of the
lookup the index has answered, and the answer is used iff both warehouses of the cart are on one
server, or the response buffer of the home warehouse's server says the same by chance. -/
theorem usesAnswer_iff {s₁ : State} (hrest : (s₀.clients c).Rested)
    (hstart : RdmaSnapshot.step cfg s₀ (.payment c cart) = some s₁) (hw : During cfg c s₁ w)
    (hphase : (w.sys.clients c).phase = .payment cart .lookup)
    (hcpu : RdmaSnapshot.step cfg w.sys (.cpu c) = some s') :
    ∃ ans, w.answer = some ans ∧ (UsesAnswer s₀ s' c cart ans ↔
      cfg.getServerNum cart.wID = cfg.getServerNum cart.residentWarehouseID ∨
        SaysSame ((s₀.clients c).customerNameResp (cfg.getServerNum cart.wID)) ans) := by
  obtain ⟨trx, vec, htrx, hpoll, rfl⟩ := cpu_eq_some hcpu
  have hpolled : ((w.sys.clients c).poll cfg).phase = .payment cart .lookup := hphase
  simp only [Client.resume, hpolled, resume]
  cases lookup_of_during hrest hstart hw with
  | readSet phase =>
    rw [phase] at hphase
    cases hphase
  | asked phase reads accounted resp one verb =>
    -- the poll loop is not over before the index has answered
    obtain ⟨wr, hwr, hv⟩ := List.countP_pos_iff.1 (by rw [one]; exact Nat.one_pos)
    have hlands := (accounted.poll hpoll).landed wr hwr
    rw [lands_of_isLookup hv] at hlands
    cases hlands
  | answered ans hans phase reads resp none =>
    refine ⟨ans, hans, ?_⟩
    have hout : ((w.sys.clients c).poll cfg).outstanding = (w.sys.clients c).outstanding := rfl
    rw [usesAnswer_afterLookup ans reads hout]
    have hbuffer : ((w.sys.clients c).poll cfg).customerNameResp =
        Function.update (s₀.clients c).customerNameResp (askedServer cfg cart) ans := resp
    rw [hbuffer]
    by_cases hsame : cfg.getServerNum cart.wID = cfg.getServerNum cart.residentWarehouseID
    · rw [hsame, Function.update_self]
      exact ⟨fun _ => .inl rfl, fun _ => ⟨rfl, fun _ => rfl⟩⟩
    · rw [Function.update_of_ne hsame]
      exact ⟨.inr, fun h => h.resolve_left hsame⟩
  | past phase =>
    rcases phase with phase | ⟨pc, phase, -, hne⟩ <;> rw [phase] at hphase
    · cases hphase
    · exact absurd (by simpa using hphase) hne

/-! ## Two lookups -/

def byLastName (residentWarehouseID : UInt16) : PaymentCart where
  wID := 0
  dID := 0
  residentWarehouseID := residentWarehouseID
  customerSelectionMode := .LAST_NAME
  cLastName := "BARBARBAR"
  cID := 0
  hAmount := 10

def ready : State := (plain (.shipped 1)).readOracle 0

theorem rested_ready : (ready.clients 0).Rested :=
  ⟨rfl, rfl, fun _ h => (by cases h), fun _ h => (by cases h)⟩

def started (r : UInt16) : State :=
  ready.setClient 0 (start (.shipped 1) { ready.clients 0 with t := (ready.clients 0).t + 1 }
    (byLastName r) fun _ => 0) ⟨(ready.clients 0).t + 1, .payment (byLastName r)⟩ .begin

theorem step_ready (r : UInt16) :
    step (.shipped 1) ready (.payment 0 (byLastName r)) = some (started r) := rfl

/-- Warehouse and district are read, then the index finds customer 7. -/
def untilAnswered : List Action :=
  nics 0 4 .nothing ++
    [.cpu 0, .nic 0 0 ⟨⟨true, 7⟩, IndexAnswer.nothing.oldestUndeliveredOrder⟩]

/-- The poll loop of the lookup is over, customer 7 was found, and the CPU runs on to a phase in
which it waits for the customer or not. -/
def leavesLookup (waits : Bool) (w : Watched) : Bool :=
  (match (w.sys.clients 0).phase with
    | .payment _ .lookup => true
    | _ => false) &&
  (match w.answer with
    | some ans => ans.isSuccessful
    | none => false) &&
  (step (.shipped 1) w.sys (.cpu 0)).any fun s' =>
    (s'.clients 0).phase.trx.isSome == waits

theorem exists_leavesLookup {r : UInt16} {waits : Bool}
    (h : (Transition.runIf (Watched.step (.shipped 1) 0) (fun _ a => decide (¬ a.starts 0))
      ⟨started r, none⟩ untilAnswered).any (fun w => decide (leavesLookup waits w = true)) = true) :
    ∃ w s', During (.shipped 1) 0 (started r) w ∧
      (w.sys.clients 0).phase = .payment (byLastName r) .lookup ∧
      (∃ ans, w.answer = some ans ∧ ans.isSuccessful = true) ∧
      step (.shipped 1) w.sys (.cpu 0) = some s' ∧ (s'.clients 0).phase.trx.isSome = waits := by
  obtain ⟨w, hw, hleaves⟩ : ∃ w, During (.shipped 1) 0 (started r) w ∧
      leavesLookup waits w = true :=
    @Transition.exists_reachableBy _ _ (· = ⟨started r, none⟩) (Watched.step (.shipped 1) 0) _ _ _
      rfl untilAnswered _ _ h
  simp only [leavesLookup, Bool.and_eq_true] at hleaves
  obtain ⟨⟨hpc, hans⟩, hcpu⟩ := hleaves
  obtain ⟨s', hs', hwaits⟩ := (Option.any_eq_true _ _).1 hcpu
  refine ⟨w, s', hw, ?_, ?_, hs', by simpa using hwaits⟩
  · have hlookup := lookup_of_during rested_ready (step_ready r) hw
    split at hpc
    · rename_i cart hphase
      cases hlookup with
      | readSet phase =>
        rw [phase] at hphase
        cases hphase
      | asked phase | answered _ _ phase => exact phase
      | past phase =>
        rcases phase with phase | ⟨pc, phase, -, hne⟩ <;> rw [phase] at hphase
        · cases hphase
        · exact absurd (Phase.payment.inj hphase).2 hne
    · cases hpc
  · split at hans
    · rename_i ans hans'
      exact ⟨ans, hans', hans⟩
    · cases hans

/-- The customer of the home warehouse is used. -/
theorem usesAnswer_home : ∃ s' ans, ans.isSuccessful = true ∧
    UsesAnswer ready s' 0 (byLastName 0) ans := by
  obtain ⟨w, s', hw, hphase, ⟨ans, hans, hsucc⟩, hcpu, -⟩ :=
    @exists_leavesLookup 0 true (by decide +kernel)
  obtain ⟨ans', hans', hiff⟩ := usesAnswer_iff rested_ready (step_ready 0) hw hphase hcpu
  obtain rfl : ans = ans' := Option.some.inj (hans.symm.trans hans')
  exact ⟨s', ans, hsucc, hiff.2 (.inl rfl)⟩

/-- A customer of warehouse 50, which is on another server, is found but not used: the response
buffer of the home warehouse's server still says that there is none, and the Payment ends. -/
theorem not_usesAnswer_remote : ∃ w s' ans, During (.shipped 1) 0 (started 50) w ∧
    (w.sys.clients 0).phase = .payment (byLastName 50) .lookup ∧
    step (.shipped 1) w.sys (.cpu 0) = some s' ∧ w.answer = some ans ∧
    ans.isSuccessful = true ∧ ¬ UsesAnswer ready s' 0 (byLastName 50) ans := by
  obtain ⟨w, s', hw, hphase, ⟨ans, hans, hsucc⟩, hcpu, hidle⟩ :=
    @exists_leavesLookup 50 false (by decide +kernel)
  refine ⟨w, s', ans, hw, hphase, hcpu, hans, hsucc, fun h => ?_⟩
  rw [h.found hsucc] at hidle
  cases hidle

end PaymentTransaction

end RdmaSnapshot
