import RdmaSnapshot.System
import RdmaSnapshot.Lib.Fifo

/-!
# What a step can do

Inversion of the transition function. A step is taken by the CPU of a client, which changes that
client only; by the network interface, which applies the verb of the oldest work request of a queue
pair; or by an `OracleReader`.
-/

namespace RdmaSnapshot

variable {cfg : Config} {s s' : State} {c c' : ClientID} {k k' : Key} {m : Memory} {v : Verb}

/-! ## Local buffers -/

namespace LocalMemory

variable {t t' : Table} {i j : ℕ} {b b' : ListBuffer} {lm : LocalMemory}

@[simp] theorem setHead_head_self (x : Version (Row t)) : (lm.setHead t i x).head t i = x := by
  simp [setHead]

theorem setHead_head_of_ne (x : Version (Row t)) (h : t' ≠ t ∨ j ≠ i) :
    (lm.setHead t i x).head t' j = lm.head t' j := by
  by_cases ht : t' = t
  · subst ht
    have hj : j ≠ i := h.resolve_left fun hne => hne rfl
    simp [setHead, hj]
  · simp [setHead, ht]

@[simp] theorem setLock_lockRegion_self (ts : Timestamp) :
    (lm.setLock t i ts).lockRegion t i = ts := by
  simp [setLock]

theorem setLock_lockRegion_of_ne (ts : Timestamp) (h : t' ≠ t ∨ j ≠ i) :
    (lm.setLock t i ts).lockRegion t' j = lm.lockRegion t' j := by
  by_cases ht : t' = t
  · subst ht
    have hj : j ≠ i := h.resolve_left fun hne => hne rfl
    simp [setLock, hj]
  · simp [setLock, ht]

end LocalMemory

/-! ## Verbs -/

def Verb.mutates (k : Key) : Verb → Bool
  | .compareAndSwap k' _ _ _ | .writeTimestamp k' _ | .writePointerList k' _
  | .writeOlderVersion k' _ _ | .writeHead k' _ => k' = k
  | _ => false

/-- The verbs whose result is needed by the code that follows the next poll loop. -/
def Verb.lands : Verb → Bool
  | .readHead .. | .readPointerList .. | .readOlderVersion .. | .readVersion ..
  | .readOrderLines .. | .compareAndSwap .. | .fetchAndAdd .. | .readVector
  | .readVectorEntry .. | .send .. => true
  | .writeTimestamp .. | .writePointerList .. | .writeOlderVersion .. | .writeHead ..
  | .writeVectorEntry .. | .writeLog .. => false

theorem Verb.qp_of_mutates (h : v.mutates k = true) :
    v.qp cfg = .server (cfg.serverOf k) := by
  cases v with
  | compareAndSwap | writeTimestamp | writePointerList | writeOlderVersion | writeHead =>
    obtain rfl := of_decide_eq_true h
    rfl
  | _ => cases h

theorem Verb.apply_of_not_mutates (h : v.mutates k = false)
    (hfaa : ∀ wID dID, v = .fetchAndAdd wID dID → k ≠ .district wID dID) :
    v.apply m k = m k := by
  cases v with
  | compareAndSwap k' o n b =>
    have hk : k ≠ k' := fun hk => by simp [mutates, hk] at h
    simp only [apply]
    split
    · simp [hk]
    · rfl
  | writeTimestamp k' | writePointerList k' | writeOlderVersion k' | writeHead k' =>
    have hk : k ≠ k' := fun hk => by simp [mutates, hk] at h
    simp [apply, hk]
  | fetchAndAdd wID dID => simp [apply, hfaa wID dID rfl]
  | _ => rfl

/-! ## The kinds of steps -/

def WorkRequest.qp (cfg : Config) (wr : WorkRequest) : QueuePair := wr.verb.qp cfg

/-- Request `wr`, at position `i`, is the next of its queue pair to take effect. -/
abbrev Client.Oldest (cfg : Config) (cl : Client) (i : ℕ) (wr : WorkRequest) : Prop :=
  Fifo.Oldest (WorkRequest.qp cfg) cl.outstanding i wr

/-- What the CPU of client `c` can do: start a transaction, or run on when its poll loop is
over. -/
inductive ClientStep (cfg : Config) (vec : ClientID → UInt32) (c : ClientID) (cl : Client) :
    Client → Owner → CpuLabel → Prop
  | newOrder (hc : c.toNat < cfg.clientCnt) (hidle : cl.phase = .idle) (cart : NewOrderCart) :
      ClientStep cfg vec c cl
        (NewOrderTransaction.start cfg { cl with t := cl.t + 1 } cart vec)
        ⟨cl.t + 1, .newOrder cart⟩ .begin
  | payment (hc : c.toNat < cfg.clientCnt) (hidle : cl.phase = .idle) (cart : PaymentCart) :
      ClientStep cfg vec c cl
        (PaymentTransaction.start cfg { cl with t := cl.t + 1 } cart vec)
        ⟨cl.t + 1, .payment cart⟩ .begin
  | delivery (hc : c.toNat < cfg.clientCnt) (hidle : cl.phase = .idle) (cart : DeliveryCart) :
      ClientStep cfg vec c cl
        { cl with
          phase := if 0 < cfg.DISTRICT_PER_WAREHOUSE then .delivery cart 0 .begin else .idle }
        ⟨cl.t, .delivery cart 0⟩ .resume
  | resume {trx : Trx} (htrx : cl.phase.trx = some trx) (hpoll : cl.pollCnt cfg ≤ cl.sendCQ) :
      ClientStep cfg vec c cl ((cl.poll cfg).resume cfg vec c).1
        ⟨((cl.poll cfg).resume cfg vec c).1.t, trx⟩ ((cl.poll cfg).resume cfg vec c).2

theorem start_eq_some {owner : Owner} {label : CpuLabel}
    {begin : (ClientID → UInt32) → Client} (h : s.start cfg c owner label begin = some s') :
    c.toNat < cfg.clientCnt ∧ (s.clients c).phase = .idle ∧
      ∃ vec, s.readerVectorOf cfg c = some vec ∧
        s' = s.setClient c (begin vec) owner label := by
  unfold State.start at h
  split at h
  · rename_i hc
    split at h
    · rename_i vec hidle hvec
      exact ⟨hc, hidle, vec, hvec, (Option.some.inj h).symm⟩
    · cases h
  · cases h

theorem nic_eq_some (h : s.nic cfg c i answer = some s') :
    ∃ wr, (s.clients c).Oldest cfg i wr ∧
      s' = s.effect c i wr answer := by
  unfold State.nic at h
  split at h
  · cases h
  · rename_i wr hwr
    split at h
    · rename_i hold
      refine ⟨wr, ⟨hwr, fun w hw => ?_⟩, (Option.some.inj h).symm⟩
      simpa [WorkRequest.qp] using List.all_eq_true.1 hold w hw
    · cases h

/-- The action with which the CPU of client `c`, in phase `ph`, executes a step of `o`. -/
structure Action.Runs (a : Action) (c : ClientID) (ph : Phase) (o : Owner) : Prop where
  cpu : ph ≠ .idle → a = .cpu c
  newOrder : ph = .idle → ∀ cart, o.trx = .newOrder cart → a = .newOrder c cart

/-- **Inversion.** A step is one of a client's CPU, of the network interface, or of a reader of
the oracle's vector. -/
theorem step_cases {a : Action} (h : step cfg s a = some s') :
    (∃ c vec cl o l, (s.readerVectorOf cfg c = some vec ∧ a.Runs c (s.clients c).phase o) ∧
      ClientStep cfg vec c (s.clients c) cl o l ∧ s' = s.setClient c cl o l) ∨
    (∃ c i wr answer, a = .nic c i answer ∧
      (s.clients c).Oldest cfg i wr ∧
      s' = s.effect c i wr answer) ∨
    (∃ g, a = .readerRead g ∧ s' = s.readOracle g) := by
  cases a with
  | newOrder c cart =>
    simp only [step] at h
    obtain ⟨hc, hidle, vec, hvec, rfl⟩ := start_eq_some h
    refine .inl ⟨c, vec, _, _, _, ⟨hvec, fun hne => absurd hidle hne, ?_⟩, .newOrder hc hidle cart,
      rfl⟩
    rintro - cart' htrx
    rw [Trx.newOrder.inj htrx]
  | payment c cart =>
    simp only [step] at h
    obtain ⟨hc, hidle, vec, hvec, rfl⟩ := start_eq_some h
    exact .inl ⟨c, vec, _, _, _, ⟨hvec, fun hne => absurd hidle hne, by simp⟩,
      .payment hc hidle cart, rfl⟩
  | delivery c cart =>
    simp only [step] at h
    obtain ⟨hc, hidle, vec, hvec, rfl⟩ := start_eq_some h
    exact .inl ⟨c, vec, _, _, _, ⟨hvec, fun hne => absurd hidle hne, by simp⟩,
      .delivery hc hidle cart, rfl⟩
  | cpu c =>
    simp only [step, State.cpu] at h
    split at h
    · rename_i trx vec htrx hvec
      split at h
      · rename_i hpoll
        cases h
        refine .inl ⟨c, vec, _, _, _, ⟨hvec, fun _ => rfl, fun hidle => ?_⟩, .resume htrx hpoll,
          rfl⟩
        rw [hidle] at htrx
        cases htrx
      · cases h
    · cases h
  | nic c i answer =>
    obtain ⟨wr, ho, rfl⟩ := nic_eq_some h
    exact .inr (.inl ⟨c, i, wr, answer, rfl, ho, rfl⟩)
  | readerRead g =>
    cases h
    exact .inr (.inr ⟨g, rfl, rfl⟩)

/-! ## Fields of the next state -/

namespace State

variable {i : ℕ} {wr : WorkRequest} {answer : IndexAnswer} {cl : Client} {o : Owner}
  {l : CpuLabel} {g : ℕ}

@[simp] theorem setClient_mem : (s.setClient c cl o l).mem = s.mem := rfl

@[simp] theorem setClient_populated : (s.setClient c cl o l).populated = s.populated := rfl

@[simp] theorem setClient_lastCommittedVector :
    (s.setClient c cl o l).lastCommittedVector = s.lastCommittedVector := rfl

@[simp] theorem setClient_readerVector :
    (s.setClient c cl o l).readerVector = s.readerVector := rfl

@[simp] theorem setClient_trace :
    (s.setClient c cl o l).trace = .cpu c o l :: s.trace := rfl

@[simp] theorem setClient_clients_self : (s.setClient c cl o l).clients c = cl := by
  simp [setClient]

theorem setClient_clients_of_ne (h : c' ≠ c) :
    (s.setClient c cl o l).clients c' = s.clients c' := by
  simp [setClient, h]

@[simp] theorem effect_mem : (s.effect c i wr answer).mem = wr.verb.apply s.mem := rfl

@[simp] theorem effect_populated : (s.effect c i wr answer).populated = s.populated := rfl

@[simp] theorem effect_lastCommittedVector : (s.effect c i wr answer).lastCommittedVector =
    wr.verb.applyVector s.lastCommittedVector := rfl

@[simp] theorem effect_readerVector :
    (s.effect c i wr answer).readerVector = s.readerVector := rfl

@[simp] theorem effect_trace : (s.effect c i wr answer).trace =
    .effect c wr (wr.verb.reply s.mem) :: s.trace := rfl

@[simp] theorem effect_clients_self : (s.effect c i wr answer).clients c =
    (s.land wr answer (s.clients c)).complete i wr := by
  simp [effect]

theorem effect_clients_of_ne (h : c' ≠ c) :
    (s.effect c i wr answer).clients c' = s.clients c' := by
  simp [effect, h]

theorem effect_phase : ((s.effect c i wr answer).clients c').phase = (s.clients c').phase := by
  by_cases hc : c' = c
  · subst hc
    rw [effect_clients_self]
    rfl
  · rw [effect_clients_of_ne hc]

@[simp] theorem readOracle_mem : (s.readOracle g).mem = s.mem := rfl

@[simp] theorem readOracle_populated : (s.readOracle g).populated = s.populated := rfl

@[simp] theorem readOracle_lastCommittedVector :
    (s.readOracle g).lastCommittedVector = s.lastCommittedVector := rfl

@[simp] theorem readOracle_clients : (s.readOracle g).clients = s.clients := rfl

@[simp] theorem readOracle_trace : (s.readOracle g).trace = .readerRead g :: s.trace := rfl

end State

theorem trace_of_step {a : Action} (h : step cfg s a = some s') :
    ∃ e, s'.trace = e :: s.trace := by
  rcases step_cases h with ⟨c, vec, cl, o, l, -, -, rfl⟩ | ⟨c, i, wr, answer, -, -, rfl⟩ |
    ⟨g, -, rfl⟩ <;> exact ⟨_, rfl⟩

/-! ## Steps and one client -/

/-- Neither the CPU of client `c` nor a request of it had part in the step. -/
structure Elsewhere (s s' : State) (c : ClientID) : Prop where
  client : s'.clients c = s.clients c
  event : ∃ e, s'.trace = e :: s.trace ∧ (∀ o l, e ≠ .cpu c o l) ∧
    ∀ wr reply, e ≠ .effect c wr reply

theorem Elsewhere.effect {wr : WorkRequest} {i : ℕ} {answer : IndexAnswer} (hc : c' ≠ c) :
    Elsewhere s (s.effect c i wr answer) c' :=
  ⟨State.effect_clients_of_ne hc, _, rfl, by simp, by simp [Ne.symm hc]⟩

/-- **Inversion for one client.** A step is one of its CPU, one of its requests takes effect, or the
client has no part in it. -/
theorem step_client_cases {a : Action} (h : step cfg s a = some s') (c : ClientID) :
    (∃ vec cl o l, (s.readerVectorOf cfg c = some vec ∧ a.Runs c (s.clients c).phase o) ∧
      ClientStep cfg vec c (s.clients c) cl o l ∧ s' = s.setClient c cl o l) ∨
    (∃ i wr answer, (s.clients c).Oldest cfg i wr ∧
      s' = s.effect c i wr answer) ∨ Elsewhere s s' c := by
  rcases step_cases h with ⟨c₁, vec, cl, o, l, hvec, hstep, rfl⟩ | ⟨c₁, i, wr, answer, -, ho, rfl⟩ |
    ⟨g, -, rfl⟩
  · by_cases hc : c = c₁
    · subst hc
      exact .inl ⟨vec, cl, o, l, hvec, hstep, rfl⟩
    · exact .inr (.inr ⟨State.setClient_clients_of_ne hc, _, rfl, by simp [Ne.symm hc], by simp⟩)
  · by_cases hc : c = c₁
    · subst hc
      exact .inr (.inl ⟨i, wr, answer, ho, rfl⟩)
    · exact .inr (.inr (.effect hc))
  · exact .inr (.inr ⟨rfl, _, rfl, by simp, by simp⟩)

end RdmaSnapshot
