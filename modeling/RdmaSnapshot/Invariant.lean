import RdmaSnapshot.Steps.NewOrder
import RdmaSnapshot.Steps.Payment
import RdmaSnapshot.Steps.Delivery

/-!
# The invariant of the system

In every reachable state in which no commit timestamp has wrapped, every versioned record and every
client satisfies its invariant. What a work request does to a versioned record when it takes effect
is therefore always a step of the lock protocol.
-/

namespace RdmaSnapshot

variable {cfg : Config} {s s' : State} {c c' : ClientID} {cl : Client} {o : Owner}
  {l : CpuLabel} {k : Key} {i g : ℕ} {wr : WorkRequest} {answer : IndexAnswer}

/-- The invariant of the system. -/
structure Inv (cfg : Config) (s : State) : Prop where
  records : ∀ k, k.versioned = true → RecordOK cfg s k
  clients : ∀ c, ClientOK cfg s c (s.clients c)

/-! ## Initial states -/

theorem Init.versions (h : Init cfg s) (k : Key) : s.versions k = [(s.mem k).head] := by
  simp [State.versions, h.trace, h.mem]

theorem Init.holder (h : Init cfg s) (k : Key) : s.holder k = none := by
  simp [State.holder, h.trace]

theorem Init.head (h : Init cfg s) (hk : k.versioned = true) :
    (s.mem k).head.writeTimestamp = initialTS := by
  have hpop : k.table.isPopulated = true := by cases k <;> first | rfl | cases hk
  rw [h.mem, (h.records k).head, if_pos hpop]

theorem Init.record (h : Init cfg s) (hk : k.versioned = true) : RecordOK cfg s k := by
  have hversions := h.versions k
  have hcurrent : s.current k = (s.mem k).head := by simp [State.current, hversions]
  have hword := h.head hk
  have hpop : k.table.isPopulated = true := by cases k <;> first | rfl | cases hk
  exact {
    lockWord := by
      rw [hversions, h.holder]
      refine LockWord.Inv.init ?_
      simp [lockScheme, hword, initialTS]
    alive := by
      rw [hversions]
      intro v hv
      rw [List.mem_singleton.1 hv, hword]
      simp [initialTS]
    names := by
      rw [hversions]
      intro v hv
      rw [List.mem_singleton.1 hv, h.mem]
      exact (h.records k).names hpop
    fresh := by
      rw [hversions]
      intro v hv hc
      rw [List.mem_singleton.1 hv, hword] at hc ⊢
      simp only [initialTS, Timestamp.setAll_clientID, Timestamp.setAll_timestamp] at hc ⊢
      have hpos : 0 < cfg.clientCnt := Nat.lt_of_le_of_lt (Nat.zero_le _) hc
      simp [State.nextCts, State.acquired, h.trace, hpos]
    body := by rw [hcurrent]
    ring := by
      intro slot
      left
      rw [h.mem, (h.records k).olderVersions slot]
      rfl
    ticket := by
      rw [h.holder]
      simp }

theorem Init.client (h : Init cfg s) (c : ClientID) : ClientOK cfg s c (s.clients c) := by
  obtain ⟨hepoch, ht, -, -, -, -, -, -, hout, hcq, hcnt, hph⟩ := h.clients c
  exact {
    active := fun hne => absurd hph hne
    epoch := by simp [hepoch, State.acquired, h.trace]
    genuine := by simp [hph, Phase.writeSet]
    lockCts := by simp [hph, Phase.isLocks]
    locking := by simp [hph, Phase.writeSet]
    conforms := by
      intro k _ _
      have hmine : s.mine c k = none := State.mine_eq_none_of_holder (h.holder k)
      have hplan : (s.clients c).plan cfg c = [] := by simp [Client.plan, hph]
      rw [hmine, hplan, Client.ops, hout]
      exact .free
    checked := by simp [hph]
    count := by simp [hcq, hout, Client.pollCnt, hph, hcnt, Phase.isLog]
    quiet := fun _ => hcnt
    ended := by simp [hout, Fifo.Ended]
    lands := by simp [hout]
    reads := by simp [hph, Phase.readSet] }

theorem Init.inv (h : Init cfg s) : Inv cfg s where
  records := fun _ hk => h.record hk
  clients := h.client

/-! ## Steps -/

theorem RecordOK.setClient (h : RecordOK cfg s k) : RecordOK cfg (s.setClient c cl o l) k := by
  refine h.congr rfl State.current_setClient rfl rfl rfl rfl fun c' => ?_
  exact Nat.add_le_add_right
    (Nat.mul_le_mul_right _ (Nat.succ_le_succ State.acquired_le_setClient)) _

theorem frame_setClient : Frame s (s.setClient c cl o l) c' where
  versions := fun _ _ hu => hu
  foreign := fun _ _ _ hu => .inl hu
  mine := fun _ _ => rfl
  current := fun _ _ _ => State.current_setClient

theorem ClientStep.clientOK {vec : ClientID → UInt32} (hinv : Inv cfg s)
    (h : ClientStep cfg vec c (s.clients c) cl o l)
    (hwrap : NoWrap cfg (s.setClient c cl o l)) :
    ClientOK cfg (s.setClient c cl o l) c cl := by
  have hcl := hinv.clients c
  have hstart : (s.clients c).phase = .idle →
      Polled cfg s c { s.clients c with t := (s.clients c).t + 1 } :=
    fun hidle => (hcl.polled_of_idle hidle).setRound (.inl hidle) _
  cases h with
  | newOrder hc hidle cart =>
    exact NewOrderTransaction.start_ok (hstart hidle) hidle hc vec
  | payment hc hidle cart =>
    exact PaymentTransaction.start_ok (hstart hidle) hidle hc vec
  | delivery hc hidle cart =>
    refine (hcl.polled_of_idle hidle).finish (by simp) rfl rfl rfl rfl ?_
      (by rw [hidle]; rfl)
    by_cases hd : 0 < cfg.DISTRICT_PER_WAREHOUSE
    · right
      exact ⟨hc, cart, 0, by simp [hd]⟩
    · left
      simp [hd]
  | resume htrx hpoll =>
    have hp := hcl.poll hpoll
    have hphase : ((s.clients c).poll cfg).phase = (s.clients c).phase := rfl
    cases hph : (s.clients c).phase with
    | idle => simp [hph, Phase.trx] at htrx
    | newOrder cart pc =>
      simp only [Client.resume, hphase, hph] at hwrap ⊢
      exact NewOrderTransaction.resume_ok hp hinv.records (hphase.trans hph) vec hwrap
    | payment cart pc =>
      simp only [Client.resume, hphase, hph] at hwrap ⊢
      exact PaymentTransaction.resume_ok hp hinv.records (hphase.trans hph) vec hwrap
    | delivery cart dID pc =>
      simp only [Client.resume, hphase, hph] at hwrap ⊢
      exact DeliveryTransaction.resume_ok hp hinv.records (hphase.trans hph) vec hwrap

theorem Inv.setClient {vec : ClientID → UInt32} (h : Inv cfg s)
    (hstep : ClientStep cfg vec c (s.clients c) cl o l)
    (hwrap : NoWrap cfg (s.setClient c cl o l)) : Inv cfg (s.setClient c cl o l) where
  records := fun k hk => (h.records k hk).setClient
  clients := by
    intro c'
    by_cases hc : c' = c
    · subst hc
      rw [State.setClient_clients_self]
      exact hstep.clientOK h hwrap
    · rw [State.setClient_clients_of_ne hc]
      exact (h.clients c').frame frame_setClient (State.acquired_setClient_of_ne hc)

/-- An effect is a step of the lock protocol for every versioned record. -/
theorem Inv.recordStep (h : Inv cfg s) (ho : (s.clients c).Oldest cfg i wr)
    (hk : k.versioned = true) : RecordStep cfg s c wr k :=
  (h.clients c).recordStep h.records ho hk

theorem Inv.effect (h : Inv cfg s) (ho : (s.clients c).Oldest cfg i wr) :
    Inv cfg (s.effect c i wr answer) where
  records := fun k hk => (h.recordStep ho hk).recordOK (h.records k hk)
  clients := by
    intro c'
    by_cases hc : c' = c
    · subst hc
      rw [State.effect_clients_self]
      exact (h.clients c').effect ho h.records
    · rw [State.effect_clients_of_ne hc]
      exact (h.clients c').frame (frame_effect (fun k hk => h.recordStep ho hk) h.records hc)
        State.acquired_effect

theorem Inv.readOracle (h : Inv cfg s) : Inv cfg (s.readOracle g) where
  records := by
    intro k hk
    refine (h.records k hk).congr rfl State.current_readOracle rfl rfl rfl rfl fun c => ?_
    simp [State.nextCts]
  clients := by
    intro c
    refine (h.clients c).frame ⟨fun _ _ hu => hu, fun _ _ _ hu => .inl hu, fun _ _ => rfl,
      fun _ _ _ => State.current_readOracle⟩ State.acquired_readOracle

/-- Steps keep the invariant as long as no commit timestamp wraps. -/
theorem Inv.step {a : Action} (h : Inv cfg s) (ha : step cfg s a = some s')
    (hwrap : NoWrap cfg s') : Inv cfg s' := by
  rcases step_cases ha with ⟨c, vec, cl, o, l, -, hstep, rfl⟩ | ⟨c, i, wr, answer, -, ho, rfl⟩ |
    ⟨g, -, rfl⟩
  · exact h.setClient hstep hwrap
  · exact h.effect ho
  · exact h.readOracle

/-- **Invariant.** Every versioned record and every client satisfies its invariant in every
reachable state in which no commit timestamp has wrapped. -/
theorem inv_of_reachable (h : Reachable cfg s) (hwrap : NoWrap cfg s) : Inv cfg s := by
  induction h with
  | start hs => exact hs.inv
  | next _ _ ha ih => exact (ih (hwrap.of_step ha)).step ha hwrap

end RdmaSnapshot
