import RdmaSnapshot.FirstCommitter
import RdmaSnapshot.Words

/-!
# Snapshots are causally closed

In `COMPLETE` mode a transaction accepts the versions that its snapshot covers and those of its own
client. When a later snapshot covers the transaction, it was read after that of the transaction, so
it covers what the transaction accepted: no visible transaction depends on an invisible one.
-/

namespace RdmaSnapshot

variable {cfg : Config} {s s₀ s₁ s₂ : State} {c r : ClientID} {cl : Client} {o : Owner}
  {t : UInt32} {w : Timestamp} {P : Timestamp → Prop}

theorem Client.Words.readWords (h : cl.Words P) (hw : w ∈ cl.readWords cfg) : P w := by
  unfold Client.readWords at hw
  split at hw
  · cases hw
  · simp only [NewOrderTransaction.readWords, List.mem_append, List.mem_cons, List.not_mem_nil,
      or_false, List.mem_flatMap] at hw
    rcases hw with (rfl | rfl | rfl) | ⟨n, -, rfl | rfl⟩ <;> exact h.heads _ _ _
  · simp only [PaymentTransaction.readWords, List.mem_cons, List.not_mem_nil, or_false] at hw
    rcases hw with rfl | rfl | rfl <;> exact h.heads _ _ _
  · simp only [DeliveryTransaction.readWords, List.mem_append, List.mem_cons, List.not_mem_nil,
      or_false, List.mem_map] at hw
    rcases hw with (rfl | rfl | rfl) | ⟨n, -, rfl⟩ <;> exact h.heads _ _ _

/-- The words of a client that a transaction of the client reads are older than its own. -/
theorem Dated.le_lastCts (h : Dated s w) (hst : Stamps cfg s) (hc : w.clientID = c)
    (ht : t.toNat = s.lastCts cfg c) : w.timestamp ≤ t := by
  rw [UInt32.le_iff_toNat_le, ht]
  rcases h with hzero | ⟨o, ho⟩
  · rw [show w.timestamp = 0 from (Prod.mk.inj hzero).2]
    exact Nat.zero_le _
  · rw [← hc]
    exact hst.bounded _ (hasAcquired_iff.1 ho)

theorem trace_suffix_of_leads (h : Transition.Leads (step cfg) s₁ s₂) :
    s₁.trace <:+ s₂.trace := by
  induction h with
  | start hs =>
    subst hs
    exact List.suffix_rfl
  | next _ _ ha ih =>
    obtain ⟨e, he⟩ := trace_of_step ha
    rw [he]
    exact ih.trans (List.suffix_cons _ _)

/-- **A transaction that acquires its commit timestamp sees all it has read.** -/
theorem covers_of_acquire (hmode : cfg.SNAPSHOT_ACQUISITION_TYPE = .COMPLETE)
    (h₀ : Reachable cfg s₀) {a : Action} (ha : step cfg s₀ a = some s₁)
    (hacq : s₁.trace = .cpu c o (.acquire t) :: s₀.trace) (hwrap : NoWrap cfg s₁)
    (hw : w ∈ (s₁.clients c).readWords cfg) : Covers cfg s₁ c o t w := by
  have h₁ := h₀.next trivial ha
  have hacquired : HasAcquired s₁ c o t := by
    rw [HasAcquired, hacq]
    exact List.mem_cons_self
  have hok := vectorOK_of_reachable h₁ hwrap c
  have hdated := (dated_of_reachable h₁).words.clients c
  -- the step is one of the client's CPU, which leaves it locking
  obtain ⟨hlocking, hex⟩ : (s₁.clients c).phase.status = .locking ∧ (s₁.clients c).Executes o := by
    rcases step_cases ha with ⟨c', vec, cl, o', l, -, hstep, rfl⟩ |
      ⟨c', i, wr, answer, -, -, rfl⟩ | ⟨g, -, rfl⟩
    · obtain ⟨rfl, rfl, rfl⟩ := Event.cpu.inj (List.cons.inj hacq).1
      obtain ⟨posts, hadv⟩ := hstep.advance
      rw [State.setClient_clients_self]
      have hst := hadv.advance.to_locking_of_acquire
      exact ⟨hst, hadv.executes (by simp [hst])⟩
    · cases (List.cons.inj hacq).1
    · cases (List.cons.inj hacq).1
  obtain ⟨past, hsnap⟩ := (snapshotOK_of_reachable hmode h₁ hwrap c).hasSnapshot
    ((inv_of_reachable h₁ hwrap).clients c) (by simp [hlocking]) (by simp [hlocking])
  refine hsnap.covers hex ((vetted_of_reachable h₁ hwrap c).accepted hlocking w hw) fun hc => ?_
  exact (hdated.readWords hw).le_lastCts (stamps_of_reachable h₁ hwrap) hc
    (hok.latest o t hacquired hex.number).2

/-- **Snapshots are causally closed.** Let a transaction of client `c` acquire its commit timestamp
`t` in the step to `s₁`, with the versions in its buffers that it has read and accepted. If it is
visible in the snapshot that a transaction of client `r` has obtained in a later state `s₂`, then
so are these versions, or `r` has written them. -/
theorem causally_closed (hmode : cfg.SNAPSHOT_ACQUISITION_TYPE = .COMPLETE)
    (h₀ : Reachable cfg s₀) {a : Action} (ha : step cfg s₀ a = some s₁)
    (hacq : s₁.trace = .cpu c o (.acquire t) :: s₀.trace)
    (hrun : Transition.Leads (step cfg) s₁ s₂) (hwrap : NoWrap cfg s₂)
    (hactive : (s₂.clients r).phase.status ≠ .idle)
    (hread : ∀ wr ∈ (s₂.clients r).outstanding, wr.verb ≠ .readVector)
    (hvis : t ≤ (s₂.clients r).localTimestampVector c ∨ c = r) :
    ∀ w ∈ (s₁.clients c).readWords cfg,
      w.timestamp ≤ (s₂.clients r).localTimestampVector w.clientID ∨ w.clientID = r := by
  intro w hw
  have h₂ := hrun.reachable (h₀.next trivial ha)
  have hpast := trace_suffix_of_leads hrun
  have hacquired : HasAcquired s₂ c o t := by
    refine hpast.subset ?_
    rw [hacq]
    exact List.mem_cons_self
  have hcov := (covers_of_acquire hmode h₀ ha hacq (hwrap.of_suffix hpast) hw).mono hpast
  obtain ⟨past, hsnap⟩ : ∃ past, HasSnapshot cfg s₂ r (s₂.clients r) past := by
    refine ((snapshotOK_of_reachable hmode h₂ hwrap r).current hactive).resolve_left
      fun hawaits => ?_
    obtain ⟨wr, hops, hverb, -⟩ := hawaits.ops
    exact hread wr (List.mem_filter.1 (hops ▸ List.mem_singleton_self wr)).1 hverb
  have hvis' : (c = r ∧ o.t ≤ (s₂.clients r).t) ∨ t ≤ vectorOf past c := by
    by_cases hc : c = r
    · subst hc
      exact .inl ⟨rfl, (vectorOK_of_reachable h₂ hwrap c).number o t hacquired⟩
    · rw [← hsnap.vector c hc]
      exact .inr (hvis.resolve_right hc)
  rcases visible_trans hmode h₂ hwrap hacquired hsnap.past_eq hvis' hcov with hd | hle
  · exact .inr hd
  · by_cases hd : w.clientID = r
    · exact .inr hd
    · rw [hsnap.vector _ hd]
      exact .inl hle

def seesBoth (s₁ s₂ : State) : Bool :=
  (match s₁.trace with
    | .cpu c _ (.acquire t) :: _ => c = 1 && t = 4
    | _ => false) &&
  ((s₁.clients 1).readWords (.shipped 3)).any (fun w => w.writer = (0, 3)) &&
  (s₂.clients 2).phase.status = .reading && (s₂.clients 2).outstanding.isEmpty &&
  4 ≤ (s₂.clients 2).localTimestampVector 1

set_option maxRecDepth 100000 in
theorem causally_closed_three : ∃ s₀ s₁ s₂, Reachable (.shipped 3) s₀ ∧
    (∃ o, s₁.trace = .cpu 1 o (.acquire 4) :: s₀.trace) ∧
    Transition.Leads (step (.shipped 3)) s₁ s₂ ∧ 4 ≤ (s₂.clients 2).localTimestampVector 1 ∧
    ∃ w ∈ (s₁.clients 1).readWords (.shipped 3), w.writer = (0, 3) ∧
      w.timestamp ≤ (s₂.clients 2).localTimestampVector 0 := by
  obtain ⟨s₀, s₁, s₂, h₀, ha, hrun, hwrap, hp⟩ := exists_leads (init_plain (.shipped 3))
    (newOrderAlone 0 ++ (newOrderAlone 1).take 24) (.cpu 1)
    ((newOrderAlone 1).drop 25 ++ (newOrderAlone 2).take 23) seesBoth
    (by decide +kernel) (by decide +kernel)
  simp only [seesBoth, Bool.and_eq_true, decide_eq_true_eq, List.any_eq_true,
    List.isEmpty_iff] at hp
  obtain ⟨⟨⟨⟨htrace, w, hw, hwriter⟩, hstatus⟩, hout⟩, hvis⟩ := hp
  obtain ⟨e, he⟩ := trace_of_step ha
  obtain ⟨o, rfl⟩ : ∃ o, e = .cpu 1 o (.acquire 4) := by
    rw [he] at htrace
    split at htrace
    · rename_i heq
      rw [(List.cons.inj heq).1]
      simp only [Bool.and_eq_true, decide_eq_true_eq] at htrace
      rw [htrace.1, htrace.2]
      exact ⟨_, rfl⟩
    · cases htrace
  have hclosed := causally_closed rfl h₀ ha he hrun hwrap (by simp [hstatus]) (by simp [hout])
    (.inl hvis) w hw
  have hclient : w.clientID = 0 := (Prod.mk.inj hwriter).1
  rw [hclient] at hclosed
  exact ⟨s₀, s₁, s₂, h₀, ⟨o, he⟩, hrun, hvis, w, hw, hwriter,
    hclosed.resolve_right (by decide)⟩

end RdmaSnapshot
