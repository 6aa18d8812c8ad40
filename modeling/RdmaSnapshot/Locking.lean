import RdmaSnapshot.Posting

/-!
# Taking and giving up locks

A transaction locks all records of its write set in one batch of CASes, each from the word of its
own copy of the head. When the replies have landed, it holds exactly the records whose word did
not differ from its copy; it then either gives all of them back or goes on to commit.
-/

namespace RdmaSnapshot

variable {cfg : Config} {s : State} {c : ClientID} {cl cl' : Client} {k : Key} {o : Owner}
  {trx : Trx} {posts : List Post}

/-! ## One group of verbs for every record -/

section Groups

variable {α : Type} {key : α → Key} {f : α → List Verb} {as : List α}

theorem opsOn_flatMap_of_not_mem (hf : ∀ a ∈ as, ∀ v ∈ f a, ∀ k, v.mutates k = true → key a = k)
    (hk : ∀ a ∈ as, key a ≠ k) : opsOn k (tagged o (as.flatMap f)) = [] := by
  refine opsOn_eq_nil fun p hp => ?_
  obtain ⟨a, ha, hva⟩ := List.mem_flatMap.1 (mem_tagged.1 hp).2
  by_contra hm
  exact hk a ha (hf a ha p.2 hva k (by simpa using hm))

theorem opsOn_flatMap_of_mem (hnodup : (as.map key).Nodup)
    (hf : ∀ a ∈ as, ∀ v ∈ f a, ∀ k, v.mutates k = true ↔ key a = k) {a : α} (ha : a ∈ as) :
    opsOn (key a) (tagged o (as.flatMap f)) = tagged o (f a) := by
  induction as with
  | nil => cases ha
  | cons a' as ih =>
    rw [List.map_cons, List.nodup_cons] at hnodup
    rw [List.flatMap_cons, tagged_append, opsOn_append]
    have hrest := ih hnodup.2 fun b hb => hf b (List.mem_cons_of_mem _ hb)
    rcases List.mem_cons.1 ha with rfl | ha
    · have hnone : opsOn (key a) (tagged o (as.flatMap f)) = [] := by
        refine opsOn_flatMap_of_not_mem
          (fun b hb v hv k => (hf b (List.mem_cons_of_mem _ hb) v hv k).1) ?_
        intro b hb hkey
        exact hnodup.1 (hkey ▸ List.mem_map_of_mem hb)
      have hown : opsOn (key a) (tagged o (f a)) = tagged o (f a) :=
        opsOn_tagged_self fun v hv => (hf a List.mem_cons_self v hv (key a)).2 rfl
      rw [hnone, hown, List.append_nil]
    · have hfirst : opsOn (key a) (tagged o (f a')) = [] := by
        refine opsOn_tagged_of_ne (fun hkey => hnodup.1 ?_)
          fun v hv k => (hf a' List.mem_cons_self v hv k).1
        exact hkey ▸ List.mem_map_of_mem ha
      rw [hfirst, List.nil_append]
      exact hrest ha

theorem opsOn_flatMap_congr {g : α → List Verb}
    (h : ∀ a ∈ as, opsOn k (tagged o (f a)) = opsOn k (tagged o (g a))) :
    opsOn k (tagged o (as.flatMap f)) = opsOn k (tagged o (as.flatMap g)) := by
  induction as with
  | nil => rfl
  | cons a as ih =>
    rw [List.flatMap_cons, List.flatMap_cons, tagged_append, tagged_append, opsOn_append,
      opsOn_append, h a List.mem_cons_self, ih fun b hb => h b (List.mem_cons_of_mem _ hb)]

end Groups

/-! ## Commit timestamps -/

theorem Standing.newCommitTimestamp_toNat (h : Standing cfg s c cl) (hc : c.toNat < cfg.clientCnt)
    (hwrap : (s.acquired c + 1) * cfg.clientCnt + c.toNat < 2 ^ 32) :
    (cl.newCommitTimestamp cfg c).toNat = s.nextCts cfg c := by
  have hpos : 1 ≤ cfg.clientCnt := by omega
  have hepoch : s.acquired c + 1 ≤ (s.acquired c + 1) * cfg.clientCnt :=
    Nat.le_mul_of_pos_right _ hpos
  have hnat : cl.nextEpoch.toNat = s.acquired c + 1 := by
    rw [h.epoch, UInt32.toNat_ofNat']
    exact Nat.mod_eq_of_lt (by omega)
  rw [Client.newCommitTimestamp, hnat, UInt32.toNat_ofNat', State.nextCts]
  exact Nat.mod_eq_of_lt hwrap

/-! ## Posting the CASes -/

theorem Seen.genuine {x : Version (Row k.table)} (h : Seen s k x)
    (hacc : cl.isRecordAccessible c x.writeTimestamp = true) :
    ∃ u ∈ s.versions k, SameVersion k x u := by
  obtain ⟨hlocked, hdeleted, -⟩ := BaseTransaction.isRecordAccessible_iff.1 hacc
  rcases h with hl | hd | hu
  · simp [hl] at hlocked
  · simp [hd] at hdeleted
  · exact hu

theorem Seen.names {x : Version (Row k.table)} (h : Seen s k x)
    (hacc : cl.isRecordAccessible c x.writeTimestamp = true) (hrec : RecordOK cfg s k) :
    k.Names x.body := by
  obtain ⟨u, hu, hsame⟩ := h.genuine hacc
  exact (Key.names_iff_of_mask_eq hsame.2).2 (hrec.names u hu)

theorem Standing.names (h : Standing cfg s c cl) (hrec : RecordsOK cfg s) {p : Key × ℕ}
    (hp : p ∈ cl.phase.writeSet cfg) : p.1.Names (cl.copy p.1 p.2).body := by
  obtain ⟨u, hu, hsame⟩ := h.genuine p hp
  have hnames := (hrec p.1 (Phase.versioned_of_mem_writeSet hp)).names u hu
  exact (Key.names_iff_of_mask_eq hsame.2).2 hnames

def Client.lockVerb (c : ClientID) (cl : Client) (cts : UInt32) (p : Key × ℕ) : Verb :=
  .compareAndSwap p.1 (cl.copy p.1 p.2).writeTimestamp
    (lockTimestamp (cl.copy p.1 p.2).writeTimestamp c cts) p.2

theorem Polled.ops_eq_nil (h : Polled cfg s c cl)
    (hq : .server (cfg.serverOf k) ∈ cl.waits cfg) : cl.ops k = [] := by
  refine opsOn_eq_nil fun p hp => ?_
  obtain ⟨wr, hwr, rfl⟩ := List.mem_map.1 hp
  by_contra hm
  have hqp : wr.verb.qp cfg = .server (cfg.serverOf k) := Verb.qp_of_mutates (by simpa using hm)
  exact Fifo.lane_eq_nil_iff.1 (h.lanes _ hq) wr hwr hqp

/-- **Locking.** The standing of a client that has acquired a commit timestamp and posted one CAS
for every record of its write set, all of which it may access. -/
theorem Polled.lock (h : Polled cfg s c cl) (hrec : RecordsOK cfg s)
    (hp : Posted cfg cl cl' trx posts) {cts : UInt32} (hc : c.toNat < cfg.clientCnt)
    (hcts : cts.toNat = s.nextCts cfg c) (hepoch : cl'.nextEpoch = cl.nextEpoch + 1)
    (hw : cl.phase.writeSet cfg = []) (hplan : cl.plan cfg c = [])
    (hlockCts : cl'.phase.lockCts = cts) (hplan' : cl'.plan cfg c = [])
    (hnodup : ((cl'.phase.writeSet cfg).map Prod.fst).Nodup)
    (hposts : ∀ k, k.versioned = true → opsOn k (batch ⟨cl.t, trx⟩ posts) =
      opsOn k (tagged ⟨cl.t, trx⟩
        ((cl'.phase.writeSet cfg).flatMap fun p => [cl'.lockVerb c cts p])))
    (hserver : ∀ p ∈ cl'.phase.writeSet cfg, .server (cfg.serverOf p.1) ∈ cl.waits cfg)
    (hseen : ∀ p ∈ cl'.phase.writeSet cfg, Seen s p.1 (cl'.copy p.1 p.2))
    (haccess : ∀ p ∈ cl'.phase.writeSet cfg,
      cl'.isRecordAccessible c (cl'.copy p.1 p.2).writeTimestamp = true)
    (hchecked : ∀ cart, cl'.phase ≠ .newOrder cart (.olderVersions false)) :
    Standing cfg (s.setClient c cl' o (.acquire cts)) c cl' := by
  have hmutates : ∀ p ∈ cl'.phase.writeSet cfg, ∀ v ∈ [cl'.lockVerb c cts p], ∀ k,
      v.mutates k = true ↔ p.1 = k := by
    intro p _ v hv k
    obtain rfl := List.mem_singleton.1 hv
    simp [Client.lockVerb, Verb.mutates]
  have hgenuine : ∀ p ∈ cl'.phase.writeSet cfg, ∃ u ∈ s.versions p.1,
      SameVersion p.1 (cl'.copy p.1 p.2) u := by
    intro p hpw
    exact (hseen p hpw).genuine (haccess p hpw)
  exact {
    active := fun _ => hc
    epoch := by
      rw [hepoch, h.epoch, State.acquired_setClient_acquire]
      exact (UInt32.ofNat_add _ 1).symm
    genuine := hgenuine
    lockCts := by
      intro _
      rw [hlockCts, hcts, State.nextCts, State.nextCts, State.acquired_setClient_acquire]
      have hpos : 0 < cfg.clientCnt := by omega
      exact Nat.add_lt_add_right (Nat.mul_lt_mul_of_pos_right (Nat.lt_succ_self _) hpos) _
    locking := by
      intro trx' htrx' p hpw
      obtain rfl : trx = trx' := Option.some.inj (hp.phase_trx.symm.trans htrx')
      have hk := Phase.versioned_of_mem_writeSet hpw
      have hops : cl.ops p.1 = [] := h.ops_eq_nil (hserver p hpw)
      have hmine : s.mine c p.1 = none := by
        have hconf := h.conforms p.1 hk (by simp [hw])
        rw [hops, hplan] at hconf
        exact hconf.mine_eq_none
      refine .pending ?_ hmine ?_
      · rw [hp.ops, hops, hposts _ hk, opsOn_flatMap_of_mem hnodup hmutates hpw, hlockCts, hp.t_eq]
        rfl
      · -- timestamps of this client's versions are smaller than the one just acquired
        intro u hu hwriter
        rw [hlockCts] at hwriter
        have hclient : u.writeTimestamp.clientID = c := congrArg Prod.fst hwriter
        have htime : u.writeTimestamp.timestamp = cts := congrArg Prod.snd hwriter
        have hlt := (hrec p.1 hk).fresh u hu (by rw [hclient]; exact hc)
        rw [htime, hclient] at hlt
        omega
    conforms := by
      intro k hk hnot
      have hconf := h.conforms k hk (by simp [hw])
      have hnone : opsOn k (batch ⟨cl.t, trx⟩ posts) = [] := by
        rw [hposts k hk]
        refine opsOn_flatMap_of_not_mem (fun p hpw v hv k => (hmutates p hpw v hv k).1)
          fun p hpw hkey => hnot ?_
        exact hkey ▸ List.mem_map_of_mem hpw
      rw [hplan] at hconf
      rw [hp.ops, hnone, hplan', List.append_nil]
      exact hconf
    checked := fun cart hcart => absurd hcart (hchecked cart) }

/-! ## After the CASes -/

/-- Every reply has landed: a CAS swapped or found another word. -/
theorem Polled.lockState_cases (h : Polled cfg s c cl) (htrx : cl.phase.trx = some trx)
    {p : Key × ℕ} (hp : p ∈ cl.phase.writeSet cfg) :
    (cl.ops p.1 = [] ∧ cl.lockResult p.1 p.2 = (cl.copy p.1 p.2).writeTimestamp ∧
      s.mine c p.1 = some (⟨c, ⟨cl.t, trx⟩,
        lockTimestamp (cl.copy p.1 p.2).writeTimestamp c cl.phase.lockCts⟩, .locked) ∧
      SameVersion p.1 (cl.copy p.1 p.2) (s.current p.1)) ∨
    (cl.ops p.1 = [] ∧ cl.lockResult p.1 p.2 ≠ (cl.copy p.1 p.2).writeTimestamp ∧
      s.mine c p.1 = none) := by
  cases h.locking trx htrx p hp with
  | pending ops _ _ =>
    exfalso
    have hmem : (⟨⟨cl.t, trx⟩, cl.lockVerb c cl.phase.lockCts p⟩ : Owner × Verb) ∈ cl.ops p.1 := by
      rw [ops]
      exact List.mem_singleton_self _
    obtain ⟨wr, hwr, hverb⟩ := List.mem_map.1 (List.mem_filter.1 hmem).1
    have hlands := h.landed wr hwr
    rw [(Prod.mk.inj hverb).2] at hlands
    cases hlands
  | acquired ops result mine current => exact .inl ⟨ops, result, mine, current⟩
  | refused ops result mine => exact .inr ⟨ops, result, mine⟩

/-- **Commit.** All CASes swapped. The client holds every record of its write set, its copies are
the current versions, and it may go on with the WRITEs of its plan. -/
theorem Polled.commit (h : Polled cfg s c cl) (htrx : cl.phase.trx = some trx)
    (hout : cl'.outstanding = cl.outstanding) (hcq : cl'.sendCQ = cl.sendCQ)
    (hcnt : cl'.outstandingSendCompletionCnt = cl.outstandingSendCompletionCnt)
    (hepoch : cl'.nextEpoch = cl.nextEpoch) (hwaits : ∀ q ∈ cl'.waits cfg, q ∈ cl.waits cfg)
    (hr' : cl'.phase.readSet = []) (hw' : cl'.phase.writeSet cfg = [])
    (hlocks' : cl'.phase.isLocks = false) (hplan : cl.plan cfg c = [])
    (hall : ∀ p ∈ cl.phase.writeSet cfg,
      cl.lockResult p.1 p.2 = (cl.copy p.1 p.2).writeTimestamp)
    (hplanned : ∀ p ∈ cl.phase.writeSet cfg,
      SameVersion p.1 (cl.copy p.1 p.2) (s.current p.1) →
      Conforms cfg p.1 (s.current p.1) (some (⟨c, ⟨cl.t, trx⟩,
        lockTimestamp (cl.copy p.1 p.2).writeTimestamp c cl.phase.lockCts⟩, .locked))
        (opsOn p.1 (cl'.plan cfg c)))
    (hother : ∀ k, k.versioned = true → k ∉ (cl.phase.writeSet cfg).map Prod.fst →
      opsOn k (cl'.plan cfg c) = [])
    (hchecked : ∀ cart, cl'.phase ≠ .newOrder cart (.olderVersions false)) :
    Polled cfg s c cl' where
  active := by
    intro _
    refine h.active fun hidle => ?_
    simp [hidle, Phase.trx] at htrx
  epoch := hepoch.trans h.epoch
  genuine := by simp [hw']
  lockCts := by simp [hlocks']
  locking := by simp [hw']
  conforms := by
    intro k hk _
    rw [Client.ops, hout]
    by_cases hmem : k ∈ (cl.phase.writeSet cfg).map Prod.fst
    · obtain ⟨p, hp, rfl⟩ := List.mem_map.1 hmem
      rcases h.lockState_cases htrx hp with ⟨hops, -, hmine, hcur⟩ | ⟨-, hne, -⟩
      · rw [← Client.ops, hops, hmine, List.nil_append]
        exact hplanned p hp hcur
      · exact absurd (hall p hp) hne
    · have hconf := h.conforms k hk hmem
      rw [hplan] at hconf
      rw [hother k hk hmem]
      exact hconf
  checked := fun cart hcart => absurd hcart (hchecked cart)
  sendCQ := hcq.trans h.sendCQ
  counted := hcnt.trans h.counted
  unsignaled := by rw [hout, h.unsignaled]
  lanes := by
    intro q hq
    rw [hout]
    exact h.lanes q (hwaits q hq)
  landed := by
    rw [hout]
    exact h.landed
  reads := by simp [hr']

def Client.revertVerb (cl : Client) (p : Key × ℕ) : Verb :=
  .writeTimestamp p.1 (cl.copy p.1 p.2).writeTimestamp

def Client.swapped (cfg : Config) (cl : Client) : List (Key × ℕ) :=
  (cl.phase.writeSet cfg).filter fun p => cl.lockResult p.1 p.2 = (cl.copy p.1 p.2).writeTimestamp

/-- **Giving up.** The standing of a client that has posted, for every record whose CAS swapped,
the WRITE of the word it replaced. -/
theorem Polled.giveUp (h : Polled cfg s c cl) (htrx : cl.phase.trx = some trx)
    (hp : Posted cfg cl cl' trx posts) {l : CpuLabel} (hl : ∀ cts, l ≠ .acquire cts)
    (hepoch : cl'.nextEpoch = cl.nextEpoch) (hw' : cl'.phase.writeSet cfg = [])
    (hlocks' : cl'.phase.isLocks = false) (hplan : cl.plan cfg c = [])
    (hplan' : cl'.plan cfg c = [])
    (hnodup : ((cl.phase.writeSet cfg).map Prod.fst).Nodup)
    (hposts : ∀ k, k.versioned = true → opsOn k (batch ⟨cl.t, trx⟩ posts) =
      opsOn k (tagged ⟨cl.t, trx⟩ ((cl.swapped cfg).flatMap fun p => [cl.revertVerb p])))
    (hchecked : ∀ cart, cl'.phase ≠ .newOrder cart (.olderVersions false)) :
    Standing cfg (s.setClient c cl' o l) c cl' := by
  have hmutates : ∀ p ∈ cl.swapped cfg, ∀ v ∈ [cl.revertVerb p], ∀ k,
      v.mutates k = true ↔ p.1 = k := by
    intro p _ v hv k
    obtain rfl := List.mem_singleton.1 hv
    simp [Client.revertVerb, Verb.mutates]
  have hnodup' : ((cl.swapped cfg).map Prod.fst).Nodup := hnodup.sublist (List.filter_sublist.map _)
  exact {
    active := by
      intro _
      refine h.active fun hidle => ?_
      simp [hidle, Phase.trx] at htrx
    epoch := by rw [hepoch, h.epoch, State.acquired_setClient_of_label hl]
    genuine := by simp [hw']
    lockCts := by simp [hlocks']
    locking := by simp [hw']
    conforms := by
      intro k hk _
      rw [hp.ops, hposts k hk, hplan', opsOn_nil, List.append_nil]
      simp only [State.current_setClient, State.mine_setClient]
      by_cases hmem : k ∈ (cl.phase.writeSet cfg).map Prod.fst
      · obtain ⟨p, hpw, rfl⟩ := List.mem_map.1 hmem
        rcases h.lockState_cases htrx hpw with ⟨hops, hres, hmine, hcur⟩ | ⟨hops, hne, hmine⟩
        · have hsw : p ∈ cl.swapped cfg := List.mem_filter.2 ⟨hpw, by simpa using hres⟩
          rw [hops, hmine, opsOn_flatMap_of_mem hnodup' hmutates hsw, List.nil_append,
            Client.revertVerb, hcur.1]
          exact .revert
        · have hnone : opsOn p.1 (tagged ⟨cl.t, trx⟩
              ((cl.swapped cfg).flatMap fun p => [cl.revertVerb p])) = [] := by
            refine opsOn_flatMap_of_not_mem (fun p hpw v hv k => (hmutates p hpw v hv k).1)
              fun p' hp' hkey => ?_
            obtain ⟨hpw', hres⟩ := List.mem_filter.1 hp'
            -- two slots of one record are the same slot
            obtain rfl : p' = p := List.inj_on_of_nodup_map hnodup hpw' hpw hkey
            exact hne (by simpa using hres)
          rw [hops, hmine, hnone]
          exact .free
      · have hconf := h.conforms k hk hmem
        have hnone : opsOn k (tagged ⟨cl.t, trx⟩
            ((cl.swapped cfg).flatMap fun p => [cl.revertVerb p])) = [] := by
          refine opsOn_flatMap_of_not_mem (fun p hpw v hv k => (hmutates p hpw v hv k).1)
            fun p' hp' hkey => hmem ?_
          exact hkey ▸ List.mem_map_of_mem (List.mem_filter.1 hp').1
        rw [hplan] at hconf
        rw [hnone]
        exact hconf
    checked := fun cart hcart => absurd hcart (hchecked cart) }

end RdmaSnapshot
