import RdmaSnapshot.Effects

/-!
# Results land

What a work request that takes effect leaves in the buffers of its client. A result that is still
awaited lands in the buffers of the transaction in execution, in an entry that no other awaited
result shares; so a copy of a head, once landed, stays until the transaction itself overwrites it.
-/

namespace RdmaSnapshot

variable {cfg : Config} {s : State} {c : ClientID} {cl : Client} {k k' : Key} {i b : ℕ}
  {wr : WorkRequest} {answer : IndexAnswer} {v : Verb} {m : LocalMemory} {t : Table}

/-! ## Buffers -/

theorem State.land_of_not_lands (h : wr.verb.lands = false) : s.land wr answer cl = cl := by
  obtain ⟨o, verb, sig⟩ := wr
  cases verb with
  | writeTimestamp | writePointerList | writeOlderVersion | writeHead | writeVectorEntry
  | writeLog =>
    simp [State.land, State.landLocal, State.landVector, Verb.landCustomerName,
      Verb.landOldestUndeliveredOrder]
  | _ => cases h

theorem Phase.cls_of_trx {ph : Phase} {trx : Trx} (h : ph.trx = some trx) : trx.cls = ph.cls := by
  cases ph <;> cases h <;> rfl

theorem State.landLocal_head_of_ne (hhead : ∀ k b', v = .readHead k b' → t ≠ k.table ∨ b ≠ b')
    (holder : ∀ k slot, v = .readOlderVersion k slot → t ≠ k.table ∨ b ≠ 0)
    (hversion : ∀ k ts, v = .readVersion k ts → t ≠ k.table ∨ b ≠ 0)
    (hlines : ∀ n j count, v = .readOrderLines n j count → t ≠ .orderLine)
    (hfaa : ∀ wID dID, v = .fetchAndAdd wID dID → t ≠ .district ∨ b ≠ 0) :
    (s.landLocal v m).head t b = m.head t b := by
  cases v with
  | readHead k b' => exact LocalMemory.setHead_head_of_ne _ (hhead k b' rfl)
  | readOlderVersion k slot => exact LocalMemory.setHead_head_of_ne _ (holder k slot rfl)
  | readVersion k ts =>
    simp only [State.landLocal]
    split
    · exact LocalMemory.setHead_head_of_ne _ (hversion k ts rfl)
    · rfl
  | readOrderLines n j count => simp [State.landLocal, hlines n j count rfl]
  | fetchAndAdd wID dID => exact LocalMemory.setHead_head_of_ne _ (hfaa wID dID rfl)
  | _ => rfl

theorem State.landLocal_lockRegion_of_ne
    (hcas : ∀ k o n b', v = .compareAndSwap k o n b' → t ≠ k.table ∨ b ≠ b') :
    (s.landLocal v m).lockRegion t b = m.lockRegion t b := by
  cases v with
  | compareAndSwap k o n b' => exact LocalMemory.setLock_lockRegion_of_ne _ (hcas k o n b' rfl)
  | readVersion k ts =>
    simp only [State.landLocal]
    split <;> rfl
  | _ => rfl

/-! ## Entries are not shared -/

theorem Key.versioned_of_table_eq (h : k.table = k'.table) (hk : k'.versioned = true) :
    k.versioned = true := by
  cases k <;> cases k' <;> first | rfl | (cases h; done) | cases hk

/-- No two records of the list share a buffer entry. -/
def EntriesInj (slots : List (Key × ℕ)) : Prop :=
  ∀ p ∈ slots, ∀ p' ∈ slots, p.1.table = p'.1.table → p.2 = p'.2 → p = p'

theorem EntriesInj.append {slots slots' : List (Key × ℕ)} (h : EntriesInj slots)
    (h' : EntriesInj slots') (hne : ∀ p ∈ slots, ∀ p' ∈ slots', p.1.table ≠ p'.1.table) :
    EntriesInj (slots ++ slots') := by
  intro p hp p' hp' ht hb
  rcases List.mem_append.1 hp with hp | hp <;> rcases List.mem_append.1 hp' with hp' | hp'
  · exact h p hp p' hp' ht hb
  · exact absurd ht (hne p hp p' hp')
  · exact absurd ht.symm (hne p' hp' p hp)
  · exact h' p hp p' hp' ht hb

theorem NewOrderTransaction.stockSlots_inj (cart : NewOrderCart) :
    EntriesInj (stockSlots cart) := by
  intro p hp p' hp' _ hb
  obtain ⟨item, hitem, hk⟩ := mem_stockSlots.1 hp
  obtain ⟨item', hitem', hk'⟩ := mem_stockSlots.1 hp'
  rw [hb, hitem', Option.some.injEq] at hitem
  subst hitem
  exact Prod.ext (hk.trans hk'.symm) hb

theorem NewOrderTransaction.table_of_mem_stockSlots {cart : NewOrderCart} {p : Key × ℕ}
    (hp : p ∈ stockSlots cart) : p.1.table = .stock := by
  obtain ⟨item, -, hk⟩ := mem_stockSlots.1 hp
  rw [hk]

/-- The heads a transaction reads are kept in different buffer entries. -/
theorem Phase.readSet_inj (ph : Phase) : EntriesInj ph.readSet := by
  cases ph with
  | idle => simp [EntriesInj, readSet]
  | newOrder cart pc =>
    cases pc with
    | readSet | snapshot | olderVersions =>
      refine EntriesInj.append (by simp [EntriesInj])
        (NewOrderTransaction.stockSlots_inj cart) fun p hp p' hp' => ?_
      rw [NewOrderTransaction.table_of_mem_stockSlots hp']
      revert p
      simp
    | _ => simp [EntriesInj, readSet]
  | payment cart pc => cases pc <;> simp [EntriesInj, readSet]
  | delivery cart dID pc => cases pc <;> simp [EntriesInj, readSet]

theorem Phase.writeSet_inj (ph : Phase) : EntriesInj (ph.writeSet cfg) := by
  cases ph with
  | idle => simp [EntriesInj, writeSet]
  | newOrder cart pc =>
    cases pc with
    | locks =>
      refine EntriesInj.append (by split <;> simp [EntriesInj])
        (NewOrderTransaction.stockSlots_inj cart) fun p hp p' hp' => ?_
      rw [NewOrderTransaction.table_of_mem_stockSlots hp']
      revert p
      split <;> simp
    | _ => simp [EntriesInj, writeSet]
  | payment cart pc => cases pc <;> simp [EntriesInj, writeSet]
  | delivery cart dID pc => cases pc <;> simp [EntriesInj, writeSet]

theorem Phase.not_mem_readSet_of_isNextOID {ph : Phase} {p : Key × ℕ}
    (h : ph.isNextOID = true) : p ∉ ph.readSet := by
  cases ph with
  | newOrder cart pc =>
    cases pc with
    | nextOID => simp [readSet]
    | _ => cases h
  | _ => cases h

theorem Phase.reads_of_isLocks {ph : Phase} (h : ph.isLocks = true) :
    ph.readsHeads = false ∧ ph.fetches = false ∧ ph.isNextOID = false := by
  cases ph with
  | idle => cases h
  | newOrder cart pc => cases pc <;> first | exact ⟨rfl, rfl, rfl⟩ | cases h
  | payment cart pc => cases pc <;> first | exact ⟨rfl, rfl, rfl⟩ | cases h
  | delivery cart dID pc => cases pc <;> first | exact ⟨rfl, rfl, rfl⟩ | cases h

/-- No result is awaited that a later stretch of code uses. -/
def Phase.awaitsNothing (ph : Phase) : Bool :=
  !(ph.readsHeads || ph.fetches || ph.isLocks || ph.isNextOID || ph.asksIndex || ph.readsVector)

/-! ## Landing in the invariant -/

section

variable (h : ClientOK cfg s c cl) (ho : cl.Oldest cfg i wr)

include h ho

theorem ClientOK.buffers_land :
    ((s.land wr answer cl).complete i wr).buffers = s.landLocal wr.verb cl.buffers := by
  have hmem : wr ∈ cl.outstanding := List.mem_of_getElem? ho.getElem
  by_cases hl : wr.verb.lands = true
  · obtain ⟨⟨trx, htrx, howner⟩, -, -⟩ := h.lands wr hmem hl
    have hcls : wr.owner.trx.cls = cl.phase.cls := by
      rw [howner]
      exact Phase.cls_of_trx htrx
    simp [Client.buffers, Client.complete, State.land, hcls]
  · have hl' : wr.verb.lands = false := by simpa using hl
    rw [State.land_of_not_lands hl']
    obtain ⟨o, verb, sig⟩ := wr
    cases verb with
    | writeTimestamp | writePointerList | writeOlderVersion | writeHead | writeVectorEntry
    | writeLog => rfl
    | _ => cases hl'

theorem ClientOK.awaits_of_lands (hl : wr.verb.lands = true) : cl.awaits cfg wr.verb :=
  (h.lands wr (List.mem_of_getElem? ho.getElem) hl).2.2

theorem ClientOK.head_land_of_awaits {t : Table} (hhead : cl.phase.readsHeads = true → ∀ k b',
      (k.versioned = true → (k, b') ∈ cl.phase.readSet) → wr.verb = .readHead k b' →
      t ≠ k.table ∨ b ≠ b')
    (hlines : cl.phase.readsHeads = true → t ≠ .orderLine)
    (hfetch : cl.phase.fetches = true → ∀ k, (k, 0) ∈ cl.phase.readSet → k.table ≠ .stock →
      t ≠ k.table ∨ b ≠ 0)
    (hfaa : cl.phase.isNextOID = true → t ≠ .district) :
    (s.landLocal wr.verb cl.buffers).head t b = cl.buffers.head t b := by
  refine State.landLocal_head_of_ne (fun k b' hv => ?_) (fun k slot hv => ?_) (fun k ts hv => ?_)
    (fun n j count hv => ?_) fun wID dID hv => ?_ <;>
    have haw := h.awaits_of_lands ho (by rw [hv]; rfl) <;> rw [hv] at haw
  · exact hhead haw.1 k b' haw.2.1 hv
  · exact hfetch haw.1 k haw.2.1 haw.2.2
  · exact hfetch haw.1 k haw.2.1 haw.2.2
  · exact hlines haw
  · exact .inl (hfaa haw)

/-- Outside the phases that read heads no copy of a head changes, but for the counter that an FAA
returns. -/
theorem ClientOK.head_land {t : Table} (hreads : cl.phase.readsHeads = false)
    (hfetches : cl.phase.fetches = false) (hfaa : cl.phase.isNextOID = true → t ≠ .district) :
    (s.landLocal wr.verb cl.buffers).head t b = cl.buffers.head t b :=
  h.head_land_of_awaits ho (by simp [hreads]) (by simp [hreads]) (by simp [hfetches]) hfaa

theorem ClientOK.seen_land (hrec : RecordsOK cfg s) {p : Key × ℕ} (hp : p ∈ cl.phase.readSet)
    (hseen : wr.verb = .readHead p.1 p.2 ∨ Seen s p.1 (cl.copy p.1 p.2)) :
    Seen s p.1 (((s.land wr answer cl).complete i wr).copy p.1 p.2) := by
  rw [Client.copy, h.buffers_land ho]
  obtain ⟨k, b⟩ := p
  have hk : k.versioned = true := Phase.versioned_of_mem_readSet hp
  -- an awaited READ into the entry of `k` is a READ of `k`
  have hsame : ∀ {k' : Key} {b' : ℕ}, (k', b') ∈ cl.phase.readSet →
      ¬ (k.table ≠ k'.table ∨ b ≠ b') → k' = k ∧ b' = b := by
    intro k' b' hmem hne
    push Not at hne
    have heq := Phase.readSet_inj _ (k', b') hmem (k, b) hp hne.1.symm hne.2.symm
    exact ⟨congrArg Prod.fst heq, congrArg Prod.snd heq⟩
  by_cases hland : ∃ k' b', wr.verb = .readHead k' b' ∧ ¬ (k.table ≠ k'.table ∨ b ≠ b')
  · obtain ⟨k', b', hv, hne⟩ := hland
    have haw := h.awaits_of_lands ho (by rw [hv]; rfl)
    rw [hv] at haw
    have hk' : k'.versioned = true := by
      push Not at hne
      exact Key.versioned_of_table_eq hne.1.symm hk
    obtain ⟨rfl, rfl⟩ := hsame (haw.2.1 hk') hne
    rw [hv]
    simp only [State.landLocal, LocalMemory.setHead_head_self]
    rcases (hrec k' hk').head_cases with hlocked | hcur
    · exact .inl hlocked
    · exact .inr (.inr ⟨_, s.current_mem k', hcur⟩)
  by_cases hfetch : ∃ k' slot, wr.verb = .readOlderVersion k' slot ∧
      ¬ (k.table ≠ k'.table ∨ b ≠ 0)
  · obtain ⟨k', slot, hv, hne⟩ := hfetch
    have haw := h.awaits_of_lands ho (by rw [hv]; rfl)
    rw [hv] at haw
    obtain ⟨rfl, rfl⟩ := hsame haw.2.1 hne
    rw [hv]
    simp only [State.landLocal, LocalMemory.setHead_head_self]
    exact .inr ((hrec k' hk).ring slot)
  by_cases hideal : ∃ k' ts, wr.verb = .readVersion k' ts ∧ ¬ (k.table ≠ k'.table ∨ b ≠ 0)
  · obtain ⟨k', ts, hv, hne⟩ := hideal
    have haw := h.awaits_of_lands ho (by rw [hv]; rfl)
    rw [hv] at haw
    obtain ⟨rfl, rfl⟩ := hsame haw.2.1 hne
    rw [hv]
    simp only [State.landLocal]
    split
    · rename_i v hfind
      simp only [LocalMemory.setHead_head_self]
      exact .inr (.inr ⟨v, List.mem_of_find?_eq_some hfind, .refl v⟩)
    · rcases hseen with hread | hseen
      · simp [hread] at hv
      · exact hseen
  rw [State.landLocal_head_of_ne]
  · rcases hseen with hread | hseen
    · exact absurd ⟨k, b, hread, by simp⟩ hland
    · exact hseen
  · intro k' b' hv
    by_contra hne
    exact hland ⟨k', b', hv, hne⟩
  · intro k' slot hv
    by_contra hne
    exact hfetch ⟨k', slot, hv, hne⟩
  · intro k' ts hv
    by_contra hne
    exact hideal ⟨k', ts, hv, hne⟩
  · rintro n j count - htable
    have hlines := Key.versioned_of_table_eq (k := .orderLine 0 0) htable.symm hk
    cases hlines
  · intro wID dID hv
    have haw := h.awaits_of_lands ho (by rw [hv]; rfl)
    rw [hv] at haw
    exact absurd hp (Phase.not_mem_readSet_of_isNextOID haw)

theorem ClientOK.copy_land (hlocks : cl.phase.isLocks = true) :
    ((s.land wr answer cl).complete i wr).copy k b = cl.copy k b := by
  obtain ⟨hreads, hfetches, hnext⟩ := Phase.reads_of_isLocks hlocks
  rw [Client.copy, h.buffers_land ho]
  exact h.head_land ho hreads hfetches (by simp [hnext])

theorem ClientOK.lockResult_land (hp : (k, b) ∈ cl.phase.writeSet cfg)
    (hm : wr.verb.mutates k = false) :
    ((s.land wr answer cl).complete i wr).lockResult k b = cl.lockResult k b := by
  rw [Client.lockResult, h.buffers_land ho]
  refine State.landLocal_lockRegion_of_ne fun k' old new b' hv => ?_
  by_contra hne
  push Not at hne
  have haw := h.awaits_of_lands ho (by rw [hv]; rfl)
  rw [hv] at haw
  have hk' : k'.versioned = true :=
    Key.versioned_of_table_eq hne.1.symm (Phase.versioned_of_mem_writeSet hp)
  have heq := Phase.writeSet_inj _ (k', b') (haw.2 hk') (k, b) hp hne.1.symm hne.2.symm
  obtain rfl : k' = k := congrArg Prod.fst heq
  simp [hv, Verb.mutates] at hm

theorem ClientOK.lockState_effect (hrec : RecordsOK cfg s) {trx : Trx}
    (htrx : cl.phase.trx = some trx) (hp : (k, b) ∈ cl.phase.writeSet cfg) :
    LockState cfg (s.effect c i wr answer) c ((s.land wr answer cl).complete i wr) ⟨cl.t, trx⟩
      cl.phase.lockCts k b := by
  have hk : k.versioned = true := Phase.versioned_of_mem_writeSet hp
  have hcopy : ((s.land wr answer cl).complete i wr).copy k b = cl.copy k b :=
    h.copy_land ho (Phase.isLocks_of_mem_writeSet hp)
  by_cases hm : wr.verb.mutates k = true
  · -- the CAS of this very record took effect
    have hops := Client.ops_eq_cons ho hm
    cases h.locking trx htrx _ hp with
    | acquired hnone => simp [hops] at hnone
    | refused hnone => simp [hops] at hnone
    | pending hpend hmine hfresh =>
      rw [hops] at hpend
      obtain ⟨hwr, hrest⟩ := List.cons.inj hpend
      obtain ⟨howner, hv⟩ := Prod.mk.inj hwr
      have hresult : ((s.land wr answer cl).complete i wr).lockResult k b =
          (s.mem k).head.writeTimestamp := by
        rw [Client.lockResult, h.buffers_land ho, hv]
        simp [State.landLocal]
      by_cases hw : (s.mem k).head.writeTimestamp = (cl.copy k b).writeTimestamp
      · obtain ⟨u, hu, hsame⟩ := h.genuine _ hp
        have hcur := ((hrec k hk).current_of_word_eq hu (hw.trans hsame.1)).2
        have hne : ∀ v, wr.verb ≠ .writeHead k v := fun v hv' => by simp [hv] at hv'
        refine .acquired hrest (by rw [hresult, hcopy, hw]) ?_ ?_
        · rw [hcopy, ← howner]
          exact State.mine_eq_some.2 ⟨State.holder_effect_swap hv hw, rfl⟩
        · rw [hcopy, State.current_effect_of_ne hne, hcur]
          exact hsame
      · refine .refused hrest (by rw [hresult, hcopy]; exact hw) ?_
        rw [State.mine, State.holder_effect_noSwap hv hw]
        exact hmine
  · have hm' : wr.verb.mutates k = false := by simpa using hm
    have hops : ((s.land wr answer cl).complete i wr).ops k = cl.ops k := Client.ops_complete ho hm'
    have hmine : (s.effect c i wr answer).mine c k = s.mine c k := by
      rw [State.mine, State.holder_effect_of_not_mutates hm', State.mine]
    have hne : ∀ v, wr.verb ≠ .writeHead k v := fun v hv => by simp [hv, Verb.mutates] at hm'
    have hresult : ((s.land wr answer cl).complete i wr).lockResult k b = cl.lockResult k b :=
      h.lockResult_land ho hp hm'
    cases h.locking trx htrx _ hp with
    | pending hpend hfree hfresh =>
      refine .pending (by rw [hops, hcopy]; exact hpend) (by rw [hmine, hfree]) ?_
      rw [State.versions_effect_of_ne hne]
      exact hfresh
    | acquired hnone hres hheld hcur =>
      refine .acquired (by rw [hops]; exact hnone) (by rw [hresult, hcopy]; exact hres)
        (by rw [hmine, hcopy]; exact hheld) ?_
      rw [hcopy, State.current_effect_of_ne hne]
      exact hcur
    | refused hnone hres hfree =>
      exact .refused (by rw [hops]; exact hnone) (by rw [hresult, hcopy]; exact hres)
        (by rw [hmine, hfree])

theorem ClientOK.land_eq_self (hawait : cl.phase.awaitsNothing = true) :
    s.land wr answer cl = cl := by
  simp only [Phase.awaitsNothing, Bool.not_eq_true', Bool.or_eq_false_iff] at hawait
  by_cases hl : wr.verb.lands = true
  swap
  · exact State.land_of_not_lands (by simpa using hl)
  have haw := h.awaits_of_lands ho hl
  obtain ⟨o, verb, sig⟩ := wr
  cases verb with
  | send n req =>
    cases req with
    | registerOrder | registerDelivery =>
      simp [State.land, State.landLocal, State.landVector, Verb.landCustomerName,
        Verb.landOldestUndeliveredOrder]
    | _ => simp [Client.awaits, IndexRequest.registers, hawait] at haw
  | writeTimestamp | writePointerList | writeOlderVersion | writeHead | writeVectorEntry
  | writeLog => cases hl
  | _ => simp [Client.awaits, hawait] at haw

/-- What a transaction has yet to post does not depend on what may still land. -/
theorem ClientOK.plan_land : ((s.land wr answer cl).complete i wr).plan cfg c = cl.plan cfg c := by
  by_cases hawait : cl.phase.awaitsNothing = true
  · rw [h.land_eq_self ho hawait]
    rfl
  have hphase : ((s.land wr answer cl).complete i wr).phase = cl.phase := rfl
  unfold Client.plan
  rw [hphase]
  cases hph : cl.phase with
  | idle => rfl
  | payment cart pc =>
    cases pc with
    | log => exact absurd (by rw [hph]; rfl) hawait
    | _ => rfl
  | delivery cart dID pc =>
    cases pc with
    | log => exact absurd (by rw [hph]; rfl) hawait
    | _ => rfl
  | newOrder cart pc =>
    cases pc with
    | log => exact absurd (by rw [hph]; rfl) hawait
    | nextOID cts =>
      have hstock : ∀ b, NewOrderTransaction.stockV ((s.land wr answer cl).complete i wr) b =
          NewOrderTransaction.stockV cl b := by
        intro b
        have hbuffers : ((s.land wr answer cl).complete i wr).buffers =
            s.landLocal wr.verb cl.buffers := h.buffers_land ho
        have hland := h.head_land (b := b) (t := .stock) ho (by rw [hph]; rfl)
          (by rw [hph]; rfl) fun _ => by simp
        rw [← hbuffers] at hland
        simp only [Client.buffers, hphase, hph] at hland
        exact hland
      simp only [NewOrderTransaction.stockPlan, hstock]
      rfl
    | _ => rfl

theorem ClientOK.waits_land : ((s.land wr answer cl).complete i wr).waits cfg = cl.waits cfg := by
  by_cases hawait : cl.phase.awaitsNothing = true
  · rw [h.land_eq_self ho hawait]
    rfl
  have hphase : ((s.land wr answer cl).complete i wr).phase = cl.phase := rfl
  unfold Client.waits
  rw [hphase]
  cases hph : cl.phase with
  | payment cart pc =>
    cases pc with
    | install => exact absurd (by rw [hph]; rfl) hawait
    | _ => rfl
  | idle => rfl
  | newOrder cart pc => cases pc <;> rfl
  | delivery cart dID pc => cases pc <;> rfl

/-- The stock copies of a NewOrder that passed its check stay, and so does its snapshot. -/
theorem ClientOK.checked_land {cart : NewOrderCart}
    (hph : cl.phase = .newOrder cart (.olderVersions false)) (hb : b < cart.items.length) :
    ((s.land wr answer cl).complete i wr).isRecordAccessible c
      (((s.land wr answer cl).complete i wr).buffers.head .stock b).writeTimestamp = true := by
  have hhead : ((s.land wr answer cl).complete i wr).buffers.head .stock b =
      cl.buffers.head .stock b := by
    rw [h.buffers_land ho]
    have hreads : cl.phase.readsHeads = false := by rw [hph]; rfl
    exact h.head_land_of_awaits ho (by simp [hreads]) (by simp)
      (fun _ k _ hstock => .inl hstock.symm) (by simp)
  have hvector : ((s.land wr answer cl).complete i wr).localTimestampVector =
      cl.localTimestampVector := by
    by_cases hl : wr.verb.lands = true
    · have haw := h.awaits_of_lands ho hl
      obtain ⟨o, verb, sig⟩ := wr
      cases verb with
      | readVector | readVectorEntry => simp [Client.awaits, hph, Phase.readsVector] at haw
      | _ => rfl
    · rw [State.land_of_not_lands (by simpa using hl)]
      rfl
  have hchecked := h.checked cart hph b hb
  unfold Client.isRecordAccessible at hchecked ⊢
  rw [hhead, hvector]
  exact hchecked

/-- **Effect.** The invariant of a client after one of its requests took effect. -/
theorem ClientOK.effect (hrec : RecordsOK cfg s) :
    ClientOK cfg (s.effect c i wr answer) c ((s.land wr answer cl).complete i wr) where
  active := h.active
  epoch := by
    rw [State.acquired_effect]
    exact h.epoch
  genuine := by
    intro p hp
    obtain ⟨u, hu, hsame⟩ := h.genuine p hp
    refine ⟨u, State.mem_versions_effect hu, ?_⟩
    rw [h.copy_land ho (Phase.isLocks_of_mem_writeSet hp)]
    exact hsame
  lockCts := by
    rw [State.nextCts, State.acquired_effect]
    exact h.lockCts
  locking := fun trx htrx p hp => h.lockState_effect ho hrec htrx hp
  conforms := by
    intro k hk hnot
    have hconf := h.conforms k hk hnot
    rw [h.plan_land ho, Client.ops_land]
    by_cases hm : wr.verb.mutates k = true
    · rw [Client.ops_eq_cons ho hm, List.cons_append] at hconf
      exact hconf.effect
    · have hm' : wr.verb.mutates k = false := by simpa using hm
      have hne : ∀ v, wr.verb ≠ .writeHead k v := fun v hv => by simp [hv, Verb.mutates] at hm'
      rw [Client.ops_complete ho hm', State.current_effect_of_ne hne, State.mine,
        State.holder_effect_of_not_mutates hm']
      exact hconf
  checked := fun cart hph b hb => h.checked_land ho hph hb
  count := (Fifo.completed_add_countP _ ho.getElem _).trans h.count
  quiet := h.quiet
  ended := by
    intro q hq
    rw [h.waits_land ho] at hq
    exact (h.ended q hq).erase ho
  lands := by
    intro w hw hl
    obtain ⟨howner, hq, haw⟩ := h.lands w (List.mem_of_mem_eraseIdx hw) hl
    refine ⟨howner, ?_, haw⟩
    rw [h.waits_land ho]
    exact hq
  reads := by
    intro p hp
    have hmono : ∀ {x : Version (Row p.1.table)}, Seen s p.1 x →
        Seen (s.effect c i wr answer) p.1 x := fun hx => hx.mono fun u => State.mem_versions_effect
    rcases h.reads p hp with ⟨w, hw, hverb⟩ | hseen
    · by_cases hv : wr.verb = .readHead p.1 p.2
      · exact .inr (hmono (h.seen_land ho hrec hp (.inl hv)))
      · left
        refine ⟨w, ?_, hverb⟩
        rw [Client.complete]
        obtain ⟨j, hj⟩ := List.getElem?_of_mem hw
        refine List.mem_eraseIdx_iff_getElem?.2 ⟨j, ?_, hj⟩
        rintro rfl
        rw [ho.getElem] at hj
        cases hj
        exact hv hverb
    · exact .inr (hmono (h.seen_land ho hrec hp (.inr hseen)))

end

end RdmaSnapshot
