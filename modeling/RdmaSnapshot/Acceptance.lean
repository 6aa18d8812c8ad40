import RdmaSnapshot.VectorStep

/-!
# What a transaction accepts

A transaction acquires its commit timestamp only if every version it has read passed
`isRecordAccessible`. A NewOrder checks the versions of items and stocks, and a Delivery those of
the order rows, before they fetch older versions of the other records; these READs land elsewhere.
So when a transaction locks, all versions in its buffers are accepted ones.
-/

namespace RdmaSnapshot

open DBExecutor

variable {cfg : Config} {s s' : State} {c c' : ClientID} {cl cl' : Client} {o : Owner}
  {l : CpuLabel} {i : ℕ} {wr : WorkRequest} {answer : IndexAnswer} {vec : ClientID → UInt32}
  {trx : Trx} {posts : List Post}

def NewOrderTransaction.readWords (cl : Client) (cart : NewOrderCart) : List Timestamp :=
  [(warehouseV cl).writeTimestamp, (districtV cl).writeTimestamp, (customerV cl).writeTimestamp] ++
    (List.range cart.items.length).flatMap fun olNumber =>
      [(itemV cl olNumber).writeTimestamp, (stockV cl olNumber).writeTimestamp]

def PaymentTransaction.readWords (cl : Client) : List Timestamp :=
  [(warehouseV cl).writeTimestamp, (districtV cl).writeTimestamp, (customerV cl).writeTimestamp]

def DeliveryTransaction.readWords (cfg : Config) (cl : Client) (cart : DeliveryCart) :
    List Timestamp :=
  [(orderV cl).writeTimestamp, (newOrderV cl).writeTimestamp, (customerV cl).writeTimestamp] ++
    (List.range (oldest cfg cl cart).numOfOrderlines.toNat).map fun olNumber =>
      (orderLineV cl olNumber).writeTimestamp

def Client.readWords (cfg : Config) (cl : Client) : List Timestamp :=
  match cl.phase with
  | .idle => []
  | .newOrder cart _ => NewOrderTransaction.readWords cl cart
  | .payment _ _ => PaymentTransaction.readWords cl
  | .delivery cart _ _ => DeliveryTransaction.readWords cfg cl cart

/-- The Delivery iteration for which the check of the order rows is over. -/
def Phase.checkedDelivery : Phase → Option DeliveryCart
  | .delivery cart _ (.olderVersion _) | .delivery cart _ (.locks _ _) => some cart
  | _ => none

/-- What the checks of client `c` have established. -/
structure Vetted (cfg : Config) (c : ClientID) (cl : Client) : Prop where
  lines : ∀ cart, cl.phase = .newOrder cart (.olderVersions false) →
    ∀ olNumber < cart.items.length,
      cl.isRecordAccessible c (NewOrderTransaction.itemV cl olNumber).writeTimestamp = true ∧
        cl.isRecordAccessible c (NewOrderTransaction.stockV cl olNumber).writeTimestamp = true
  orderRows : ∀ cart, cl.phase.checkedDelivery = some cart →
    DeliveryTransaction.orderRowsConsistent cfg c cl cart = true
  accepted : cl.phase.status = .locking →
    ∀ w ∈ cl.readWords cfg, cl.isRecordAccessible c w = true

def Phase.isVetted : Phase → Bool
  | .newOrder _ (.olderVersions false) | .newOrder _ (.locks _) | .payment _ (.locks _ _)
  | .delivery _ _ (.olderVersion _) | .delivery _ _ (.locks _ _) => true
  | _ => false

theorem Phase.isVetted_of_checkedDelivery {ph : Phase} {cart : DeliveryCart}
    (h : ph.checkedDelivery = some cart) : ph.isVetted = true := by
  cases ph with
  | delivery cart' dID pc => cases pc <;> first | rfl | cases h
  | _ => cases h

theorem Phase.isVetted_of_locking {ph : Phase} (h : ph.status = .locking) :
    ph.isVetted = true := by
  cases ph with
  | idle => cases h
  | newOrder _ pc | payment _ pc | delivery _ _ pc => cases pc <;> first | rfl | cases h

theorem Vetted.of_phase (h : cl.phase.isVetted = false) : Vetted cfg c cl := by
  refine ⟨fun cart hph => ?_, fun cart hrows => ?_, fun hst => ?_⟩
  · simp [hph, Phase.isVetted] at h
  · simp [Phase.isVetted_of_checkedDelivery hrows] at h
  · simp [Phase.isVetted_of_locking hst] at h

/-! ## Steps of the client's CPU -/

namespace NewOrderTransaction

variable {cart : NewOrderCart}

theorem accessible_of_checkVersions (h : (checkVersions cfg c cl cart).2 = false) :
    ∀ olNumber < cart.items.length,
      cl.isRecordAccessible c (itemV cl olNumber).writeTimestamp = true ∧
        cl.isRecordAccessible c (stockV cl olNumber).writeTimestamp = true := by
  intro olNumber hlt
  unfold checkVersions at h
  split at h
  · cases h
  · split at h
    · cases h
    · split at h
      · cases h
      · have hmem : (cart.items[olNumber], olNumber) ∈ cart.items.zipIdx := by
          simp [List.mem_zipIdx_iff_getElem?, List.getElem?_eq_getElem hlt]
        have hline := List.any_eq_false.1 h _ hmem
        simpa using hline

end NewOrderTransaction

theorem DeliveryTransaction.accessible_of_orderRowsConsistent {cart : DeliveryCart}
    (h : orderRowsConsistent cfg c cl cart = true)
    (hcust : cl.isRecordAccessible c (customerV cl).writeTimestamp = true) :
    ∀ w ∈ readWords cfg cl cart, cl.isRecordAccessible c w = true := by
  simp only [orderRowsConsistent, Bool.and_eq_true, List.all_eq_true] at h
  obtain ⟨⟨⟨horder, -⟩, hnew, -⟩, hlines⟩ := h
  intro w hmem
  simp only [readWords, List.mem_append, List.mem_cons, List.not_mem_nil, or_false,
    List.mem_map] at hmem
  rcases hmem with (rfl | rfl | rfl) | ⟨b, hb, rfl⟩
  · exact horder
  · exact hnew
  · exact hcust
  · exact (hlines b hb).1

theorem Locks.vetted {p : Phase} (h : Locks cfg c cl trx p posts) (hv : Vetted cfg c cl) :
    Vetted cfg c (({ cl.advanceEpoch with phase := p } : Client).post trx posts) := by
  cases h with
  | @newOrder cart hph hw hd hc =>
    refine ⟨nofun, nofun, fun _ w hmem => ?_⟩
    change w ∈ NewOrderTransaction.readWords cl cart at hmem
    change cl.isRecordAccessible c w = true
    simp only [NewOrderTransaction.readWords, List.mem_append, List.mem_cons, List.not_mem_nil,
      or_false, List.mem_flatMap, List.mem_range] at hmem
    rcases hmem with (rfl | rfl | rfl) | ⟨b, hb, rfl | rfl⟩
    · exact hw
    · exact hd
    · exact hc
    · exact (hv.lines cart hph b hb).1
    · exact (hv.lines cart hph b hb).2
  | payment hph hpc hw hd hc =>
    refine ⟨nofun, nofun, fun _ w hmem => ?_⟩
    change w ∈ PaymentTransaction.readWords cl at hmem
    change cl.isRecordAccessible c w = true
    simp only [PaymentTransaction.readWords, List.mem_cons, List.not_mem_nil, or_false] at hmem
    rcases hmem with rfl | rfl | rfl
    · exact hw
    · exact hd
    · exact hc
  | @delivery cart dID pc cID hph hpc hc =>
    have hrows : DeliveryTransaction.orderRowsConsistent cfg c cl cart = true := by
      rcases hpc with ⟨-, hrows⟩ | rfl
      · exact hrows
      · exact hv.orderRows cart (by rw [hph]; rfl)
    refine ⟨nofun, fun cart' hcart => ?_, fun _ w hmem => ?_⟩
    · obtain rfl : cart = cart' := Option.some.inj hcart
      exact hrows
    · exact DeliveryTransaction.accessible_of_orderRowsConsistent hrows hc w hmem

theorem Reads.vetted {p : Phase} (h : Reads cfg c cl trx p posts) :
    Vetted cfg c (({ cl with phase := p } : Client).post trx posts) := by
  cases h with
  | newOrder =>
    refine ⟨fun cart hph => ?_, by simp [Client.post, Phase.checkedDelivery],
      by simp [Client.post, Phase.status]⟩
    simp only [Client.post, Phase.newOrder.injEq, NewOrderPC.olderVersions.injEq] at hph
    obtain ⟨rfl, hflag⟩ := hph
    exact NewOrderTransaction.accessible_of_checkVersions hflag
  | @olderVersion cart _ _ _ _ _ _ hrows =>
    refine ⟨by simp [Client.post], fun cart' hcart => ?_, by simp [Client.post, Phase.status]⟩
    obtain rfl : cart = cart' := Option.some.inj hcart
    exact hrows
  | lookup | payment | orderRows | delivery => exact .of_phase rfl

theorem Stretch.vetted (h : Stretch cfg vec c cl trx cl' l) (hv : Vetted cfg c cl) :
    Vetted cfg c cl' := by
  cases h with
  | call _ _ hp => rcases hp with rfl | rfl <;> exact .of_phase rfl
  | start _ h =>
    generalize cl.phase = ph at h
    cases h <;> exact .of_phase rfl
  | read h => exact h.vetted
  | snapshot _ _ _ h =>
    generalize cl.phase = ph at h
    cases h <;> exact .of_phase rfl
  | lock h => exact h.vetted hv
  | giveUp h => cases h <;> exact .of_phase rfl
  | stop _ _ h | abort _ _ h | finish h => cases h <;> exact .of_phase rfl
  | log _ h => cases h <;> exact .of_phase rfl
  | commit _ _ h => cases h <;> exact .of_phase rfl
  | register h | publish h => cases h <;> exact .of_phase rfl
  | insert | finishNewOrder => exact .of_phase rfl

theorem ClientStep.vetted (h : ClientStep cfg vec c cl cl' o l) (hv : Vetted cfg c cl) :
    Vetted cfg c cl' := by
  obtain ⟨n, m, trx, -, hstretch⟩ := h.stretch
  -- only the phase, the buffers, the snapshot and the answer of the index matter
  exact hstretch.vetted ⟨hv.lines, hv.orderRows, hv.accepted⟩

/-! ## Effects -/

theorem Client.isRecordAccessible_congr (h : cl'.localTimestampVector = cl.localTimestampVector) :
    cl'.isRecordAccessible c = cl.isRecordAccessible c := by
  funext w
  simp only [isRecordAccessible, h]

theorem Phase.of_isVetted {ph : Phase} (h : ph.isVetted = true) :
    ph.readsHeads = false ∧ ph.isNextOID = false ∧ ph.readsVector = false ∧
      ph.asksIndex = false := by
  cases ph with
  | idle => cases h
  | newOrder cart pc =>
    cases pc <;> first | exact ⟨rfl, rfl, rfl, rfl⟩ | cases h
  | payment cart pc => cases pc <;> first | exact ⟨rfl, rfl, rfl, rfl⟩ | cases h
  | delivery cart dID pc => cases pc <;> first | exact ⟨rfl, rfl, rfl, rfl⟩ | cases h

def Table.hasFetch : Table → Bool
  | .warehouse | .district | .customer => true
  | _ => false

theorem Key.hasFetch_of_versioned {k : Key} (h : k.versioned = true) (hk : k.table ≠ .stock) :
    k.table.hasFetch = true := by
  cases k <;> first | rfl | exact absurd rfl hk | cases h

theorem Client.readWords_congr (hphase : cl'.phase = cl.phase)
    (hhead : cl'.buffers.head = cl.buffers.head)
    (hindex : cl'.oldestUndeliveredOrderResp = cl.oldestUndeliveredOrderResp) :
    cl'.readWords cfg = cl.readWords cfg := by
  rw [buffers, buffers, hphase] at hhead
  rw [readWords, readWords, hphase]
  cases hph : cl.phase with
  | idle => rfl
  | newOrder cart pc =>
    have hhead' : (cl'.localMemory .newOrder).head = (cl.localMemory .newOrder).head := by
      simpa [hph, Phase.cls] using hhead
    simp only [NewOrderTransaction.readWords, NewOrderTransaction.warehouseV,
      NewOrderTransaction.districtV, NewOrderTransaction.customerV, NewOrderTransaction.itemV,
      NewOrderTransaction.stockV, NewOrderTransaction.buffers, hhead']
  | payment cart pc =>
    have hhead' : (cl'.localMemory .payment).head = (cl.localMemory .payment).head := by
      simpa [hph, Phase.cls] using hhead
    simp only [PaymentTransaction.readWords, PaymentTransaction.warehouseV,
      PaymentTransaction.districtV, PaymentTransaction.customerV, PaymentTransaction.buffers,
      hhead']
  | delivery cart dID pc =>
    have hhead' : (cl'.localMemory .delivery).head = (cl.localMemory .delivery).head := by
      simpa [hph, Phase.cls] using hhead
    simp only [DeliveryTransaction.readWords, DeliveryTransaction.orderV,
      DeliveryTransaction.newOrderV, DeliveryTransaction.customerV,
      DeliveryTransaction.orderLineV, DeliveryTransaction.oldest, DeliveryTransaction.buffers,
      hhead', hindex]

section

variable (h : ClientOK cfg s c cl) (ho : cl.Oldest cfg i wr)

include h ho

/-- Versions that were checked are not overwritten by the versions that are fetched. -/
theorem ClientOK.head_land_of_isVetted (hvet : cl.phase.isVetted = true) {t : Table} {b : ℕ}
    (ht : cl.phase.fetches = true → t.hasFetch = false) :
    ((s.land wr answer cl).complete i wr).buffers.head t b = cl.buffers.head t b := by
  obtain ⟨hreads, hnext, -, -⟩ := Phase.of_isVetted hvet
  rw [h.buffers_land ho]
  refine h.head_land_of_awaits ho (by simp [hreads]) (by simp [hreads]) (fun hf k hmem hstock => ?_)
    (by simp [hnext])
  -- a fetch fills the copy of a record of another table
  left
  rintro rfl
  have hhas := Key.hasFetch_of_versioned (Phase.versioned_of_mem_readSet hmem) hstock
  simp [ht hf] at hhas

theorem ClientOK.land_of_isVetted (hvet : cl.phase.isVetted = true) :
    (s.land wr answer cl).localTimestampVector = cl.localTimestampVector ∧
      (s.land wr answer cl).oldestUndeliveredOrderResp = cl.oldestUndeliveredOrderResp := by
  obtain ⟨-, -, hvector, hindex⟩ := Phase.of_isVetted hvet
  by_cases hl : wr.verb.lands = true
  · have haw := h.awaits_of_lands ho hl
    obtain ⟨o, verb, sig⟩ := wr
    cases verb with
    | readVector | readVectorEntry => simp [Client.awaits, hvector] at haw
    | send n req =>
      cases req with
      | getOldestUndeliveredOrder =>
        simp [Client.awaits, IndexRequest.registers, hindex] at haw
      | _ => exact ⟨rfl, rfl⟩
    | _ => exact ⟨rfl, rfl⟩
  · rw [State.land_of_not_lands (by simpa using hl)]
    exact ⟨rfl, rfl⟩

theorem Vetted.effect (hv : Vetted cfg c cl) :
    Vetted cfg c ((s.land wr answer cl).complete i wr) := by
  have hphase : ((s.land wr answer cl).complete i wr).phase = cl.phase := rfl
  by_cases hvet : cl.phase.isVetted = true
  swap
  · exact .of_phase (by rw [hphase]; simpa using hvet)
  obtain ⟨hvector, hindex⟩ : (s.land wr answer cl).localTimestampVector =
      cl.localTimestampVector ∧
      (s.land wr answer cl).oldestUndeliveredOrderResp = cl.oldestUndeliveredOrderResp :=
    h.land_of_isVetted ho hvet
  have hhead : ∀ (t : Table) (b : ℕ), (cl.phase.fetches = true → t.hasFetch = false) →
      ((s.land wr answer cl).complete i wr).buffers.head t b = cl.buffers.head t b :=
    fun t b => h.head_land_of_isVetted ho hvet
  have hacc : ((s.land wr answer cl).complete i wr).isRecordAccessible c =
      cl.isRecordAccessible c := Client.isRecordAccessible_congr hvector
  refine ⟨fun cart hph => ?_, fun cart hrows => ?_, fun hst w hmem => ?_⟩
  · rw [hphase] at hph
    intro b hb
    simp only [Client.buffers, hphase, hph, Phase.cls] at hhead
    have hitem := hhead .item b fun _ => rfl
    have hstock := hhead .stock b fun _ => rfl
    have hline := hv.lines cart hph b hb
    rw [hacc]
    simp only [NewOrderTransaction.itemV, NewOrderTransaction.stockV,
      NewOrderTransaction.buffers] at hline ⊢
    rw [hitem, hstock]
    exact hline
  · rw [hphase] at hrows
    have hcls : cl.phase.cls = .delivery := by
      revert hrows
      unfold Phase.checkedDelivery
      split <;> simp [Phase.cls, *]
    simp only [Client.buffers, hphase, hcls] at hhead
    have horder := hhead .order 0 fun _ => rfl
    have hnew := hhead .newOrder 0 fun _ => rfl
    have hlines := fun b => hhead .orderLine b fun _ => rfl
    have hrow := hv.orderRows cart hrows
    have hindex' : ((s.land wr answer cl).complete i wr).oldestUndeliveredOrderResp =
        cl.oldestUndeliveredOrderResp := hindex
    simp only [DeliveryTransaction.orderRowsConsistent, DeliveryTransaction.orderV,
      DeliveryTransaction.newOrderV, DeliveryTransaction.orderLineV, DeliveryTransaction.oldest,
      DeliveryTransaction.buffers] at hrow ⊢
    rw [hacc, hindex', horder, hnew]
    simp only [hlines]
    exact hrow
  · rw [hphase] at hst
    have hfetches : cl.phase.fetches = false := by
      revert hst
      unfold Phase.fetches
      split <;> simp [Phase.status, *]
    rw [Client.readWords_congr hphase
      (funext fun t => funext fun b => hhead t b (by simp [hfetches])) hindex] at hmem
    rw [hacc]
    exact hv.accepted hst w hmem

end

/-! ## Runs -/

theorem Init.vetted (h : Init cfg s) (c : ClientID) : Vetted cfg c (s.clients c) :=
  .of_phase (by rw [(h.clients c).phase]; rfl)

/-- **What a transaction that locks has read is accessible to it**, in every reachable state in
which no commit timestamp has wrapped. -/
theorem vetted_of_reachable (h : Reachable cfg s) (hwrap : NoWrap cfg s) (c : ClientID) :
    Vetted cfg c (s.clients c) := by
  induction h generalizing c with
  | start hs => exact hs.vetted c
  | next hs _ ha ih =>
    have hwrap' := hwrap.of_step ha
    rcases step_client_cases ha c with ⟨vec, cl, o, l, -, hstep, rfl⟩ | ⟨i, wr, answer, ho, rfl⟩ |
      helse
    · rw [State.setClient_clients_self]
      exact hstep.vetted (ih hwrap' c)
    · rw [State.effect_clients_self]
      exact Vetted.effect ((inv_of_reachable hs hwrap').clients c) ho (ih hwrap' c)
    · rw [helse.client]
      exact ih hwrap' c

theorem Client.mem_readWords_of_writeSet {p : Key × ℕ} (h : p ∈ cl.phase.writeSet cfg) :
    (cl.copy p.1 p.2).writeTimestamp ∈ cl.readWords cfg := by
  rw [copy, buffers, readWords]
  cases hph : cl.phase with
  | idle => simp [hph, Phase.writeSet] at h
  | newOrder cart pc =>
    rw [hph] at h
    cases pc with
    | locks cts =>
      rcases List.mem_append.1 h with h | h
      · split at h
        · cases h
        · rw [List.mem_singleton.1 h]
          simp [NewOrderTransaction.readWords, NewOrderTransaction.districtV,
            NewOrderTransaction.buffers, Phase.cls]
      · obtain ⟨item, hitem, hk⟩ := NewOrderTransaction.mem_stockSlots.1 h
        obtain ⟨k, b⟩ := p
        obtain rfl : k = _ := hk
        obtain ⟨hb, -⟩ := List.getElem?_eq_some_iff.1 hitem
        refine List.mem_append_right _ (List.mem_flatMap.2 ⟨b, List.mem_range.2 hb, ?_⟩)
        exact List.mem_cons_of_mem _ (List.mem_singleton.2 rfl)
    | _ => simp [Phase.writeSet] at h
  | payment cart pc =>
    rw [hph] at h
    cases pc with
    | locks cID cts =>
      simp only [Phase.writeSet, List.mem_cons, List.not_mem_nil, or_false] at h
      rcases h with rfl | rfl | rfl <;>
        simp [PaymentTransaction.readWords, PaymentTransaction.warehouseV,
          PaymentTransaction.districtV, PaymentTransaction.customerV,
          PaymentTransaction.buffers, Phase.cls]
    | _ => simp [Phase.writeSet] at h
  | delivery cart dID pc =>
    rw [hph] at h
    cases pc with
    | locks cID cts =>
      rw [List.mem_singleton.1 h]
      simp [DeliveryTransaction.readWords, DeliveryTransaction.customerV,
        DeliveryTransaction.buffers, Phase.cls]
    | _ => simp [Phase.writeSet] at h

end RdmaSnapshot
