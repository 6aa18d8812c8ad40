import RdmaSnapshot.Index
import RdmaSnapshot.Populate

/-!
# Index requests executed one at a time

What the lookups answer after any sequence of registrations, and when the queue of undelivered
orders keeps track of the deliveries. `registerDelivery` pops the top of the queue whatever order
was delivered, so the queue is right exactly as long as the delivered order is on top.
-/

namespace RdmaSnapshot

open TPCCDB

variable {cfg : Config} {d : DistrictID cfg} {calls : List (IndexCall cfg)}
  {req : RegisterOrderRequest cfg} {oID : UInt32}

/-! ## The queue of undelivered orders -/

def QueueTracks (d : DistrictID cfg) (calls : List (IndexCall cfg)) : Prop :=
  ((IndexState.after calls).oldestNewOrderInDistrict_Index d.ind).Perm
    ((undelivered d calls).map (·.newOrderAddress))

theorem QueueTracks.register (h : QueueTracks d calls) :
    QueueTracks d (.registerOrder req :: calls) := by
  simp only [QueueTracks, IndexState.after, IndexCall.apply, register_queue, undelivered]
  by_cases hd : req.district = d
  · subst hd
    rw [if_pos rfl, Function.update_self, List.map_cons]
    exact (List.perm_orderedInsert _ _ _).trans (h.cons _)
  · rw [if_neg hd, Function.update_of_ne fun hind => hd (DistrictID.eq_of_ind hind).symm]
    exact h

theorem queue_registerDelivery (d : DistrictID cfg) (oID : UInt32)
    (calls : List (IndexCall cfg)) :
    (IndexState.after (.registerDelivery d oID :: calls)).oldestNewOrderInDistrict_Index d.ind =
      ((IndexState.after calls).oldestNewOrderInDistrict_Index d.ind).tail :=
  Function.update_self ..

theorem QueueTracks.registerDelivery_of_ne {d' : DistrictID cfg} (h : QueueTracks d calls)
    (hd : d' ≠ d) : QueueTracks d (.registerDelivery d' oID :: calls) := by
  simp only [QueueTracks, IndexState.after, IndexCall.apply,
    handleRegisterDeliveryIndexRequest, NewOrderTable.registerDelivery,
    IndexState.popNewOrder, undelivered, if_neg hd]
  rw [Function.update_of_ne fun hind => hd (DistrictID.eq_of_ind hind).symm]
  exact h

theorem undelivered_sublist (d : DistrictID cfg) (calls : List (IndexCall cfg)) :
    (undelivered d calls).Sublist ((registrations calls).filter (·.district = d)) := by
  induction calls with
  | nil => exact .slnil
  | cons call calls ih =>
    cases call with
    | registerOrder r =>
      by_cases hd : r.district = d
      · simpa [undelivered, registrations, IndexCall.registration, hd] using ih
      · simpa [undelivered, registrations, IndexCall.registration, hd] using ih
    | largestOrder | oldestUndeliveredOrder => exact ih
    | registerDelivery d' oID =>
      simp only [undelivered]
      split
      · exact List.filter_sublist.trans ih
      · exact ih

theorem undelivered_pairwise (h : DistinctOrders (registrations calls)) (d : DistrictID cfg) :
    (undelivered d calls).Pairwise fun a b => a.oID ≠ b.oID := by
  refine List.Pairwise.sublist (undelivered_sublist d calls) ?_
  refine (List.Pairwise.filter _ h).imp_of_mem fun {a b} ha hb hab => ?_
  have hda := of_decide_eq_true (List.mem_filter.1 ha).2
  have hdb := of_decide_eq_true (List.mem_filter.1 hb).2
  exact hab (hda.trans hdb.symm)

theorem QueueTracks.top (h : QueueTracks d calls) (hne : undelivered d calls ≠ []) :
    ∃ req ∈ undelivered d calls, ∃ queue,
      (IndexState.after calls).oldestNewOrderInDistrict_Index d.ind =
        req.newOrderAddress :: queue ∧ ∀ r ∈ undelivered d calls, req.oID ≤ r.oID := by
  have hsorted := queueSorted_after calls d
  unfold QueueTracks at h
  cases hqueue : (IndexState.after calls).oldestNewOrderInDistrict_Index d.ind with
  | nil =>
    rw [hqueue] at h
    exact absurd (by simpa using h.symm.eq_nil) hne
  | cons addr queue =>
    rw [hqueue] at h hsorted
    obtain ⟨req, hreq, rfl⟩ := List.mem_map.1 (h.subset List.mem_cons_self)
    refine ⟨req, hreq, queue, rfl, fun r hr => ?_⟩
    rcases List.mem_cons.1 (h.symm.subset (List.mem_map_of_mem hr)) with heq | hr'
    · have hid : r.oID = req.oID := congrArg NewOrderAddressIdentifier.oID heq
      rw [hid]
      exact UInt32.le_refl _
    · exact (List.pairwise_cons.1 hsorted).1 _ hr'

theorem QueueTracks.pairwise (h : QueueTracks d calls)
    (hdistinct : DistinctOrders (registrations calls)) :
    ((IndexState.after calls).oldestNewOrderInDistrict_Index d.ind).Pairwise
      fun a b => a.oID ≠ b.oID := by
  refine h.symm.pairwise ?_ fun {a b} hab => hab.symm
  exact List.pairwise_map.2 (undelivered_pairwise hdistinct d)

/-- **A delivery is tracked exactly if the delivered order is the smallest one undelivered.** -/
theorem QueueTracks.registerDelivery_iff (h : QueueTracks d calls)
    (hdistinct : DistinctOrders (registrations calls))
    (hreg : ∃ req ∈ undelivered d calls, req.oID = oID) :
    QueueTracks d (.registerDelivery d oID :: calls) ↔
      ∀ req ∈ undelivered d calls, oID ≤ req.oID := by
  obtain ⟨delivered, hdelivered, rfl⟩ := hreg
  obtain ⟨req, hreq, queue, hqueue, hmin⟩ := h.top (List.ne_nil_of_mem hdelivered)
  have hpair := h.pairwise hdistinct
  rw [hqueue, List.pairwise_cons] at hpair
  have hperm : (req.newOrderAddress :: queue).Perm
      ((undelivered d calls).map (·.newOrderAddress)) := hqueue ▸ h
  have hiff : QueueTracks d (.registerDelivery d delivered.oID :: calls) ↔
      queue.Perm (((undelivered d calls).filter (·.oID ≠ delivered.oID)).map
        (·.newOrderAddress)) := by
    rw [QueueTracks, queue_registerDelivery, hqueue]
    simp [undelivered]
  rw [hiff]
  constructor
  · intro hafter r hr
    -- the order on top is gone from the queue, so it is the one that was delivered
    have htop : req.oID = delivered.oID := by
      by_contra hne
      have hmem : req ∈ (undelivered d calls).filter (·.oID ≠ delivered.oID) :=
        List.mem_filter.2 ⟨hreq, by simpa using hne⟩
      exact hpair.1 _ (hafter.symm.subset (List.mem_map_of_mem hmem)) rfl
    rw [← htop]
    exact hmin r hr
  · intro hsmallest
    have htop : req.oID = delivered.oID := UInt32.le_antisymm (hmin _ hdelivered) (hsmallest _ hreq)
    -- dropping the delivered id on both sides leaves the rest of the queue
    have hfilter := hperm.filter fun addr => addr.oID ≠ delivered.oID
    rw [List.filter_cons_of_neg (by simp [RegisterOrderRequest.newOrderAddress, htop]),
      List.filter_map, List.filter_eq_self.2 fun addr haddr => ?_] at hfilter
    · exact hfilter
    · have hne := hpair.1 addr haddr
      rw [← htop]
      exact decide_eq_true hne.symm

/-! ## Coherence -/

theorem queueTracks_of_no_delivery (h : ∀ oID, .registerDelivery d oID ∉ calls) :
    QueueTracks d calls := by
  induction calls with
  | nil => exact .nil
  | cons call calls ih =>
    have ih := ih fun oID hmem => h oID (List.mem_cons_of_mem _ hmem)
    cases call with
    | registerOrder req => exact ih.register
    | largestOrder | oldestUndeliveredOrder => exact ih
    | registerDelivery d' oID =>
      refine ih.registerDelivery_of_ne ?_
      rintro rfl
      exact h oID List.mem_cons_self

theorem handleLargestOrderIndexRequest_of_ne {ix : IndexState} (h : req.district ≠ d)
    (cID : UInt32) (res : LargestOrderForCustomerIndexRespMsg) :
    handleLargestOrderIndexRequest (handleRegisterOrderIndexRequest ix req) d cID
      res = handleLargestOrderIndexRequest ix d cID res := by
  have hind : d.ind ≠ req.district.ind := fun hind => h (DistrictID.eq_of_ind hind).symm
  have hlargest : (handleRegisterOrderIndexRequest ix req).largestOrderForCustomer_Index
      d.ind cID = ix.largestOrderForCustomer_Index d.ind cID := by
    change (OrderTable.registerOrderInIndex ix req).largestOrderForCustomer_Index d.ind cID = _
    rcases registerOrderInIndex_largest ix req with ⟨-, heq⟩ | ⟨-, -, -, heq⟩ <;> rw [heq]
    exact HashIndex.putAt_of_ne _ fun heq => absurd heq hind
  simp only [handleLargestOrderIndexRequest, OrderTable.getBiggestOrderIDForCustomer,
    OrderTable.getOrderMemoryAddress, OrderLineTable.getOrderLineMemoryAddress, HashIndex.get,
    hlargest, register_order, register_lines,
    HashIndex.putAt_of_ne _ fun heq => absurd heq hind]

theorem handleOldestUndeliveredOrderIndexRequest_of_ne {ix : IndexState} (h : req.district ≠ d)
    (res : OldestUndeliveredOrderIndexResMsg) :
    handleOldestUndeliveredOrderIndexRequest
      (handleRegisterOrderIndexRequest ix req) d res =
        handleOldestUndeliveredOrderIndexRequest ix d res := by
  have hind : d.ind ≠ req.district.ind := fun hind => h (DistrictID.eq_of_ind hind).symm
  simp only [handleOldestUndeliveredOrderIndexRequest, NewOrderTable.getOldestNewOrder,
    OrderTable.getOrderMemoryAddress, OrderLineTable.getOrderLineMemoryAddress, HashIndex.get,
    register_queue, Function.update_of_ne hind, register_order,
    register_lines, HashIndex.putAt_of_ne _ fun heq => absurd heq hind]

/-- **The index is coherent.** After any sequence of calls in which the orders of a district have
distinct ids, a customer's largest order is found exactly if the customer has an order, and it is
the largest one with the addresses it was registered with; the oldest order of a district without
deliveries is found exactly if the district has an order, and it is the smallest one; and a
registration changes no answer about another district. -/
theorem index_coherent (calls : List (IndexCall cfg))
    (hdistinct : DistinctOrders (registrations calls)) :
    (∀ d cID res,
      ((handleLargestOrderIndexRequest (.after calls) d cID res).isSuccessful = false ↔
        ∀ req ∈ registrations calls, ¬ (req.district = d ∧ req.cID = cID)) ∧
      ((handleLargestOrderIndexRequest (.after calls) d cID res).isSuccessful = true →
        ∃ req ∈ registrations calls, (req.district = d ∧ req.cID = cID) ∧
          (∀ r ∈ registrations calls, r.district = d ∧ r.cID = cID → r.oID ≤ req.oID) ∧
          handleLargestOrderIndexRequest (.after calls) d cID res =
            req.largestOrderResponse)) ∧
    (∀ d, (∀ oID, .registerDelivery d oID ∉ calls) → ∀ res,
      ((handleOldestUndeliveredOrderIndexRequest (.after calls) d
          res).existUndeliveredOrder = false ↔
        ∀ req ∈ registrations calls, req.district ≠ d) ∧
      ((handleOldestUndeliveredOrderIndexRequest (.after calls) d
          res).existUndeliveredOrder = true →
        ∃ req ∈ registrations calls, req.district = d ∧
          (∀ r ∈ registrations calls, r.district = d → req.oID ≤ r.oID) ∧
          handleOldestUndeliveredOrderIndexRequest (.after calls) d res =
            req.oldestUndeliveredOrderResponse)) ∧
    (∀ (req : RegisterOrderRequest cfg) d, req.district ≠ d →
      (∀ cID res,
        handleLargestOrderIndexRequest (.after (.registerOrder req :: calls)) d cID res =
          handleLargestOrderIndexRequest (.after calls) d cID res) ∧
      ∀ res,
        handleOldestUndeliveredOrderIndexRequest (.after (.registerOrder req :: calls)) d
          res = handleOldestUndeliveredOrderIndexRequest (.after calls) d res) := by
  have hreg := registered_after hdistinct
  refine ⟨fun d cID res => ?_, fun d hno res => ?_, fun req d hne => ?_⟩
  · rcases hreg.largestOrder d cID res with ⟨hnone, hfail⟩ | ⟨req, hreq, hd, hmax, hres⟩
    · simpa [hfail] using hnone
    · have hsucc : (handleLargestOrderIndexRequest (.after calls) d cID res).isSuccessful =
          true := by
        rw [hres]
        rfl
      refine ⟨⟨fun hfail => ?_, fun hnone => absurd hd (hnone req hreq)⟩,
        fun _ => ⟨req, hreq, hd, hmax, hres⟩⟩
      simp [hsucc] at hfail
  · have hmem : ∀ r, r ∈ undelivered d calls ↔ r ∈ registrations calls ∧ r.district = d := by
      simp [undelivered_eq_filter hno]
    rcases hreg.oldestUndeliveredOrder (fun r hr => (hmem r).1 hr)
      (queueTracks_of_no_delivery hno) (queueSorted_after calls d) res with
      ⟨hnil, hnone⟩ | ⟨req, hreq, hmin, hres⟩
    · refine ⟨⟨fun _ r hr hd => ?_, fun _ => hnone⟩, fun hsome => ?_⟩
      · have hr' := (hmem r).2 ⟨hr, hd⟩
        simp [hnil] at hr'
      · simp [hnone] at hsome
    · have hsome : (handleOldestUndeliveredOrderIndexRequest (.after calls) d
          res).existUndeliveredOrder = true := by
        rw [hres]
        rfl
      obtain ⟨hreqs, hd⟩ := (hmem req).1 hreq
      refine ⟨⟨fun hnone => ?_, fun hnone => absurd hd (hnone req hreqs)⟩,
        fun _ => ⟨req, hreqs, hd, fun r hr hrd => hmin r ((hmem r).2 ⟨hr, hrd⟩), hres⟩⟩
      simp [hsome] at hnone
  · exact ⟨handleLargestOrderIndexRequest_of_ne hne,
      handleOldestUndeliveredOrderIndexRequest_of_ne hne⟩

def firstDistrict (dID : UInt8) (h : dID.toNat < 10) : DistrictID (Config.shipped 2) :=
  ⟨0, dID, zero_lt_warehouses, h⟩

/-- Two orders of a district, registered by two clients, the later one first. -/
def outOfOrder : List (IndexCall (Config.shipped 2)) :=
  [.registerOrder ⟨1, firstDistrict 0 zero_lt_districts, 7, 3, 0, 0, 0, 5⟩,
    .oldestUndeliveredOrder (firstDistrict 0 zero_lt_districts),
    .registerOrder ⟨0, firstDistrict 0 zero_lt_districts, 7, 5, 1, 1, 5, 6⟩]

theorem index_coherent_outOfOrder :
    DistinctOrders (registrations outOfOrder) ∧
      ∃ req ∈ registrations outOfOrder,
        (req.district = firstDistrict 0 (by decide) ∧ req.cID = 7) ∧
        (∀ r ∈ registrations outOfOrder,
          r.district = firstDistrict 0 (by decide) ∧ r.cID = 7 → r.oID ≤ req.oID) ∧
        handleLargestOrderIndexRequest (.after outOfOrder) (firstDistrict 0 (by decide)) 7
          ⟨false, 0, 0, 0, 0, 0⟩ = req.largestOrderResponse := by
  have hdistinct : DistinctOrders (registrations outOfOrder) := by
    unfold DistinctOrders
    decide
  exact ⟨hdistinct, ((index_coherent outOfOrder hdistinct).1 _ 7 _).2 (by decide)⟩

/-! ## Deliveries -/

def ReturnedAsOldest (d : DistrictID cfg) (oID : UInt32) : List (IndexCall cfg) → Prop
  | [] => False
  | .oldestUndeliveredOrder d' :: calls =>
    (d' = d ∧ ∃ res, (handleOldestUndeliveredOrderIndexRequest (.after calls) d
        res).existUndeliveredOrder = true ∧
      (handleOldestUndeliveredOrderIndexRequest (.after calls) d res).oID = oID) ∨
      ReturnedAsOldest d oID calls
  | _ :: calls => ReturnedAsOldest d oID calls

/-- Only orders that were returned as the oldest ones are delivered, and each of them once. -/
def DeliversReturned : List (IndexCall cfg) → Prop
  | [] => True
  | .registerDelivery d oID :: calls =>
    (ReturnedAsOldest d oID calls ∧ .registerDelivery d oID ∉ calls) ∧ DeliversReturned calls
  | _ :: calls => DeliversReturned calls

/-- The queue holds exactly the undelivered orders, and the lookup finds the smallest of them. -/
structure TracksDeliveries (d : DistrictID cfg) (calls : List (IndexCall cfg)) : Prop where
  queue : QueueTracks d calls
  none : ∀ res, (handleOldestUndeliveredOrderIndexRequest (.after calls) d
    res).existUndeliveredOrder = false ↔ undelivered d calls = []
  smallest : ∀ res, (handleOldestUndeliveredOrderIndexRequest (.after calls) d
    res).existUndeliveredOrder = true → ∃ req ∈ undelivered d calls,
      (∀ r ∈ undelivered d calls, req.oID ≤ r.oID) ∧
      handleOldestUndeliveredOrderIndexRequest (.after calls) d res =
        req.oldestUndeliveredOrderResponse

theorem QueueTracks.tracksDeliveries (h : QueueTracks d calls)
    (hdistinct : DistinctOrders (registrations calls)) : TracksDeliveries d calls := by
  have hanswer := (registered_after hdistinct).oldestUndeliveredOrder
    (fun r hr => of_mem_undelivered hr) h (queueSorted_after calls d)
  refine ⟨h, fun res => ?_, fun res hsome => ?_⟩
  · rcases hanswer res with ⟨hnil, hnone⟩ | ⟨req, hreq, -, hres⟩
    · simp [hnil, hnone]
    · have hne : undelivered d calls ≠ [] := List.ne_nil_of_mem hreq
      simp [hres, hne, RegisterOrderRequest.oldestUndeliveredOrderResponse]
  · rcases hanswer res with ⟨-, hnone⟩ | hfound
    · simp [hnone] at hsome
    · exact hfound

theorem exists_undelivered (hreturned : ReturnedAsOldest d oID calls)
    (honce : .registerDelivery d oID ∉ calls)
    (htracks : ∀ past, past <:+ calls → TracksDeliveries d past) :
    ∃ req ∈ undelivered d calls, req.oID = oID := by
  induction calls with
  | nil => cases hreturned
  | cons call calls ih =>
    have honce' : .registerDelivery d oID ∉ calls := fun h => honce (List.mem_cons_of_mem _ h)
    have htracks' : ∀ past, past <:+ calls → TracksDeliveries d past :=
      fun past hpast => htracks past (hpast.trans (List.suffix_cons ..))
    cases call with
    | registerOrder r =>
      obtain ⟨req, hreq, hid⟩ := ih hreturned honce' htracks'
      refine ⟨req, ?_, hid⟩
      simp only [undelivered]
      split
      · exact List.mem_cons_of_mem _ hreq
      · exact hreq
    | largestOrder => exact ih hreturned honce' htracks'
    | oldestUndeliveredOrder d' =>
      rcases hreturned with ⟨rfl, res, hsome, hid⟩ | hreturned
      · obtain ⟨req, hreq, -, hres⟩ := (htracks' calls (List.suffix_refl _)).smallest res hsome
        rw [hres] at hid
        exact ⟨req, hreq, hid⟩
      · exact ih hreturned honce' htracks'
    | registerDelivery d' oID' =>
      obtain ⟨req, hreq, hid⟩ := ih hreturned honce' htracks'
      refine ⟨req, ?_, hid⟩
      simp only [undelivered]
      split
      · rename_i hd
        subst hd
        refine List.mem_filter.2 ⟨hreq, ?_⟩
        have hne : oID ≠ oID' := by
          rintro rfl
          exact honce List.mem_cons_self
        simpa [hid] using hne
      · exact hreq

theorem distinctOrders_tail {call : IndexCall cfg}
    (h : DistinctOrders (registrations (call :: calls))) :
    DistinctOrders (registrations calls) := by
  cases call with
  | registerOrder req => exact (List.pairwise_cons.1 h).2
  | _ => exact h

theorem deliversReturned_tail {call : IndexCall cfg} (h : DeliversReturned (call :: calls)) :
    DeliversReturned calls := by
  cases call with
  | registerDelivery d oID => exact h.2
  | _ => exact h

/-- One more call: the queue stays right unless the call delivers another order than the
smallest one. -/
theorem tracksDeliveries_cons_iff {call : IndexCall cfg}
    (hdistinct : DistinctOrders (registrations (call :: calls)))
    (hdelivers : DeliversReturned (call :: calls))
    (htracks : ∀ past, past <:+ calls → TracksDeliveries d past) :
    TracksDeliveries d (call :: calls) ↔
      ∀ oID, call = .registerDelivery d oID → ∀ req ∈ undelivered d calls, oID ≤ req.oID := by
  have hqueue := (htracks calls (List.suffix_refl _)).queue
  have hkeep : QueueTracks d (call :: calls) → (∀ oID, call ≠ .registerDelivery d oID) →
      (TracksDeliveries d (call :: calls) ↔
        ∀ oID, call = .registerDelivery d oID → ∀ req ∈ undelivered d calls, oID ≤ req.oID) :=
    fun h hne => ⟨fun _ oID hcall => absurd hcall (hne oID), fun _ => h.tracksDeliveries hdistinct⟩
  cases call with
  | registerOrder req => exact hkeep hqueue.register (by simp)
  | largestOrder | oldestUndeliveredOrder => exact hkeep hqueue (by simp)
  | registerDelivery d' oID =>
    by_cases hd : d' = d
    · subst hd
      obtain ⟨hreturned, honce⟩ := hdelivers.1
      have hiff := hqueue.registerDelivery_iff (distinctOrders_tail hdistinct)
        (exists_undelivered hreturned honce htracks)
      constructor
      · intro h oID' hcall
        cases hcall
        exact hiff.1 h.queue
      · intro h
        exact (hiff.2 (h oID rfl)).tracksDeliveries hdistinct
    · exact hkeep (hqueue.registerDelivery_of_ne hd) (by simp [hd])

/-- **The queue tracks the deliveries exactly if every delivered order is the smallest one
undelivered** when its delivery is registered. -/
theorem tracksDeliveries_iff (d : DistrictID cfg) (calls : List (IndexCall cfg))
    (hdistinct : DistinctOrders (registrations calls)) (hdelivers : DeliversReturned calls) :
    (∀ past, past <:+ calls → TracksDeliveries d past) ↔
      ∀ oID past, .registerDelivery d oID :: past <:+ calls →
        ∀ req ∈ undelivered d past, oID ≤ req.oID := by
  induction calls with
  | nil =>
    refine ⟨fun _ oID past h => by simp at h, fun _ past h => ?_⟩
    obtain rfl : past = [] := by simpa using h
    exact QueueTracks.tracksDeliveries .nil .nil
  | cons call calls ih =>
    have ih := ih (distinctOrders_tail hdistinct) (deliversReturned_tail hdelivers)
    constructor
    · intro h oID past hpast
      have hcalls : ∀ past, past <:+ calls → TracksDeliveries d past :=
        fun past hpast => h past (hpast.trans (List.suffix_cons ..))
      rcases List.suffix_cons_iff.1 hpast with heq | hpast
      · obtain ⟨hcall, rfl⟩ := List.cons.inj heq
        exact (tracksDeliveries_cons_iff hdistinct hdelivers hcalls).1
          (h _ (List.suffix_refl _)) oID hcall.symm
      · exact ih.1 hcalls oID past hpast
    · intro h past hpast
      have hcalls := ih.2 fun oID past hpast => h oID past (hpast.trans (List.suffix_cons ..))
      rcases List.suffix_cons_iff.1 hpast with rfl | hpast
      · refine (tracksDeliveries_cons_iff hdistinct hdelivers hcalls).2 fun oID hcall => ?_
        subst hcall
        exact h oID calls (List.suffix_refl _)
      · exact hcalls past hpast

/-- The later one of two orders is delivered after it was found as the oldest one. -/
def deliverLater : List (IndexCall (Config.shipped 2)) :=
  .registerDelivery (firstDistrict 0 (by decide)) 5 :: outOfOrder

theorem distinctOrders_deliverLater : DistinctOrders (registrations deliverLater) := by
  unfold DistinctOrders
  decide

theorem deliversReturned_deliverLater : DeliversReturned deliverLater :=
  ⟨⟨.inl ⟨rfl, ⟨false, false, 0, 0, 0, 0, 0, 0⟩, by decide, by decide⟩, by decide⟩, trivial⟩

/-- The smaller order was registered in between and is popped in the place of the delivered
one. -/
theorem tracksDeliveries_fails_deliverLater :
    DistinctOrders (registrations deliverLater) ∧ DeliversReturned deliverLater ∧
      ¬ TracksDeliveries (firstDistrict 0 (by decide)) deliverLater := by
  refine ⟨distinctOrders_deliverLater, deliversReturned_deliverLater, fun h => ?_⟩
  have hqueue := h.queue
  unfold QueueTracks at hqueue
  revert hqueue
  decide

def deliverSmaller : List (IndexCall (Config.shipped 2)) :=
  .registerDelivery (firstDistrict 0 (by decide)) 3 ::
    .oldestUndeliveredOrder (firstDistrict 0 (by decide)) :: outOfOrder

theorem tracksDeliveries_deliverSmaller :
    DistinctOrders (registrations deliverSmaller) ∧ DeliversReturned deliverSmaller ∧
      ∀ past, past <:+ deliverSmaller →
        TracksDeliveries (firstDistrict 0 (by decide)) past := by
  have hdistinct : DistinctOrders (registrations deliverSmaller) := by
    unfold DistinctOrders
    decide
  have hdelivers : DeliversReturned deliverSmaller :=
    ⟨⟨.inl ⟨rfl, ⟨false, false, 0, 0, 0, 0, 0, 0⟩, by decide, by decide⟩, by decide⟩, trivial⟩
  refine ⟨hdistinct, hdelivers,
    (tracksDeliveries_iff _ deliverSmaller hdistinct hdelivers).2 fun oID past hpast => ?_⟩
  rcases List.suffix_cons_iff.1 hpast with heq | hpast
  · cases heq
    decide
  · have hmem := hpast.subset List.mem_cons_self
    simp [outOfOrder] at hmem

end RdmaSnapshot
