import RdmaSnapshot.IndexRegistration

/-!
# Lookups of the largest order during registrations

A registration puts the order's address, the customer's largest order, and last the address of the
order lines. A lookup reads the largest order first and the addresses afterwards, so it can find an
order whose lines are not registered yet and fail, although an older order of the customer is
complete. It succeeds if the registration of the largest order has completed when it is read.
-/

namespace RdmaSnapshot

variable {cfg : Config} {n : ℕ}

def FreshOrderID (s : IndexServer cfg n) : IndexAction cfg n → Prop
  | .registerOrder _ req =>
    ∀ req' ∈ s.calledOrders, ¬ (req'.district = req.district ∧ req'.oID = req.oID)
  | _ => True

/-- A lookup reads the largest order of its customer while no thread has that order's rows in the
other tables still to register. -/
def LargestComplete (s : IndexServer cfg n) : IndexAction cfg n → Prop
  | .run i =>
    match s.threads i with
    | .largestOrder d cID _ .getBiggest =>
      ∀ j, ∀ req ∈ (s.threads j).finishing,
        ¬ ((req.district = d ∧ req.cID = cID) ∧
          OrderTable.getBiggestOrderIDForCustomer s.ix d cID = some req.oID)
    | _ => True
  | _ => True

instance (s : IndexServer cfg n) : (a : IndexAction cfg n) → Decidable (FreshOrderID s a)
  | .registerOrder _ req => inferInstanceAs (Decidable (∀ req' ∈ s.calledOrders,
      ¬ (req'.district = req.district ∧ req'.oID = req.oID)))
  | .largestOrder .. | .oldestUndeliveredOrder .. | .registerDelivery .. | .run _ =>
    isTrue trivial

instance (s : IndexServer cfg n) : (a : IndexAction cfg n) → Decidable (LargestComplete s a)
  | .run i => by
    change Decidable (match s.threads i with | .largestOrder d cID _ .getBiggest => _ | _ => True)
    exact match s.threads i with
    | .largestOrder _ _ _ .getBiggest => Nat.decidableForallFin _
    | .largestOrder _ _ _ .getOrderAddress | .largestOrder _ _ _ .getOrderLineAddress | .idle
    | .registerOrder .. | .oldestUndeliveredOrder .. | .registerDelivery .. => isTrue trivial
  | .registerOrder .. | .largestOrder .. | .oldestUndeliveredOrder .. | .registerDelivery .. =>
    isTrue trivial

variable {s s' : IndexServer cfg n} {a : IndexAction cfg n} {i : Fin n} {ix : IndexState}
  {thread : IndexThread cfg} {events : List (IndexEvent cfg n)}

/-! ## The largest orders are registered ones -/

/-- The keys of the index of largest orders. -/
structure StoredInv (s : IndexServer cfg n) : Prop where
  stored : ∀ (d : DistrictID cfg) cID oID, s.ix.largestOrderForCustomer_Index d.ind cID = some oID →
    ∃ req ∈ s.registeredOrders, (req.district = d ∧ req.cID = cID) ∧ req.oID = oID
  present : ∀ req ∈ s.registeredOrders,
    s.ix.largestOrderForCustomer_Index req.district.ind req.cID ≠ none

theorem StoredInv.keep (h : StoredInv s)
    (hix : ix.largestOrderForCustomer_Index = s.ix.largestOrderForCustomer_Index)
    (hevents : events.filterMap IndexEvent.registeredOrder = []) :
    StoredInv (s.set i ix thread events) where
  stored := by
    intro d cID oID hget
    rw [IndexServer.set_ix, hix] at hget
    rw [IndexServer.registeredOrders_set, hevents]
    exact h.stored d cID oID hget
  present := by
    intro req hreq
    rw [IndexServer.registeredOrders_set, hevents] at hreq
    rw [IndexServer.set_ix, hix]
    exact h.present req hreq

theorem StoredInv.step (h : StoredInv s) (hstep : ServerStep s a i ix thread events) :
    StoredInv (s.set i ix thread events) := by
  cases hstep with
  | getLarger i req existingOID hth hget hle =>
    refine ⟨fun d cID oID hsome => ?_, fun r hr => ?_⟩
    · obtain ⟨r, hr, hrd⟩ := h.stored d cID oID hsome
      exact ⟨r, List.mem_cons_of_mem _ hr, hrd⟩
    · rcases List.mem_cons.1 hr with rfl | hr
      · simp [hget]
      · exact h.present r hr
  | putLargest i req hth =>
    refine ⟨fun d cID oID hsome => ?_, fun r hr => ?_⟩
    · by_cases heq : req.district = d ∧ req.cID = cID
      · refine ⟨req, List.mem_cons_self, heq, ?_⟩
        obtain ⟨rfl, rfl⟩ := heq
        exact Option.some.inj ((HashIndex.putAt_self ..).symm.trans hsome)
      · obtain ⟨r, hr, hrd⟩ := h.stored d cID oID ((HashIndex.putAt_of_ne _ fun hd hc =>
          heq ⟨(DistrictID.eq_of_ind hd).symm, hc.symm⟩).symm.trans hsome)
        exact ⟨r, List.mem_cons_of_mem _ hr, hrd⟩
    · by_cases heq : r.district.ind = req.district.ind ∧ r.cID = req.cID
      · rw [IndexServer.set_ix, heq.1, heq.2]
        exact fun hnone => nomatch (HashIndex.putAt_self ..).symm.trans hnone
      · rw [IndexServer.set_ix]
        refine fun hnone => ?_
        have hr' : r ∈ s.registeredOrders := by
          rcases List.mem_cons.1 hr with rfl | hr
          · exact absurd ⟨rfl, rfl⟩ heq
          · exact hr
        exact h.present r hr' ((HashIndex.putAt_of_ne _ fun hd hc => heq ⟨hd, hc⟩).symm.trans hnone)
  | other a i ix thread events hlargest _ _ _ _ _ _ hregistered => exact h.keep hlargest hregistered
  | _ => exact h.keep rfl rfl

/-! ## Addresses -/

def IndexThread.addressed : IndexThread cfg → Option (RegisterOrderRequest cfg)
  | .registerOrder _ .putOrderAddress => none
  | .registerOrder req _ => some req
  | _ => none

/-- The addresses in the indexes, as long as order ids are not used twice. -/
structure AddressInv (s : IndexServer cfg n) : Prop where
  distinct : ∀ r ∈ s.calledOrders, ∀ r' ∈ s.calledOrders, r.district = r'.district →
    r.oID = r'.oID → r = r'
  addressed : ∀ i, ∀ req ∈ (s.threads i).addressed,
    s.ix.orderToMemoryAddress_Index req.district.ind req.oID =
      some ⟨req.clientID, req.orderRegionOffset⟩
  registered : ∀ req ∈ s.registeredOrders,
    s.ix.orderToMemoryAddress_Index req.district.ind req.oID =
      some ⟨req.clientID, req.orderRegionOffset⟩
  completed : ∀ req ∈ s.completedOrders,
    s.ix.orderLineToMemoryAddress_Index req.district.ind req.oID =
      some ⟨req.clientID, req.orderLineRegionOffset, req.numOfOrderlines⟩

/-- What an index says about an order after something is put for another one, or for itself. -/
theorem putAt_address {V : Type} (address : RegisterOrderRequest cfg → V)
    {index : ℕ → HashIndex UInt32 V} {r req : RegisterOrderRequest cfg}
    (hdistinct : r.district = req.district → r.oID = req.oID → r = req)
    (h : r = req ∨ index req.district.ind req.oID = some (address req)) :
    HashIndex.putAt index r.district.ind r.oID (address r) req.district.ind req.oID =
      some (address req) := by
  by_cases heq : r = req
  · subst heq
    exact HashIndex.putAt_self ..
  · rw [HashIndex.putAt_of_ne]
    · exact h.resolve_left heq
    · intro hd hid
      exact heq (hdistinct (DistrictID.eq_of_ind hd).symm hid.symm)

theorem ServerStep.order_cases (hstep : ServerStep s a i ix thread events) :
    (ix.orderToMemoryAddress_Index = s.ix.orderToMemoryAddress_Index ∧
      ∀ req, req ∈ thread.addressed ∨ req ∈ events.filterMap IndexEvent.registeredOrder →
        req ∈ (s.threads i).addressed) ∨
    ∃ r, (s.threads i).registering = some r ∧
      ix.orderToMemoryAddress_Index = HashIndex.putAt s.ix.orderToMemoryAddress_Index
        r.district.ind r.oID ⟨r.clientID, r.orderRegionOffset⟩ ∧
      thread.addressed = some r ∧ events = [] := by
  cases hstep with
  | putOrderAddress i req hth => exact .inr ⟨req, by rw [hth]; rfl, rfl, rfl, rfl⟩
  | other a i ix thread events _ horder _ _ hregister _ _ hregistered =>
    refine .inl ⟨horder, fun req hreq => ?_⟩
    rw [hregistered] at hreq
    cases thread with
    | registerOrder r pc => exact absurd rfl (hregister r pc)
    | _ => simp [IndexThread.addressed] at hreq
  | _ =>
    refine .inl ⟨rfl, fun req => ?_⟩
    simp_all [IndexThread.addressed, IndexEvent.registeredOrder, @eq_comm _ req]

theorem ServerStep.lines_cases (hstep : ServerStep s a i ix thread events) :
    (ix.orderLineToMemoryAddress_Index = s.ix.orderLineToMemoryAddress_Index ∧
      events.filterMap IndexEvent.completedOrder = []) ∨
    ∃ r, (s.threads i).finishing = some r ∧
      ix.orderLineToMemoryAddress_Index = HashIndex.putAt s.ix.orderLineToMemoryAddress_Index
        r.district.ind r.oID ⟨r.clientID, r.orderLineRegionOffset, r.numOfOrderlines⟩ ∧
      events.filterMap IndexEvent.completedOrder = [r] := by
  cases hstep with
  | putOrderLineAddress i req hth => exact .inr ⟨req, by rw [hth]; rfl, rfl, rfl⟩
  | other a i ix thread events _ _ hlines _ _ _ _ _ hcompleted => exact .inl ⟨hlines, hcompleted⟩
  | _ => exact .inl ⟨rfl, rfl⟩

theorem ServerStep.called_cases (hstep : ServerStep s a i ix thread events) :
    events.filterMap IndexEvent.calledOrder = [] ∨
    ∃ req, a = .registerOrder i req ∧ events.filterMap IndexEvent.calledOrder = [req] := by
  cases hstep with
  | callRegisterOrder i req => exact .inr ⟨req, rfl, rfl⟩
  | other a i ix thread events _ _ _ _ _ _ hcalled => exact .inl hcalled
  | _ => exact .inl rfl

theorem OrdersInv.called_of_addressed {req : RegisterOrderRequest cfg} (h : OrdersInv s)
    (hreq : req ∈ (s.threads i).addressed) : req ∈ s.calledOrders := by
  rw [h.called_iff, h.registered_iff]
  have hth : (s.threads i).registering = some req ∨ (s.threads i).finishing = some req := by
    cases hth : s.threads i with
    | registerOrder r pc =>
      rw [hth] at hreq
      cases pc <;> simp_all [IndexThread.addressed, IndexThread.registering, IndexThread.finishing]
    | _ => simp [hth, IndexThread.addressed] at hreq
  rcases hth with hth | hth
  · exact .inr ⟨i, hth⟩
  · exact .inl (.inr ⟨i, hth⟩)

section AddressStep

variable (horders : OrdersInv s) (h : AddressInv s) (hstep : ServerStep s a i ix thread events)
include horders h hstep

theorem AddressInv.order_keep {req : RegisterOrderRequest cfg} (hreq : req ∈ s.calledOrders)
    (hget : s.ix.orderToMemoryAddress_Index req.district.ind req.oID =
      some ⟨req.clientID, req.orderRegionOffset⟩) :
    ix.orderToMemoryAddress_Index req.district.ind req.oID =
      some ⟨req.clientID, req.orderRegionOffset⟩ := by
  rcases hstep.order_cases with ⟨hix, -⟩ | ⟨r, hr, hix, -⟩
  · rw [hix]
    exact hget
  · rw [hix]
    exact putAt_address (fun r => OrderAddressIdentifier.mk r.clientID r.orderRegionOffset)
      (h.distinct r ((horders.called_iff r).2 (.inr ⟨i, hr⟩)) req hreq) (.inr hget)

theorem AddressInv.lines_keep {req : RegisterOrderRequest cfg} (hreq : req ∈ s.calledOrders)
    (hget : s.ix.orderLineToMemoryAddress_Index req.district.ind req.oID =
      some ⟨req.clientID, req.orderLineRegionOffset, req.numOfOrderlines⟩) :
    ix.orderLineToMemoryAddress_Index req.district.ind req.oID =
      some ⟨req.clientID, req.orderLineRegionOffset, req.numOfOrderlines⟩ := by
  rcases hstep.lines_cases with ⟨hix, -⟩ | ⟨r, hr, hix, -⟩
  · rw [hix]
    exact hget
  · rw [hix]
    have hcalled : r ∈ s.calledOrders :=
      (horders.called_iff r).2 (.inl ((horders.registered_iff r).2 (.inr ⟨i, hr⟩)))
    exact putAt_address
      (fun r => OrderLineAddressIdentifier.mk r.clientID r.orderLineRegionOffset r.numOfOrderlines)
      (h.distinct r hcalled req hreq) (.inr hget)

theorem AddressInv.step (hok : FreshOrderID s a) : AddressInv (s.set i ix thread events) where
  distinct := by
    intro r hr r' hr' hd hid
    rw [IndexServer.calledOrders_set] at hr hr'
    rcases hstep.called_cases with hnil | ⟨req, rfl, hcons⟩
    · rw [hnil] at hr hr'
      exact h.distinct r hr r' hr' hd hid
    · rw [hcons, List.singleton_append, List.mem_cons] at hr hr'
      rcases hr with rfl | hr <;> rcases hr' with rfl | hr'
      · rfl
      · exact absurd ⟨hd.symm, hid.symm⟩ (hok r' hr')
      · exact absurd ⟨hd, hid⟩ (hok r hr)
      · exact h.distinct r hr r' hr' hd hid
  addressed := by
    intro j req hreq
    by_cases hji : j = i
    · subst hji
      rw [IndexServer.set_threads_self] at hreq
      rcases hstep.order_cases with ⟨-, hbefore⟩ | ⟨r, hr, hix, hth, -⟩
      · have hreq' := hbefore req (.inl hreq)
        exact h.order_keep horders hstep (horders.called_of_addressed hreq')
          (h.addressed j req hreq')
      · obtain rfl : r = req := Option.some.inj (hth.symm.trans hreq)
        rw [IndexServer.set_ix, hix]
        exact HashIndex.putAt_self ..
    · rw [IndexServer.set_threads_of_ne hji] at hreq
      exact h.order_keep horders hstep (horders.called_of_addressed hreq) (h.addressed j req hreq)
  registered := by
    intro req hreq
    rw [IndexServer.registeredOrders_set, List.mem_append] at hreq
    rcases hreq with hreq | hreq
    · rcases hstep.order_cases with ⟨-, hbefore⟩ | ⟨r, -, -, -, rfl⟩
      · have hreq' := hbefore req (.inr hreq)
        exact h.order_keep horders hstep (horders.called_of_addressed hreq')
          (h.addressed i req hreq')
      · cases hreq
    · exact h.order_keep horders hstep ((horders.called_iff req).2 (.inl hreq))
        (h.registered req hreq)
  completed := by
    intro req hreq
    rw [IndexServer.completedOrders_set, List.mem_append] at hreq
    rcases hreq with hreq | hreq
    · rcases hstep.lines_cases with ⟨-, hnil⟩ | ⟨r, -, hix, hcons⟩
      · rw [hnil] at hreq
        cases hreq
      · obtain rfl : req = r := by simpa [hcons] using hreq
        rw [IndexServer.set_ix, hix]
        exact HashIndex.putAt_self ..
    · have hregistered : req ∈ s.registeredOrders := (horders.registered_iff req).2 (.inl hreq)
      exact h.lines_keep horders hstep ((horders.called_iff req).2 (.inl hregistered))
        (h.completed req hreq)

end AddressStep

theorem addressInv_start : AddressInv (IndexServer.start : IndexServer cfg n) := by
  refine ⟨?_, ?_, ?_, ?_⟩ <;>
    simp [IndexServer.start, IndexServer.calledOrders, IndexServer.registeredOrders,
      IndexServer.completedOrders, IndexThread.addressed]

/-- **What is registered can be looked up.** However the requests of the threads interleave, once
the registration of an order has completed both indexes of addresses name the order's own rows, as
long as no order id is used twice in a district. -/
theorem addresses_of_completed (h : IndexServer.ReachableBy FreshOrderID s)
    {req : RegisterOrderRequest cfg} (hreq : req ∈ s.completedOrders) :
    OrderTable.getOrderMemoryAddress s.ix req.district req.oID =
        some ⟨req.clientID, req.orderRegionOffset⟩ ∧
      OrderLineTable.getOrderLineMemoryAddress s.ix req.district req.oID =
        some ⟨req.clientID, req.orderLineRegionOffset, req.numOfOrderlines⟩ := by
  have hinv : AddressInv s := by
    refine h.invariant (P := AddressInv) ?_ ?_
    · rintro s rfl
      exact addressInv_start
    · intro s a s' hs ih hok ha
      obtain ⟨i, ix, thread, events, rfl, hstep⟩ := IndexServer.step_cases ha
      exact ih.step (ordersInv_of_reachable hs) hstep hok
  have hregistered : req ∈ s.registeredOrders :=
    ((ordersInv_of_reachable h).registered_iff req).2 (.inl hreq)
  exact ⟨hinv.registered req hregistered, hinv.completed req hreq⟩

/-! ## Answers -/

/-- What a lookup has found so far describes a completely registered order of its customer. -/
def IndexThread.Describes (completed : List (RegisterOrderRequest cfg)) : IndexThread cfg → Prop
  | .largestOrder d cID res .getOrderAddress =>
    ∃ req ∈ completed, (req.district = d ∧ req.cID = cID) ∧ res.oID = req.oID
  | .largestOrder d cID res .getOrderLineAddress =>
    ∃ req ∈ completed, (req.district = d ∧ req.cID = cID) ∧
      res.oID = req.oID ∧ res.orderRegionOffset = req.orderRegionOffset
  | _ => True

/-- A lookup that returned `res` after the events `past` either came before every completed
registration of its customer or describes one of them. -/
def Answered (past : List (IndexEvent cfg n)) (d : DistrictID cfg) (cID : UInt32)
    (res : LargestOrderForCustomerIndexRespMsg) : Prop :=
  (∀ req ∈ past.filterMap IndexEvent.completedOrder, ¬ (req.district = d ∧ req.cID = cID)) ∨
  ∃ req ∈ past.filterMap IndexEvent.completedOrder, (req.district = d ∧ req.cID = cID) ∧
    res = req.largestOrderResponse

structure LookupInv (s : IndexServer cfg n) : Prop where
  describes : ∀ i, (s.threads i).Describes s.completedOrders
  answered : ∀ i d cID res past,
    .returned i (.largestOrder d cID) (.largestOrder res) :: past <:+ s.trace →
      Answered past d cID res

theorem IndexThread.Describes.mono {completed completed' : List (RegisterOrderRequest cfg)}
    (h : thread.Describes completed) (hsub : completed ⊆ completed') :
    thread.Describes completed' := by
  cases thread with
  | largestOrder d cID res pc =>
    cases pc with
    | getBiggest => trivial
    | getOrderAddress | getOrderLineAddress =>
      obtain ⟨req, hreq, hres⟩ := h
      exact ⟨req, hsub hreq, hres⟩
  | _ => trivial

/-- An event that is not among the newest ones is an older one. -/
theorem suffix_of_not_mem {α : Type} {e : α} {past newer older : List α} (he : e ∉ newer)
    (h : e :: past <:+ newer ++ older) : e :: past <:+ older := by
  induction newer with
  | nil => exact h
  | cons e' newer ih =>
    rcases List.suffix_cons_iff.1 h with heq | h
    · exact absurd (List.cons.inj heq).1 fun h => he (h ▸ List.mem_cons_self)
    · exact ih (fun h => he (List.mem_cons_of_mem _ h)) h

theorem LookupInv.set (h : LookupInv s)
    (hthread : thread.Describes (s.set i ix thread events).completedOrders)
    (hanswered : ∀ d cID res past,
      .returned i (.largestOrder d cID) (.largestOrder res) :: past <:+ events ++ s.trace →
        Answered past d cID res)
    (hothers : ∀ j d cID res, j ≠ i →
      .returned j (.largestOrder d cID) (.largestOrder res) ∉ events) :
    LookupInv (s.set i ix thread events) where
  describes := by
    intro j
    by_cases hji : j = i
    · subst hji
      rw [IndexServer.set_threads_self]
      exact hthread
    · rw [IndexServer.set_threads_of_ne hji]
      refine (h.describes j).mono fun req hreq => ?_
      rw [IndexServer.completedOrders_set]
      exact List.mem_append_right _ hreq
  answered := by
    intro j d cID res past hpast
    by_cases hji : j = i
    · subst hji
      exact hanswered d cID res past hpast
    · exact h.answered j d cID res past (suffix_of_not_mem (hothers j d cID res hji) hpast)

theorem LookupInv.keep (h : LookupInv s)
    (hthread : thread.Describes s.completedOrders)
    (hanswers : ∀ j d cID reply, .returned j (.largestOrder d cID) reply ∉ events) :
    LookupInv (s.set i ix thread events) := by
  refine h.set (hthread.mono fun req hreq => ?_) (fun d cID res past hpast => ?_)
    fun j d cID res _ => hanswers j d cID _
  · rw [IndexServer.completedOrders_set]
    exact List.mem_append_right _ hreq
  · exact h.answered i d cID res past (suffix_of_not_mem (hanswers i d cID _) hpast)

theorem LookupInv.answer {d : DistrictID cfg} {cID : UInt32}
    {res : LargestOrderForCustomerIndexRespMsg} (h : LookupInv s)
    (hres : Answered s.trace d cID res) : LookupInv
      (s.set i s.ix .idle [.returned i (.largestOrder d cID) (.largestOrder res)]) := by
  refine h.set trivial (fun d' cID' res' past hpast => ?_) fun j d' cID' res' hj => ?_
  · rcases List.suffix_cons_iff.1 hpast with heq | hpast
    · cases heq
      exact hres
    · exact h.answered i d' cID' res' past hpast
  · simp [hj]

theorem LookupInv.step (h : LookupInv s) (horders : OrdersInv s) (hstored : StoredInv s)
    (haddress : AddressInv s) (hok : LargestComplete s a)
    (hstep : ServerStep s a i ix thread events) : LookupInv (s.set i ix thread events) := by
  have hregistered : ∀ {req}, req ∈ s.completedOrders → req ∈ s.registeredOrders :=
    fun hreq => (horders.registered_iff _).2 (.inl hreq)
  cases hstep with
  | getBiggest i d cID res oID hth hget =>
    simp only [LargestComplete, hth] at hok
    obtain ⟨req, hreq, hd, rfl⟩ := hstored.stored d cID oID hget
    rcases (horders.registered_iff req).1 hreq with hcompleted | ⟨j, hj⟩
    · exact h.keep ⟨req, hcompleted, hd, rfl⟩ (by simp)
    · exact absurd ⟨hd, hget⟩ (hok j req hj)
  | getOrderAddress i d cID res order hth hget =>
    have hdescribes := h.describes i
    rw [hth] at hdescribes
    obtain ⟨req, hreq, ⟨rfl, rfl⟩, hid⟩ := hdescribes
    have haddr := haddress.registered req (hregistered hreq)
    rw [← hid, hget] at haddr
    cases haddr
    exact h.keep ⟨req, hreq, ⟨rfl, rfl⟩, hid, rfl⟩ (by simp)
  | getOrderLineAddress i d cID res lines hth hget =>
    have hdescribes := h.describes i
    rw [hth] at hdescribes
    obtain ⟨req, hreq, ⟨rfl, rfl⟩, hid, hoffset⟩ := hdescribes
    have haddr := haddress.completed req hreq
    rw [← hid, hget] at haddr
    cases haddr
    refine h.answer (.inr ⟨req, hreq, ⟨rfl, rfl⟩, ?_⟩)
    simp [RegisterOrderRequest.largestOrderResponse, hid, hoffset]
  | missing i d cID res res' pc hth hget =>
    have hdescribes := h.describes i
    rw [hth] at hdescribes
    refine h.answer (.inl fun req hreq hd => ?_)
    obtain ⟨rfl, rfl⟩ := hd
    cases pc with
    | getBiggest => exact hstored.present req (hregistered hreq) hget
    | getOrderAddress =>
      obtain ⟨r, hr, ⟨hd, -⟩, hid⟩ := hdescribes
      have haddr := haddress.registered r (hregistered hr)
      rw [hd, ← hid, hget] at haddr
      cases haddr
    | getOrderLineAddress =>
      obtain ⟨r, hr, ⟨hd, -⟩, hid, -⟩ := hdescribes
      have haddr := haddress.completed r hr
      rw [hd, ← hid, hget] at haddr
      cases haddr
  | other a i ix thread events _ _ _ _ _ hlookup _ _ _ hanswers =>
    refine h.keep ?_ hanswers
    cases thread with
    | largestOrder d cID res pc => exact absurd rfl (hlookup d cID res pc)
    | _ => trivial
  | _ => exact h.keep trivial (by simp)

/-- Order ids are new and lookups read largest orders that are complete. -/
def Undisturbed (s : IndexServer cfg n) (a : IndexAction cfg n) : Prop :=
  FreshOrderID s a ∧ LargestComplete s a

instance (s : IndexServer cfg n) (a : IndexAction cfg n) : Decidable (Undisturbed s a) :=
  inferInstanceAs (Decidable (_ ∧ _))

theorem lookupInv_of_reachable (h : IndexServer.ReachableBy Undisturbed s) :
    StoredInv s ∧ AddressInv s ∧ LookupInv s := by
  refine h.invariant (P := fun s => StoredInv s ∧ AddressInv s ∧ LookupInv s) ?_ ?_
  · rintro s rfl
    refine ⟨⟨by simp [IndexServer.start, IndexState.empty], by simp [IndexServer.start,
      IndexServer.registeredOrders]⟩, addressInv_start, fun _ => trivial, ?_⟩
    simp [IndexServer.start]
  · rintro s a s' hs ⟨hstored, haddress, hlookup⟩ hok ha
    have horders := ordersInv_of_reachable hs
    obtain ⟨i, ix, thread, events, rfl, hstep⟩ := IndexServer.step_cases ha
    exact ⟨hstored.step hstep, haddress.step horders hstep hok.1,
      hlookup.step horders hstored haddress hok.2 hstep⟩

/-- **Lookups during registrations.** In a run whose order ids are distinct and whose lookups read
completely registered largest orders, a lookup that was called after a registration for its
customer had completed succeeds and describes a completely registered order of that customer. -/
theorem largestOrder_answer (h : IndexServer.ReachableBy Undisturbed s)
    (after during : List (IndexEvent cfg n)) {before : List (IndexEvent cfg n)} {i j : Fin n}
    {d : DistrictID cfg} {cID : UInt32}
    {res : LargestOrderForCustomerIndexRespMsg} {req : RegisterOrderRequest cfg}
    (htrace : s.trace = after ++ .returned i (.largestOrder d cID) (.largestOrder res) ::
      (during ++ .called i (.largestOrder d cID) :: before))
    (hcompleted : .returned j (.registerOrder req) .registered ∈ before)
    (hcustomer : req.district = d ∧ req.cID = cID) :
    res.isSuccessful = true ∧ ∃ req' ∈ (during ++ before).filterMap IndexEvent.completedOrder,
      (req'.district = d ∧ req'.cID = cID) ∧ res = req'.largestOrderResponse := by
  have hmem : ∀ r, r ∈ (during ++ .called i (.largestOrder d cID) :: before).filterMap
      IndexEvent.completedOrder ↔
        r ∈ (during ++ before).filterMap IndexEvent.completedOrder := by
    simp [List.filterMap_append, List.filterMap_cons, IndexEvent.completedOrder]
  rcases (lookupInv_of_reachable h).2.2.answered i d cID res _ ⟨after, htrace.symm⟩ with
    hnone | ⟨r, hr, hd, rfl⟩
  · refine absurd hcustomer (hnone req ((hmem req).2 (List.mem_filterMap.2
      ⟨.returned j (.registerOrder req) .registered, ?_, rfl⟩)))
    exact List.mem_append_right _ hcompleted
  · exact ⟨rfl, r, (hmem r).1 hr, hd, rfl⟩

/-- Order 3 of the customer is registered; thread 1 has put the address of order 5 when thread 0
looks up the largest order. -/
def lookupWhileRegistering : List (IndexAction (Config.shipped 2) 2) :=
  .registerOrder firstThread (orderOfCustomer 0 3) :: List.replicate 6 (.run firstThread) ++
    [.registerOrder secondThread (orderOfCustomer 1 5), .run secondThread,
      .largestOrder firstThread (firstDistrict 0 zero_lt_districts) 7 ⟨false, 0, 0, 0, 0, 0⟩] ++
    List.replicate 3 (.run firstThread)

theorem largestOrder_answer_lookupWhileRegistering :
    ∃ s : IndexServer (Config.shipped 2) 2, IndexServer.ReachableBy Undisturbed s ∧
      ∃ res before, s.trace =
        .returned 0 (.largestOrder (firstDistrict 0 (by decide)) 7) (.largestOrder res) ::
          .called 0 (.largestOrder (firstDistrict 0 (by decide)) 7) :: before ∧
        .returned 0 (.registerOrder (orderOfCustomer 0 3)) .registered ∈ before ∧
        res.isSuccessful = true := by
  obtain ⟨s, hreach, htrace⟩ := IndexServer.exists_reachableBy Undisturbed lookupWhileRegistering
    (fun s => s.trace =
      [.returned 0 (.largestOrder (firstDistrict 0 (by decide)) 7)
          (.largestOrder (orderOfCustomer 0 3).largestOrderResponse),
        .called 0 (.largestOrder (firstDistrict 0 (by decide)) 7),
        .called 1 (.registerOrder (orderOfCustomer 1 5)),
        .returned 0 (.registerOrder (orderOfCustomer 0 3)) .registered,
        .orderRegistered 0 (orderOfCustomer 0 3),
        .called 0 (.registerOrder (orderOfCustomer 0 3))]) (by decide)
  have hcompleted : .returned 0 (.registerOrder (orderOfCustomer 0 3)) .registered ∈
      s.trace.drop 2 := by
    rw [htrace]
    decide
  rw [htrace] at hcompleted
  exact ⟨s, hreach, _, _, htrace, hcompleted,
    (largestOrder_answer hreach [] [] htrace hcompleted ⟨rfl, rfl⟩).1⟩

/-- Order 3 of the customer is registered; thread 1 has put order 5 as the largest one, but not its
order lines, when thread 0 looks up the largest order. -/
def lookupBeforeOrderLines : List (IndexAction (Config.shipped 2) 2) :=
  .registerOrder firstThread (orderOfCustomer 0 3) :: List.replicate 6 (.run firstThread) ++
    .registerOrder secondThread (orderOfCustomer 1 5) :: List.replicate 4 (.run secondThread) ++
    .largestOrder firstThread (firstDistrict 0 zero_lt_districts) 7 ⟨false, 0, 0, 0, 0, 0⟩ ::
    List.replicate 3 (.run firstThread)

/-- A lookup fails although an order of the customer was completely registered before. -/
theorem largestOrder_fails :
    ∃ s : IndexServer (Config.shipped 2) 2, IndexServer.ReachableBy (fun _ _ => True) s ∧
      s.trace =
        [.returned 0 (.largestOrder (firstDistrict 0 (by decide)) 7)
            (.largestOrder ⟨false, 5, 1, 0, 0, 0⟩),
          .called 0 (.largestOrder (firstDistrict 0 (by decide)) 7),
          .orderRegistered 1 (orderOfCustomer 1 5),
          .called 1 (.registerOrder (orderOfCustomer 1 5)),
          .returned 0 (.registerOrder (orderOfCustomer 0 3)) .registered,
          .orderRegistered 0 (orderOfCustomer 0 3),
          .called 0 (.registerOrder (orderOfCustomer 0 3))] :=
  IndexServer.exists_reachableBy (fun _ _ => True) lookupBeforeOrderLines _ (by decide)

theorem addresses_of_completed_lookup : ∃ s : IndexServer (Config.shipped 2) 2,
    IndexServer.ReachableBy FreshOrderID s ∧
      OrderTable.getOrderMemoryAddress s.ix (firstDistrict 0 zero_lt_districts) 3 =
        some ⟨0, 0⟩ := by
  obtain ⟨s, hreach, hreq⟩ := IndexServer.exists_reachableBy FreshOrderID lookupBeforeOrderLines
    (fun s => orderOfCustomer 0 3 ∈ s.completedOrders) (by decide)
  exact ⟨s, hreach, (addresses_of_completed hreach hreq).1⟩

end RdmaSnapshot
