import RdmaSnapshot.IndexThreads

/-!
# The largest order under concurrent registration

`registerOrderInIndex` tests whether the customer has an order, reads it and puts the larger one, in
separate steps. Two threads that both find no order, or both find a smaller one, put in either
order, and the smaller id may be put last. The index holds the largest order if no thread tests
while another one is about to act on its own test for the same customer.
-/

namespace RdmaSnapshot

variable {cfg : Config} {n : ℕ}

/-- The thread has tested whether the customer has an order and has yet to act on it. -/
def IndexThread.updatesLargest (d : DistrictID cfg) (cID : UInt32) : IndexThread cfg → Bool
  | .registerOrder req .getExisting | .registerOrder req .putLargest =>
    req.district = d ∧ req.cID = cID
  | _ => false

/-- No thread tests whether a customer has an order while another one is about to act on such a
test for the same customer. -/
def Exclusive (s : IndexServer cfg n) : IndexAction cfg n → Prop
  | .run i =>
    match s.threads i with
    | .registerOrder req .hasKey =>
      ∀ j, j ≠ i → (s.threads j).updatesLargest req.district req.cID = false
    | _ => True
  | _ => True

instance (s : IndexServer cfg n) (a : IndexAction cfg n) : Decidable (Exclusive s a) := by
  unfold Exclusive
  repeat' split
  all_goals infer_instance

/-- The invariant of runs in which the tests are exclusive. -/
structure LargestInv (s : IndexServer cfg n) : Prop where
  largest : LargestOf s.ix.largestOrderForCustomer_Index s.registeredOrders
  smaller : ∀ i req, s.threads i = .registerOrder req .putLargest →
    ∀ oID, s.ix.largestOrderForCustomer_Index req.district.ind req.cID = some oID → oID < req.oID
  exclusive : ∀ i j d cID, i ≠ j → (s.threads i).updatesLargest d cID = true →
    (s.threads j).updatesLargest d cID = false

variable {s s' : IndexServer cfg n} {a : IndexAction cfg n} {i : Fin n} {ix : IndexState}
  {thread : IndexThread cfg} {events : List (IndexEvent cfg n)}

theorem LargestInv.set (h : LargestInv s)
    (hlargest : LargestOf ix.largestOrderForCustomer_Index
      (s.set i ix thread events).registeredOrders)
    (hsmaller : ∀ j req, j ≠ i → s.threads j = .registerOrder req .putLargest →
      ix.largestOrderForCustomer_Index req.district.ind req.cID =
        s.ix.largestOrderForCustomer_Index req.district.ind req.cID)
    (hthread : ∀ d cID, thread.updatesLargest d cID = false) :
    LargestInv (s.set i ix thread events) where
  largest := hlargest
  smaller := by
    intro j req hj oID hget
    by_cases hji : j = i
    · subst hji
      rw [IndexServer.set_threads_self] at hj
      have hno := hthread req.district req.cID
      simp [hj, IndexThread.updatesLargest] at hno
    · rw [IndexServer.set_threads_of_ne hji] at hj
      rw [IndexServer.set_ix, hsmaller j req hji hj] at hget
      exact h.smaller j req hj oID hget
  exclusive := by
    intro j j' d cID hjj' hj
    by_cases hji : j = i
    · subst hji
      simp [hthread] at hj
    · rw [IndexServer.set_threads_of_ne hji] at hj
      by_cases hj'i : j' = i
      · subst hj'i
        simp [hthread]
      · rw [IndexServer.set_threads_of_ne hj'i]
        exact h.exclusive j j' d cID hjj' hj

theorem LargestInv.keep (h : LargestInv s)
    (hix : ix.largestOrderForCustomer_Index = s.ix.largestOrderForCustomer_Index)
    (hevents : events.filterMap IndexEvent.registeredOrder = [])
    (hthread : ∀ d cID, thread.updatesLargest d cID = false) :
    LargestInv (s.set i ix thread events) := by
  refine h.set ?_ (fun _ _ _ _ => by rw [hix]) hthread
  rw [hix, IndexServer.registeredOrders_set, hevents]
  exact h.largest

theorem LargestInv.update {req : RegisterOrderRequest cfg} {pc : RegisterOrderPC}
    (h : LargestInv s)
    (hpc : ∀ d cID, (IndexThread.registerOrder req pc).updatesLargest d cID = true →
      req.district = d ∧ req.cID = cID)
    (hsmaller : pc = .putLargest → ∀ oID,
      s.ix.largestOrderForCustomer_Index req.district.ind req.cID = some oID → oID < req.oID)
    (hothers : ∀ j, j ≠ i → (s.threads j).updatesLargest req.district req.cID = false) :
    LargestInv (s.set i s.ix (.registerOrder req pc) []) where
  largest := h.largest
  smaller := by
    intro j req' hj
    by_cases hji : j = i
    · subst hji
      rw [IndexServer.set_threads_self] at hj
      cases hj
      exact hsmaller rfl
    · rw [IndexServer.set_threads_of_ne hji] at hj
      exact h.smaller j req' hj
  exclusive := by
    intro j j' d cID hjj' hj
    by_cases hji : j = i
    · subst hji
      rw [IndexServer.set_threads_self] at hj
      obtain ⟨rfl, rfl⟩ := hpc d cID hj
      rw [IndexServer.set_threads_of_ne hjj'.symm]
      exact hothers j' hjj'.symm
    · rw [IndexServer.set_threads_of_ne hji] at hj
      by_cases hj'i : j' = i
      · subst hj'i
        rw [IndexServer.set_threads_self]
        by_contra hupd
        obtain ⟨rfl, rfl⟩ := hpc d cID (by simpa using hupd)
        simp [hothers j hji] at hj
      · rw [IndexServer.set_threads_of_ne hj'i]
        exact h.exclusive j j' d cID hjj' hj

theorem LargestInv.step (h : LargestInv s) (hok : Exclusive s a)
    (hstep : ServerStep s a i ix thread events) : LargestInv (s.set i ix thread events) := by
  cases hstep with
  | hasKey i req hth hkey =>
    simp only [Exclusive, hth] at hok
    exact h.update (by simp [IndexThread.updatesLargest]) (by simp) hok
  | hasNoKey i req hth hkey =>
    simp only [Exclusive, hth] at hok
    exact h.update (by simp [IndexThread.updatesLargest]) (by simp [hkey]) hok
  | getSmaller i req existingOID hth hget hlt =>
    refine h.update (by simp [IndexThread.updatesLargest]) (by simpa [hget] using hlt)
      fun j hj => h.exclusive i j _ _ hj.symm ?_
    simp [hth, IndexThread.updatesLargest]
  | getLarger i req existingOID hth hget hle =>
    exact h.set (h.largest.keep hget hle) (fun _ _ _ _ => rfl) fun _ _ => rfl
  | putLargest i req hth =>
    refine h.set (h.largest.put (h.smaller i req hth)) (fun j req' hj hth' => ?_) fun _ _ => rfl
    -- another thread about to put is one of another customer
    refine HashIndex.putAt_of_ne _ fun hd hc => ?_
    have hex := h.exclusive i j req.district req.cID hj.symm
      (by simp [hth, IndexThread.updatesLargest])
    simp [hth', IndexThread.updatesLargest, DistrictID.eq_of_ind hd, hc] at hex
  | other a i ix thread events hlargest _ _ _ hregister _ _ hregistered =>
    refine h.keep hlargest hregistered fun d cID => ?_
    cases thread with
    | registerOrder req pc => exact absurd rfl (hregister req pc)
    | _ => rfl
  | _ => exact h.keep rfl rfl fun _ _ => rfl

theorem largestInv_of_reachable (h : IndexServer.ReachableBy Exclusive s) : LargestInv s := by
  refine h.invariant (P := LargestInv) ?_ ?_
  · rintro s rfl
    exact ⟨largestOf_empty, by simp [IndexServer.start],
      by simp [IndexServer.start, IndexThread.updatesLargest]⟩
  · intro s a s' _ ih hok ha
    obtain ⟨i, ix, thread, events, rfl, hstep⟩ := IndexServer.step_cases ha
    exact ih.step hok hstep

/-- **The largest orders.** If the tests are exclusive then, once every `registerOrderInIndex` has
returned, the index holds the largest order of every customer. -/
theorem largest_of_exclusive (h : IndexServer.ReachableBy Exclusive s)
    (hreturned : ∀ i, (s.threads i).registering = none) (d : DistrictID cfg) (cID : UInt32) :
    (OrderTable.getBiggestOrderIDForCustomer s.ix d cID = none ↔
      ∀ req ∈ s.calledOrders, ¬ (req.district = d ∧ req.cID = cID)) ∧
    ∀ oID, OrderTable.getBiggestOrderIDForCustomer s.ix d cID = some oID ↔
      (∃ req ∈ s.calledOrders, req.district = d ∧ req.cID = cID ∧ req.oID = oID) ∧
        ∀ req ∈ s.calledOrders, req.district = d ∧ req.cID = cID → req.oID ≤ oID := by
  have hlargest := (largestInv_of_reachable h).largest
  have hmem : ∀ req, req ∈ s.calledOrders ↔ req ∈ s.registeredOrders := by
    intro req
    simp [(ordersInv_of_reachable h).called_iff req, hreturned]
  simp only [hmem]
  exact ⟨hlargest.eq_none_iff, fun _ => hlargest.eq_some_iff⟩

def orderOfCustomer (clientID : ClientID) (oID : UInt32) :
    RegisterOrderRequest (Config.shipped 2) :=
  ⟨clientID, firstDistrict 0 zero_lt_districts, 7, oID, 0, 0, 0, 5⟩

/-- The threads of a server with two. -/
def firstThread : Fin 2 := 0

@[inherit_doc firstThread]
def secondThread : Fin 2 := 1

theorem registerOrder_alone_start :
    ∃ s₀ events, (IndexServer.start : IndexServer (Config.shipped 2) 2).step
        (.registerOrder firstThread (orderOfCustomer 0 5)) = some s₀ ∧
      Alone s₀ firstThread (IndexServer.start.set firstThread
        (TPCCDB.handleRegisterOrderIndexRequest .empty (orderOfCustomer 0 5)) .idle events) :=
  registerOrder_alone rfl _

def IndexServer.registered : IndexServer (Config.shipped 2) 2 :=
  IndexServer.start.set firstThread
    (TPCCDB.handleRegisterOrderIndexRequest .empty (orderOfCustomer 0 5)) .idle []

/-- The order that was registered is found. -/
theorem largestOrder_alone_registered :
    ∃ s₀, IndexServer.registered.step (.largestOrder firstThread
        (firstDistrict 0 zero_lt_districts) 7 ⟨false, 0, 0, 0, 0, 0⟩) = some s₀ ∧
      Alone s₀ firstThread (IndexServer.registered.set firstThread IndexServer.registered.ix .idle
        [.returned firstThread (.largestOrder (firstDistrict 0 zero_lt_districts) 7)
          (.largestOrder (orderOfCustomer 0 5).largestOrderResponse),
          .called firstThread (.largestOrder (firstDistrict 0 zero_lt_districts) 7)]) :=
  largestOrder_alone rfl _ _ _

/-- Orders 5 and 3 of one customer are registered; the second thread tests after the first one has
put its order. -/
def registerInTurn : List (IndexAction (Config.shipped 2) 2) :=
  [.registerOrder 0 (orderOfCustomer 0 5), .registerOrder 1 (orderOfCustomer 1 3),
    .run 0, .run 1, .run 0, .run 0, .run 1, .run 1]

theorem largest_of_exclusive_registerInTurn :
    ∃ s : IndexServer (Config.shipped 2) 2, IndexServer.ReachableBy Exclusive s ∧
      (∀ i, (s.threads i).registering = none) ∧
      s.calledOrders = [orderOfCustomer 1 3, orderOfCustomer 0 5] ∧
      OrderTable.getBiggestOrderIDForCustomer s.ix (firstDistrict 0 (by decide)) 7 = some 5 := by
  obtain ⟨s, hreach, hreturned, hcalled⟩ := IndexServer.exists_reachableBy Exclusive registerInTurn
    (fun s => (∀ i, (s.threads i).registering = none) ∧
      s.calledOrders = [orderOfCustomer 1 3, orderOfCustomer 0 5]) (by decide)
  refine ⟨s, hreach, hreturned, hcalled, ?_⟩
  rw [(largest_of_exclusive hreach hreturned _ 7).2 5, hcalled]
  decide

/-- Both threads find no order of the customer; the first one puts order 5, then the second one
puts order 3. -/
def registerTogether : List (IndexAction (Config.shipped 2) 2) :=
  [.registerOrder 0 (orderOfCustomer 0 5), .registerOrder 1 (orderOfCustomer 1 3),
    .run 0, .run 0, .run 1, .run 1, .run 0, .run 1]

/-- After two concurrent registrations the index holds the smaller order. -/
theorem largest_lost :
    ∃ s : IndexServer (Config.shipped 2) 2, IndexServer.ReachableBy (fun _ _ => True) s ∧
      (∀ i, (s.threads i).registering = none) ∧
      s.calledOrders = [orderOfCustomer 1 3, orderOfCustomer 0 5] ∧
      OrderTable.getBiggestOrderIDForCustomer s.ix (firstDistrict 0 (by decide)) 7 = some 3 := by
  exact IndexServer.exists_reachableBy (fun _ _ => True) registerTogether _ (by decide)

end RdmaSnapshot
