import RdmaSnapshot.Stretches
import RdmaSnapshot.Populate
import RdmaSnapshot.Lib.BumpRing

/-!
# The rings of a client's order rows

A client stores the rows of its orders in slices of the Order, NewOrder and OrderLine tables, at
the places its row counters name. The counters are advanced by its committed NewOrders only, so
they are a function of the carts of these; the counter of the order lines moves as in a ring whose
blocks are not split at its end.
-/

namespace RdmaSnapshot

open DBExecutor NewOrderTransaction

variable {cfg : Config} {s s' : State} {c c' : ClientID} {cl cl' : Client} {o : Owner}
  {l : CpuLabel} {i g : ℕ} {wr : WorkRequest} {answer : IndexAnswer} {vec : ClientID → UInt32}

/-! ## Committed orders -/

def Event.committedCart (c : ClientID) : Event → Option NewOrderCart
  | .cpu c' ⟨_, .newOrder cart⟩ (.finish .COMMITTED) => if c' = c then some cart else none
  | _ => none

def committedCarts (c : ClientID) (trace : List Event) : List NewOrderCart :=
  trace.filterMap (Event.committedCart c)

/-- The numbers of lines of the NewOrders client `c` has committed, newest first. -/
def lineCnts (c : ClientID) (trace : List Event) : List ℕ :=
  (committedCarts c trace).map (·.items.length)

/-- The NewOrder that has reserved its order lines and has yet to advance the counters. -/
def Phase.reserved : Phase → Option NewOrderCart
  | .newOrder cart (.nextOID _) | .newOrder cart (.install _ _) | .newOrder cart .register
  | .newOrder cart .publish => some cart
  | _ => none

/-- The slots in the OrderLine slice of a client. -/
def Config.orderLineCnt (cfg : Config) : ℕ := cfg.ORDER_BUFFER_PER_CLIENT * cfg.ORDER_MAX_OL_CNT

/-- The row counters of a client that has committed `carts`, newest first. -/
structure RowCounters (cfg : Config) (carts : List NewOrderCart) (cl : Client) : Prop where
  nextOrderID : cl.nextOrderID = carts.length % cfg.ORDER_BUFFER_PER_CLIENT
  nextNewOrderID : cl.nextNewOrderID = carts.length % cfg.ORDER_BUFFER_PER_CLIENT
  nextOrderLineID : cl.nextOrderLineID = match cl.phase.reserved with
    | none => BumpRing.next cfg.orderLineCnt (carts.map (·.items.length))
    | some cart => BumpRing.start cfg.orderLineCnt (carts.map (·.items.length)) cart.items.length

/-! ## Steps -/

def Client.rowCounters (cl : Client) : ℕ × ℕ × ℕ :=
  (cl.nextOrderID, cl.nextNewOrderID, cl.nextOrderLineID)

/-- What a step of a client's CPU does to the row counters. -/
inductive CounterStep (cfg : Config) (cl cl' : Client) (o : Owner) (l : CpuLabel) : Prop
  | keep (counters : cl'.rowCounters = cl.rowCounters)
      (reserved : cl'.phase.reserved = cl.phase.reserved)
      (label : ∀ cart, o.trx = .newOrder cart → l ≠ .finish .COMMITTED)
  | reserve (cart : NewOrderCart)
      (counters : cl'.rowCounters = (cl.nextOrderID, cl.nextNewOrderID,
        reserveOrderLineRID cfg cl cart.items.length))
      (before : cl.phase.reserved = none) (reserved : cl'.phase.reserved = some cart)
      (label : l ≠ .finish .COMMITTED)
  | commit (cart : NewOrderCart)
      (counters : cl'.rowCounters = ((cl.nextOrderID + 1) % cfg.ORDER_BUFFER_PER_CLIENT,
        (cl.nextNewOrderID + 1) % cfg.ORDER_BUFFER_PER_CLIENT,
        (cl.nextOrderLineID + cart.items.length) % cfg.orderLineCnt))
      (before : cl.phase.reserved = some cart) (reserved : cl'.phase.reserved = none)
      (trx : o.trx = .newOrder cart) (label : l = .finish .COMMITTED)

theorem Phase.reserved_of_status {ph : Phase} {st : Status} (h : ph.status = st)
    (hst : st ≠ .committing) : ph.reserved = none := by
  subst h
  unfold reserved
  split <;> first | rfl | exact absurd rfl hst

theorem EntersCommit.counterStep {trx : Trx} {p : Phase} {base : Client}
    (h : EntersCommit cfg c base p cl') (hbefore : cl.phase.reserved = none)
    (hbase : base.rowCounters = cl.rowCounters) : CounterStep cfg cl cl' ⟨cl'.t, trx⟩ .resume := by
  simp only [Client.rowCounters, Prod.mk.injEq] at hbase
  obtain ⟨horder, hnewOrder, hline⟩ := hbase
  have hreserve : ∀ n, reserveOrderLineRID cfg base n = reserveOrderLineRID cfg cl n := by
    simp only [reserveOrderLineRID, hline, implies_true]
  cases h with
  | append cart cts =>
    refine .reserve cart ?_ hbefore rfl (by simp)
    simp only [Client.post, appended, Client.setLocal, Client.rowCounters,
      horder, hnewOrder, hreserve]
  | newOrder cart cts =>
    refine .reserve cart ?_ hbefore rfl (by simp)
    simp only [installStep, districtUpdated, Client.post,
      appended, Client.setLocal, Client.rowCounters, horder, hnewOrder,
      hreserve]
  | payment | delivery =>
    refine .keep ?_ hbefore.symm (by simp)
    simp only [PaymentTransaction.installStep, DeliveryTransaction.installStep, Client.post,
      Client.setLocal, Client.rowCounters, horder, hnewOrder, hline]

theorem Stretch.counterStep {trx : Trx} (h : Stretch cfg vec c cl trx cl' l) :
    CounterStep cfg cl cl' ⟨cl'.t, trx⟩ l := by
  have hnone : ∀ {p p' : Phase} {st st' : Status}, p.status = st → p'.status = st' →
      st ≠ .committing → st' ≠ .committing → p.reserved = p'.reserved := by
    intro p p' st st' hp hp' hst hst'
    rw [Phase.reserved_of_status hp hst, Phase.reserved_of_status hp' hst']
  cases h with
  | call cart hidle hp =>
    refine .keep rfl ?_ (by simp)
    rw [hidle]
    rcases hp with rfl | rfl <;> rfl
  | start _ h | read h | snapshot _ _ _ h | giveUp h =>
    exact .keep rfl (hnone h.phase.2.1 h.phase.1 nofun nofun) (by simp)
  | lock h => exact .keep rfl (hnone h.phase.2.1 h.phase.1 nofun nofun) (by simp)
  | stop hst _ h hout =>
    refine .keep rfl (hnone h.status hst nofun nofun) fun cart hcart => ?_
    simpa using hout cart hcart
  | abort hst _ h => exact .keep rfl (hnone h.status hst nofun nofun) (by simp)
  | log _ h =>
    refine .keep rfl ?_ (by simp)
    rw [Phase.reserved_of_status h.phase.1 nofun]
    cases h <;> rfl
  | commit _ hbase h =>
    rcases hbase with ⟨hph, rfl⟩ | ⟨hwon, rfl⟩
    · refine h.counterStep ?_ rfl
      rw [hph]
      cases h <;> rfl
    · exact h.counterStep (Phase.reserved_of_status hwon.phase.1 nofun) rfl
  | insert hph => exact .keep rfl (by rw [hph]; rfl) (by simp)
  | register h | publish h =>
    cases h <;> exact .keep rfl (by simp only [Client.post, ‹cl.phase = _›]; rfl) (by simp)
  | finishNewOrder hph => exact .commit _ rfl (by rw [hph]; rfl) rfl rfl rfl
  | finish h hph =>
    rcases hph with ⟨cart, hph, rfl⟩ | ⟨cart, dID, hph, rfl⟩ <;>
      refine .keep rfl ?_ (by simp) <;>
      rw [hph] <;>
      exact Phase.reserved_of_status h.status nofun

theorem ClientStep.counterStep (h : ClientStep cfg vec c cl cl' o l) :
    CounterStep cfg cl cl' o l := by
  obtain ⟨n, m, trx, rfl, hstretch⟩ := h.stretch
  cases hstretch.counterStep with
  | keep hcnt hres hl => exact .keep hcnt hres hl
  | reserve cart hcnt hbefore hres hl => exact .reserve cart hcnt hbefore hres hl
  | commit cart hcnt hbefore hres ho hl => exact .commit cart hcnt hbefore hres ho hl

/-! ## The counters of reachable states -/

theorem committedCarts_cons (c : ClientID) (e : Event) (trace : List Event) :
    committedCarts c (e :: trace) = (e.committedCart c).toList ++ committedCarts c trace := by
  simp only [committedCarts, List.filterMap_cons]
  cases e.committedCart c <;> rfl

theorem Event.committedCart_eq_none
    (h : ∀ cart, o.trx = .newOrder cart → l ≠ .finish .COMMITTED) :
    (Event.cpu c' o l).committedCart c = none := by
  obtain ⟨t, trx⟩ := o
  unfold committedCart
  split
  · rename_i hev
    cases hev
    exact absurd rfl (h _ rfl)
  · rfl

theorem Event.committedCart_of_ne {e : Event} (h : ∀ o l, e ≠ .cpu c o l) :
    e.committedCart c = none := by
  unfold committedCart
  split
  · exact if_neg fun hc => h _ _ (by rw [hc])
  · rfl

theorem RowCounters.step {carts : List NewOrderCart} (h : RowCounters cfg carts cl)
    (hstep : CounterStep cfg cl cl' o l) :
    RowCounters cfg (((Event.cpu c o l).committedCart c).toList ++ carts) cl' := by
  obtain ⟨h₁, h₂, h₃⟩ := h
  cases hstep with
  | keep hcnt hres hl =>
    obtain ⟨g₁, g₂, g₃⟩ := Prod.mk.inj hcnt |>.imp_right Prod.mk.inj
    rw [Event.committedCart_eq_none hl]
    exact ⟨g₁.trans h₁, g₂.trans h₂, by rw [g₃, h₃, hres]; rfl⟩
  | reserve cart hcnt hbefore hres hl =>
    obtain ⟨g₁, g₂, g₃⟩ := Prod.mk.inj hcnt |>.imp_right Prod.mk.inj
    rw [Event.committedCart_eq_none fun _ _ => hl]
    refine ⟨g₁.trans h₁, g₂.trans h₂, ?_⟩
    rw [hbefore] at h₃
    rw [g₃, hres]
    simp only [reserveOrderLineRID, h₃]
    rfl
  | commit cart hcnt hbefore hres ho hl =>
    obtain ⟨g₁, g₂, g₃⟩ := Prod.mk.inj hcnt |>.imp_right Prod.mk.inj
    obtain ⟨t, trx⟩ := o
    obtain rfl : trx = .newOrder cart := ho
    subst hl
    rw [hbefore] at h₃
    simp only [Event.committedCart, if_true, Option.toList_some, List.cons_append,
      List.nil_append]
    refine ⟨?_, ?_, ?_⟩
    · rw [g₁, h₁, List.length_cons, Nat.mod_add_mod]
    · rw [g₂, h₂, List.length_cons, Nat.mod_add_mod]
    · rw [g₃, hres, h₃]
      rfl

/-- **The row counters of a client are determined by the NewOrders it has committed.** -/
theorem rowCounters_of_reachable (h : Reachable cfg s) (c : ClientID) :
    RowCounters cfg (committedCarts c s.trace) (s.clients c) := by
  refine h.invariant (P := fun s => RowCounters cfg (committedCarts c s.trace) (s.clients c))
    ?_ ?_
  · intro s hs
    have hcl := hs.clients c
    rw [hs.trace]
    exact ⟨hcl.nextOrderID, hcl.nextNewOrderID, by rw [hcl.nextOrderLineID, hcl.phase]; rfl⟩
  · intro s a s' _ ih _ ha
    rcases step_client_cases ha c with ⟨vec, cl, o, l, -, hstep, rfl⟩ | ⟨i, wr, answer, ho, rfl⟩ |
      ⟨hcl, e, htrace, hcpu, -⟩
    · rw [State.setClient_trace, committedCarts_cons, State.setClient_clients_self]
      exact ih.step hstep.counterStep
    · rw [State.effect_trace, committedCarts_cons, State.effect_clients_self]
      exact ⟨ih.nextOrderID, ih.nextNewOrderID, ih.nextOrderLineID⟩
    · rw [htrace, committedCarts_cons, hcl, Event.committedCart_of_ne hcpu]
      exact ih

/-! ## The slots of the order lines -/

/-- The slots of a client's OrderLine slice that a NewOrder with `n` lines reserves once NewOrders
with the numbers of lines in `past`, newest first, were committed. -/
def orderLineSlots (cfg : Config) (past : List ℕ) (n : ℕ) : Set ℕ :=
  BumpRing.block cfg.orderLineCnt past n

/-- **Where the rows of an order go.** The slot of the order follows from how many orders the client
has committed, and the slots of its lines from how many lines these had. -/
theorem slots_of_reachable (h : Reachable cfg s) (c : ClientID) :
    (s.clients c).nextOrderID =
        (committedCarts c s.trace).length % cfg.ORDER_BUFFER_PER_CLIENT ∧
      (s.clients c).nextNewOrderID = (s.clients c).nextOrderID ∧
      ∀ cart, (s.clients c).phase.reserved = some cart →
        orderLineSlots cfg (lineCnts c s.trace) cart.items.length =
          Set.Ico (s.clients c).nextOrderLineID
            ((s.clients c).nextOrderLineID + cart.items.length) := by
  obtain ⟨horder, hnewOrder, hnext⟩ := rowCounters_of_reachable h c
  refine ⟨horder, hnewOrder.trans horder.symm, fun cart hres => ?_⟩
  rw [hres] at hnext
  rw [hnext]
  rfl

set_option maxRecDepth 100000 in
/-- The second NewOrder of a client has reserved its order lines. -/
theorem slots_of_reachable_second : ∃ s cart, Reachable (.shipped 1) s ∧
    (s.clients 0).phase.reserved = some cart ∧ (s.clients 0).nextOrderID = 1 ∧
    orderLineSlots (.shipped 1) [5] cart.items.length = Set.Ico (s.clients 0).nextOrderLineID
      ((s.clients 0).nextOrderLineID + cart.items.length) := by
  obtain ⟨s, hs, -, h⟩ := exists_reachable (init_plain (.shipped 1))
    (newOrderAlone 0 ++ (newOrderAlone 0).take 45)
    (fun s => (s.clients 0).phase.reserved.isSome ∧ lineCnts 0 s.trace = [5])
    (by decide +kernel) (by decide +kernel)
  obtain ⟨hreserved, hcnts⟩ := of_decide_eq_true h
  obtain ⟨cart, hcart⟩ := Option.isSome_iff_exists.1 hreserved
  obtain ⟨horder, -, hslots⟩ := slots_of_reachable hs 0
  have hlength : (committedCarts 0 s.trace).length = 1 := by
    rw [← List.length_map (·.items.length), show List.map _ _ = _ from hcnts]
    rfl
  rw [hlength] at horder
  exact ⟨s, cart, hs, hcart, horder, hcnts ▸ hslots cart hcart⟩

/-- **Order lines survive as long as their Order row exactly when no order is too long.** The
orders of a client have `past`, `n`, `mid` and `m` lines, oldest last; as long as fewer than
`ORDER_BUFFER_PER_CLIENT` orders follow it, the Order row of the order with `n` lines is in the
ring. Its lines are never overwritten in that time if and only if all orders have at most `L`
lines, where `ORDER_BUFFER_PER_CLIENT + 1` orders of `L` lines fit into the slice. -/
theorem orderLineSlots_disjoint_iff (cfg : Config) {L : ℕ}
    (hB : 1 ≤ cfg.ORDER_BUFFER_PER_CLIENT) (hL : 1 ≤ L) (hM : L ≤ cfg.ORDER_MAX_OL_CNT) :
    (∀ past n mid m, (∀ x ∈ m :: (mid ++ n :: past), 1 ≤ x ∧ x ≤ L) →
        mid.length + 1 < cfg.ORDER_BUFFER_PER_CLIENT →
        Disjoint (orderLineSlots cfg past n) (orderLineSlots cfg (mid ++ n :: past) m)) ↔
      cfg.ORDER_BUFFER_PER_CLIENT = 1 ∨
        (cfg.ORDER_BUFFER_PER_CLIENT + 1) * L ≤
          cfg.ORDER_BUFFER_PER_CLIENT * cfg.ORDER_MAX_OL_CNT := by
  have hpos : 0 < cfg.orderLineCnt := Nat.mul_pos hB (hL.trans hM)
  constructor
  · intro hall
    by_contra hno
    obtain ⟨hB1, hroom⟩ := not_or.1 hno
    obtain ⟨past, n, mid, m, hcnt, hlen, hover⟩ :=
      BumpRing.exists_overlap (N := cfg.orderLineCnt) (by omega) hL (Nat.mul_le_mul_left _ hM)
        (Nat.not_le.1 hroom)
    exact hover (hall past n mid m hcnt hlen)
  · rintro (hB1 | hroom) past n mid m hcnt hlen
    · omega
    · refine BumpRing.disjoint_of_le hroom hpos ?_ ?_ ?_ hlen
      · exact (hcnt n (by simp)).2
      · exact (hcnt m (by simp)).2
      · exact fun x hx => (hcnt x (by simp [hx])).2

/-- With the constants of the repository, orders of at most fourteen lines are safe. -/
theorem orderLineSlots_disjoint_fourteen :
    14 ≤ (Config.shipped 1).ORDER_MAX_OL_CNT ∧
      ∀ past n mid m, (∀ x ∈ m :: (mid ++ n :: past), 1 ≤ x ∧ x ≤ 14) →
        mid.length + 1 < (Config.shipped 1).ORDER_BUFFER_PER_CLIENT →
        Disjoint (orderLineSlots (Config.shipped 1) past n)
          (orderLineSlots (Config.shipped 1) (mid ++ n :: past) m) :=
  ⟨by decide, (orderLineSlots_disjoint_iff (Config.shipped 1) (by decide) (by decide)
    (by decide)).2 (.inr (by decide))⟩

/-- A thousand orders of fifteen lines: the last one takes the slots of the first one, whose Order
row is still in the ring. -/
theorem orderLineSlots_overlap_fifteen :
    (List.replicate 998 15).length + 1 < (Config.shipped 1).ORDER_BUFFER_PER_CLIENT ∧
      ¬ Disjoint (orderLineSlots (Config.shipped 1) [] 15)
        (orderLineSlots (Config.shipped 1) (List.replicate 998 15 ++ [15]) 15) := by
  have hsum : (List.replicate 998 15 ++ [15]).sum = 14985 := by
    rw [List.sum_append, List.sum_replicate_nat]
    rfl
  have hmem : ∀ past, BumpRing.start (Config.shipped 1).orderLineCnt past 15 = 0 →
      0 ∈ orderLineSlots (Config.shipped 1) past 15 := by
    intro past hstart
    simp [orderLineSlots, BumpRing.block, hstart]
  refine ⟨by rw [List.length_replicate]; decide, Set.not_disjoint_iff.2 ⟨0, hmem _ ?_, hmem _ ?_⟩⟩
  · exact BumpRing.start_eq_sum (by decide)
  · exact BumpRing.start_eq_zero (by rw [hsum]; decide) (by rw [hsum]; decide)

end RdmaSnapshot
