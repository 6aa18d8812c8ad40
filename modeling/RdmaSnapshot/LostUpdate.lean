import RdmaSnapshot.Ledger
import RdmaSnapshot.Populate

/-!
# No update is lost

Every version of a Warehouse, Customer or Stock record but the first was computed from the version
it replaced. The counters in an unlocked record therefore count the transactions that locked it and
did not put its word back.
-/

namespace RdmaSnapshot

variable {cfg : Config} {s : State} {k : Key} {wID : UInt16} {dID : UInt8} {cID iID : UInt32}
  {t : Ticket} {ts : List Ticket}

namespace Ticket

def isNewOrder (t : Ticket) : Bool := t.owner.trx.cls = .newOrder

def isPayment (t : Ticket) : Bool := t.owner.trx.cls = .payment

def isDelivery (t : Ticket) : Bool := t.owner.trx.cls = .delivery

def quantity (wID : UInt16) (iID : UInt32) (t : Ticket) : ℕ :=
  match t.owner.trx with
  | .newOrder cart =>
    ((cart.items.find? fun item => item.OL_SUPPLY_W_ID = wID ∧ item.I_ID = iID).map
      (·.OL_QUANTITY.toNat)).getD 0
  | _ => 0

end Ticket

theorem NewOrderCart.find?_of_mem (cart : NewOrderCart) {item : NewOrderItem}
    (h : item ∈ cart.items) : cart.items.find? (fun i =>
      i.OL_SUPPLY_W_ID = item.OL_SUPPLY_W_ID ∧ i.I_ID = item.I_ID) = some item := by
  cases hfind : cart.items.find? (fun i =>
      i.OL_SUPPLY_W_ID = item.OL_SUPPLY_W_ID ∧ i.I_ID = item.I_ID) with
  | none =>
    rw [List.find?_eq_none] at hfind
    simpa using hfind item h
  | some found =>
    have hid : found.I_ID = item.I_ID := by
      have hfound := List.find?_some hfind
      exact (of_decide_eq_true hfound).2
    rw [List.inj_on_of_nodup_map cart.items_nodup (List.mem_of_find?_eq_some hfind) h hid]

theorem Ticket.quantity_of_mem {cart : NewOrderCart} {item : NewOrderItem}
    (ht : t.owner.trx = .newOrder cart) (h : item ∈ cart.items) :
    t.quantity item.OL_SUPPLY_W_ID item.I_ID = item.OL_QUANTITY.toNat := by
  simp only [quantity, ht, cart.find?_of_mem h, Option.map_some, Option.getD_some]

/-! ## Counters -/

theorem Computed.stock {v₀ : Version (Row (Key.stock wID iID).table)}
    {vs : List (Version (Row (Key.stock wID iID).table))}
    (h : Computed cfg (.stock wID iID) v₀ ts vs) : ∀ v ∈ vs.head?,
      v.body.S_ORDER_CNT = v₀.body.S_ORDER_CNT + UInt16.ofNat (ts.countP Ticket.isNewOrder) ∧
      v.body.S_YTD = v₀.body.S_YTD + UInt32.ofNat ((ts.map (Ticket.quantity wID iID)).sum) := by
  induction h with
  | start =>
    intro v hv
    cases hv
    simp
  | @install ts x y w past t h hy hb ih =>
    intro v hv
    cases hv
    obtain ⟨hcnt, hytd⟩ := ih x rfl
    obtain rfl : y = x := hy.eq (by simp)
    cases hb with
    | @stock cart item ht hi =>
      have hnew : t.isNewOrder = true := by simp [Ticket.isNewOrder, ht, Trx.cls]
      rw [List.countP_cons_of_pos hnew, UInt16.ofNat_add, ← UInt16.add_assoc, ← hcnt,
        List.map_cons, List.sum_cons, Ticket.quantity_of_mem ht hi,
        Nat.add_comm item.OL_QUANTITY.toNat, UInt32.ofNat_add, ← UInt32.add_assoc, ← hytd]
      refine ⟨rfl, congrArg (_ + ·) ?_⟩
      simp

theorem Computed.customer {v₀ : Version (Row (Key.customer wID dID cID).table)}
    {vs : List (Version (Row (Key.customer wID dID cID).table))}
    (h : Computed cfg (.customer wID dID cID) v₀ ts vs) : ∀ v ∈ vs.head?,
      v.body.C_PAYMENT_CNT = v₀.body.C_PAYMENT_CNT + UInt16.ofNat (ts.countP Ticket.isPayment) ∧
      v.body.C_DELIVERY_CNT =
        v₀.body.C_DELIVERY_CNT + UInt16.ofNat (ts.countP Ticket.isDelivery) := by
  induction h with
  | start =>
    intro v hv
    cases hv
    simp
  | @install ts x y w past t h hy hb ih =>
    intro v hv
    cases hv
    obtain ⟨hpay, hdel⟩ := ih x rfl
    obtain rfl : y = x := hy.eq (by simp)
    cases hb with
    | customer _ ht =>
      have hnew : t.isPayment = true := by simp [Ticket.isPayment, ht, Trx.cls]
      have hold : ¬ t.isDelivery = true := by simp [Ticket.isDelivery, ht, Trx.cls]
      rw [List.countP_cons_of_pos hnew, List.countP_cons_of_neg hold, UInt16.ofNat_add,
        ← UInt16.add_assoc, ← hpay, ← hdel]
      exact ⟨rfl, rfl⟩
    | delivered _ _ ht =>
      have hnew : t.isDelivery = true := by simp [Ticket.isDelivery, ht, Trx.cls]
      have hold : ¬ t.isPayment = true := by simp [Ticket.isPayment, ht, Trx.cls]
      rw [List.countP_cons_of_pos hnew, List.countP_cons_of_neg hold, UInt16.ofNat_add,
        ← UInt16.add_assoc, ← hpay, ← hdel]
      exact ⟨rfl, rfl⟩

theorem Computed.built {v₀ : Version (Row k.table)} {vs : List (Version (Row k.table))}
    (h : Computed cfg k v₀ ts vs) (hk : k.table ≠ .district) {later earlier : List _}
    {v x : Version (Row k.table)} (hvs : vs = later ++ v :: x :: earlier) :
    ∃ t ∈ ts, Built cfg t k x v := by
  induction h generalizing later with
  | start => cases later <;> simp at hvs
  | install h hy hb ih =>
    cases later with
    | nil =>
      cases hvs
      obtain rfl := hy.eq hk
      exact ⟨_, List.mem_cons_self, hb⟩
    | cons u later =>
      obtain ⟨t, ht, hb⟩ := ih (List.cons.inj hvs).2
      exact ⟨t, List.mem_cons_of_mem _ ht, hb⟩

/-- The current version of an unlocked record is the last one its lockers computed, and it is in
front of the record. -/
theorem computed_of_unlocked (h : Reachable cfg s) (hwrap : NoWrap cfg s)
    (hk : k.versioned = true) (hunlocked : (s.mem k).head.writeTimestamp.isLocked = false) :
    SameVersion k (s.mem k).head (s.current k) ∧
      Computed cfg k (s.populated k).head (s.lockers k) (s.versions k) := by
  have hrec := (inv_of_reachable h hwrap).records k hk
  have hfree : s.holder k = none := by
    have hiff := hrec.isLocked_iff
    rw [hunlocked] at hiff
    simpa using hiff
  obtain ⟨ts, hts, hcomp⟩ := (ledger_of_reachable h hwrap hk).computed
  rw [hfree] at hts
  exact ⟨hrec.head_of_free hfree, by simpa [hts] using hcomp⟩

/-- **No lost update.** Every version of a Warehouse, Customer or Stock record but the first was
computed by a transaction, which locked the record and did not revert, from exactly the version it
replaced. In an unlocked stock `S_ORDER_CNT` has counted the NewOrders that locked it and did not
revert and `S_YTD` has added up their quantities; in an unlocked customer `C_PAYMENT_CNT` and
`C_DELIVERY_CNT` have counted such Payments and Delivery iterations. -/
theorem no_lost_update (h : Reachable cfg s) (hwrap : NoWrap cfg s) :
    (∀ k : Key, k.table = .stock ∨ k.table = .warehouse ∨ k.table = .customer →
      ∀ (later earlier : List (Version (Row k.table))) (v x : Version (Row k.table)),
        s.versions k = later ++ v :: x :: earlier → ∃ t ∈ s.lockers k, Built cfg t k x v) ∧
    (∀ wID iID, (s.mem (.stock wID iID)).head.writeTimestamp.isLocked = false →
      (s.mem (.stock wID iID)).head.body.S_ORDER_CNT =
          (s.populated (.stock wID iID)).head.body.S_ORDER_CNT +
            UInt16.ofNat ((s.lockers (.stock wID iID)).countP Ticket.isNewOrder) ∧
      (s.mem (.stock wID iID)).head.body.S_YTD =
          (s.populated (.stock wID iID)).head.body.S_YTD +
            UInt32.ofNat ((s.lockers (.stock wID iID)).map (Ticket.quantity wID iID)).sum) ∧
    (∀ wID dID cID, (s.mem (.customer wID dID cID)).head.writeTimestamp.isLocked = false →
      (s.mem (.customer wID dID cID)).head.body.C_PAYMENT_CNT =
          (s.populated (.customer wID dID cID)).head.body.C_PAYMENT_CNT +
            UInt16.ofNat ((s.lockers (.customer wID dID cID)).countP Ticket.isPayment) ∧
      (s.mem (.customer wID dID cID)).head.body.C_DELIVERY_CNT =
          (s.populated (.customer wID dID cID)).head.body.C_DELIVERY_CNT +
            UInt16.ofNat ((s.lockers (.customer wID dID cID)).countP Ticket.isDelivery)) := by
  refine ⟨?_, ?_, ?_⟩
  · intro k hk later earlier v x hvs
    have hversioned : k.versioned = true := by
      cases k <;> first | rfl | simp at hk
    have hdistrict : k.table ≠ .district := by
      rcases hk with hk | hk | hk <;> simp [hk]
    obtain ⟨ts, hts, hcomp⟩ := (ledger_of_reachable h hwrap hversioned).computed
    obtain ⟨t, ht, hb⟩ := hcomp.built hdistrict hvs
    exact ⟨t, by simp [hts, ht], hb⟩
  · intro wID iID hunlocked
    obtain ⟨hhead, hcomp⟩ := computed_of_unlocked h hwrap rfl hunlocked
    rw [hhead.eq (by simp)]
    exact hcomp.stock _ (s.head?_versions _)
  · intro wID dID cID hunlocked
    obtain ⟨hhead, hcomp⟩ := computed_of_unlocked h hwrap rfl hunlocked
    rw [hhead.eq (by simp)]
    exact hcomp.customer _ (s.head?_versions _)

set_option maxRecDepth 100000 in
theorem no_lost_update_twice : ∃ s, Reachable (.shipped 2) s ∧ NoWrap (.shipped 2) s ∧
    (s.lockers (.stock 0 1)).countP Ticket.isNewOrder = 2 ∧
    (s.mem (.stock 0 1)).head.body.S_ORDER_CNT =
      (s.populated (.stock 0 1)).head.body.S_ORDER_CNT + 2 := by
  obtain ⟨s, h, hwrap, hp⟩ := exists_reachable (init_plain (.shipped 2))
    (newOrderAlone 0 ++ newOrderAlone 1)
    (fun s => (s.mem (.stock 0 1)).head.writeTimestamp.isLocked = false &&
      (s.lockers (.stock 0 1)).countP Ticket.isNewOrder = 2)
    (by decide +kernel) (by decide +kernel)
  simp only [Bool.and_eq_true, decide_eq_true_eq] at hp
  have hcnt := ((no_lost_update h hwrap).2.1 0 1 hp.1).1
  rw [hp.2] at hcnt
  exact ⟨s, h, hwrap, hp.2, hcnt⟩

end RdmaSnapshot
