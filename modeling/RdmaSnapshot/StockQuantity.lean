import Mathlib.Data.Int.ModEq
import RdmaSnapshot.LostUpdate

/-!
# The quantity of a stock

A line of a NewOrder takes its quantity from a stock, and adds 91 pieces if fewer than ten would be
left. A stock that starts with 10 to 100 pieces, ordered by one to ten pieces at a time, keeps 10 to
100 pieces; the arithmetic on `uint16_t` never wraps.
-/

namespace RdmaSnapshot

def Stock.InRange (stock : Stock) : Prop :=
  10 ≤ stock.S_QUANTITY.toNat ∧ stock.S_QUANTITY.toNat ≤ 100

instance : DecidablePred Stock.InRange := fun _ => inferInstanceAs (Decidable (_ ∧ _))

/-- The quantity that `buildCart` puts into a line. -/
def NewOrderItem.Regular (item : NewOrderItem) : Prop :=
  1 ≤ item.OL_QUANTITY.toNat ∧ item.OL_QUANTITY.toNat ≤ 10

instance : DecidablePred NewOrderItem.Regular := fun _ => inferInstanceAs (Decidable (_ ∧ _))

namespace NewOrderTransaction

/-- The quantity that is left when `q` pieces are taken from `s`, on unbounded numbers. -/
def quantityLeft (s q : ℤ) : ℤ := if 10 ≤ s - q then s - q else s - q + 91

def stockAfter (stock : Stock) (lines : List NewOrderItem) : Stock :=
  lines.foldl (fun stock item => newStock item stock) stock

variable {stock : Stock} {item : NewOrderItem} {lines : List NewOrderItem}

theorem quantity_newStock (hs : stock.InRange) (hq : item.Regular) :
    ((newStock item stock).S_QUANTITY.toNat : ℤ) =
      quantityLeft stock.S_QUANTITY.toNat item.OL_QUANTITY.toNat := by
  obtain ⟨hlow, hhigh⟩ := hs
  obtain ⟨hmin, hmax⟩ := hq
  have hsub : (stock.S_QUANTITY - item.OL_QUANTITY.toUInt16).toNat =
      stock.S_QUANTITY.toNat - item.OL_QUANTITY.toNat := by
    rw [UInt16.toNat_sub_of_le _ _ (UInt16.le_iff_toNat_le.2 _), UInt8.toNat_toUInt16]
    rw [UInt8.toNat_toUInt16]
    omega
  have hadd : (stock.S_QUANTITY - item.OL_QUANTITY.toUInt16 + 91).toNat =
      stock.S_QUANTITY.toNat - item.OL_QUANTITY.toNat + 91 := by
    have hrefill : (91 : UInt16).toNat = 91 := rfl
    rw [UInt16.toNat_add, hsub, hrefill]
    exact Nat.mod_eq_of_lt (by omega)
  rw [quantityLeft]
  simp only [newStock]
  split
  · rw [hsub, if_pos (by omega)]
    omega
  · rw [hadd, if_neg (by omega)]
    omega

theorem inRange_newStock (hs : stock.InRange) (hq : item.Regular) :
    (newStock item stock).InRange := by
  have h := quantity_newStock hs hq
  obtain ⟨hlow, hhigh⟩ := hs
  obtain ⟨hmin, hmax⟩ := hq
  rw [quantityLeft] at h
  unfold Stock.InRange
  split at h <;> omega

theorem quantityLeft_modEq (s q : ℤ) : quantityLeft s q ≡ s - q [ZMOD 91] := by
  rw [quantityLeft]
  split
  · rfl
  · exact Int.add_modEq_right

/-- A line takes its quantity modulo 91. -/
theorem newStock_modEq (hs : stock.InRange) (hq : item.Regular) :
    ((newStock item stock).S_QUANTITY.toNat : ℤ) ≡
      stock.S_QUANTITY.toNat - item.OL_QUANTITY.toNat [ZMOD 91] := by
  rw [quantity_newStock hs hq]
  exact quantityLeft_modEq _ _

/-- **The quantity stays in range.** For every stock of 10 to 100 pieces and every sequence of lines
of one to ten pieces: after every line there are 10 to 100 pieces, as many as on unbounded numbers,
and the pieces taken so far are missing modulo 91. -/
theorem stock_in_range (stock : Stock) (lines : List NewOrderItem) (hs : stock.InRange)
    (hlines : ∀ item ∈ lines, item.Regular) (n : ℕ) :
    (stockAfter stock (lines.take n)).InRange ∧
    ((stockAfter stock (lines.take n)).S_QUANTITY.toNat : ℤ) =
      ((lines.take n).map fun item => (item.OL_QUANTITY.toNat : ℤ)).foldl quantityLeft
        stock.S_QUANTITY.toNat ∧
    ((stockAfter stock (lines.take n)).S_QUANTITY.toNat : ℤ) ≡
      stock.S_QUANTITY.toNat - ((lines.take n).map fun item => (item.OL_QUANTITY.toNat : ℤ)).sum
      [ZMOD 91] := by
  have htake : ∀ item ∈ lines.take n, item.Regular :=
    fun item h => hlines item (List.mem_of_mem_take h)
  generalize lines.take n = taken at htake
  induction taken generalizing stock with
  | nil => exact ⟨hs, rfl, by simp [stockAfter]⟩
  | cons item taken ih =>
    have hq := htake item List.mem_cons_self
    have hstep := quantity_newStock hs hq
    obtain ⟨hrange, hexact, hmod⟩ := ih (newStock item stock) (inRange_newStock hs hq)
      fun other h => htake other (List.mem_cons_of_mem _ h)
    rw [hstep] at hexact
    refine ⟨hrange, hexact, hmod.trans ?_⟩
    rw [List.map_cons, List.sum_cons, ← sub_sub]
    exact (newStock_modEq hs hq).sub_right _

/-- Eleven pieces are left of twenty, and the next line refills. -/
theorem stock_in_range_refill :
    (stockAfter ⟨1, 0, 20, 0, 0, 0, fun _ => ""⟩ [⟨1, 0, 9⟩, ⟨1, 0, 5⟩]).InRange ∧
      (stockAfter ⟨1, 0, 20, 0, 0, 0, fun _ => ""⟩ [⟨1, 0, 9⟩, ⟨1, 0, 5⟩]).S_QUANTITY = 97 :=
  ⟨(stock_in_range ⟨1, 0, 20, 0, 0, 0, fun _ => ""⟩ [⟨1, 0, 9⟩, ⟨1, 0, 5⟩] (by decide)
    (by decide) 2).1, by decide⟩

end NewOrderTransaction

/-! ## In a run -/

open NewOrderTransaction

variable {cfg : Config} {s : State} {wID : UInt16} {iID : UInt32} {ts : List Ticket}

/-- Along its history a stock stays in range, and what was taken is missing modulo 91. -/
theorem Computed.stock_quantity {v₀ : Version (Row (Key.stock wID iID).table)}
    {vs : List (Version (Row (Key.stock wID iID).table))}
    (h : Computed cfg (.stock wID iID) v₀ ts vs) (hs : v₀.body.InRange)
    (hts : ∀ t ∈ ts, 1 ≤ t.quantity wID iID ∧ t.quantity wID iID ≤ 10) :
    (∀ v ∈ vs, v.body.InRange) ∧ ∀ v ∈ vs.head?, (v.body.S_QUANTITY.toNat : ℤ) ≡
      v₀.body.S_QUANTITY.toNat - (ts.map (Ticket.quantity wID iID)).sum [ZMOD 91] := by
  induction h with
  | start =>
    refine ⟨fun v hv => ?_, fun v hv => ?_⟩
    · rwa [List.mem_singleton.1 hv]
    · cases hv
      simp
  | @install ts x y w past t h hy hb ih =>
    obtain ⟨hrange, hmod⟩ := ih fun t' ht' => hts t' (List.mem_cons_of_mem _ ht')
    have hx := hrange x List.mem_cons_self
    obtain rfl : x = y := (hy.eq (by simp)).symm
    cases hb with
    | @stock cart item ht hi =>
      have hq := hts t List.mem_cons_self
      rw [Ticket.quantity_of_mem ht hi] at hq
      refine ⟨fun v hv => ?_, fun v hv => ?_⟩
      · rcases List.mem_cons.1 hv with rfl | hv
        · exact inRange_newStock hx hq
        · exact hrange v hv
      · cases hv
        rw [List.map_cons, List.sum_cons, Ticket.quantity_of_mem ht hi, Nat.cast_add,
          add_comm, ← sub_sub]
        exact (newStock_modEq hx hq).trans ((hmod _ rfl).sub_right _)

/-- **In every run** in which a stock starts in range and the NewOrders that locked it and did not
revert ordered one to ten pieces: all its versions are in range, and when it is unlocked the pieces
these NewOrders took are missing modulo 91. -/
theorem stock_in_range_of_reachable (h : Reachable cfg s) (hwrap : NoWrap cfg s)
    (hs : (s.populated (.stock wID iID)).head.body.InRange)
    (hts : ∀ t ∈ s.lockers (.stock wID iID), 1 ≤ t.quantity wID iID ∧ t.quantity wID iID ≤ 10) :
    (∀ v ∈ s.versions (.stock wID iID), v.body.InRange) ∧
    ((s.mem (.stock wID iID)).head.writeTimestamp.isLocked = false →
      ((s.mem (.stock wID iID)).head.body.S_QUANTITY.toNat : ℤ) ≡
        (s.populated (.stock wID iID)).head.body.S_QUANTITY.toNat -
          ((s.lockers (.stock wID iID)).map (Ticket.quantity wID iID)).sum [ZMOD 91]) := by
  constructor
  · have hversioned : (Key.stock wID iID).versioned = true := rfl
    obtain ⟨ts, hlockers, hcomp⟩ := (ledger_of_reachable h hwrap hversioned).computed
    refine (hcomp.stock_quantity hs fun t ht => hts t ?_).1
    rw [hlockers]
    exact List.mem_append_right _ ht
  · intro hunlocked
    obtain ⟨hhead, hcomp⟩ := computed_of_unlocked h hwrap rfl hunlocked
    rw [hhead.eq (by simp)]
    exact (hcomp.stock_quantity hs hts).2 _ (s.head?_versions _)

set_option maxRecDepth 100000 in
theorem stock_in_range_twice : ∃ s, Reachable (.shipped 2) s ∧
    (s.versions (.stock 0 1)).length = 3 ∧ ∀ v ∈ s.versions (.stock 0 1), v.body.InRange := by
  obtain ⟨s, hs, hwrap, h⟩ := exists_reachable (init_plain (.shipped 2))
    (newOrderAlone 0 ++ newOrderAlone 1) (fun s => (s.versions (.stock 0 1)).length = 3 ∧
      (s.populated (.stock 0 1)).head.body.InRange ∧
      ∀ t ∈ s.lockers (.stock 0 1), 1 ≤ t.quantity 0 1 ∧ t.quantity 0 1 ≤ 10)
    (by decide +kernel) (by decide +kernel)
  obtain ⟨hlength, hrange, hquantity⟩ := of_decide_eq_true h
  exact ⟨s, hs, hlength, (stock_in_range_of_reachable hs hwrap hrange hquantity).1⟩

end RdmaSnapshot
