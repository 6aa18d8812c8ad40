import RdmaSnapshot.CommandLog
import RdmaSnapshot.Lib.MixedRadix
import RdmaSnapshot.RandomGenerator

/-!
# The carts of the NewOrders

`NewOrderTransaction::buildCart` draws the cart of a NewOrder. With the constants of the repository,
all ids are in range, the items are different, and the command that is written to the log is shorter
than the space for it.
-/

namespace RdmaSnapshot

open Draws RandomGenerator

/-! ## The settings of `config.hpp` and `TPCCUtil.hpp` -/

namespace TPCCSettings

def SERVER_CNT : ℕ := 3
def WAREHOUSE_PER_SERVER : ℕ := 50
def WAREHOUSE_CNT : ℕ := WAREHOUSE_PER_SERVER * SERVER_CNT
def ITEMS_CNT : ℕ := 100000
def DISTRICT_PER_WAREHOUSE : ℕ := 10
def CUSTOMER_PER_DISTRICT : ℕ := 3000
def ORDER_MIN_OL_CNT : ℕ := 5
def ORDER_MAX_OL_CNT : ℕ := 15
def COMMAND_LOG_SIZE : ℕ := 200

def REMOTE_WAREHOUSE_PERCENT : ℤ := 1

end TPCCSettings

open TPCCSettings

namespace NewOrderTransaction

/-- The warehouse that supplies an item: a remote one for the smallest percentages. The quotient by
100 and the probability are compared as `double`s, and one percent is the same in both. -/
def selectSupplier (homeWarehouseID : UInt16) (percent : ℤ) : Draws ℕ UInt16 :=
  if 1 < WAREHOUSE_CNT ∧ percent ≤ REMOTE_WAREHOUSE_PERCENT then do
    let wID ← numberExcluding 0 (WAREHOUSE_CNT - 1) homeWarehouseID.toNat
    pure (UInt16.ofNat wID.toNat)
  else pure homeWarehouseID

/-- The body of the loop of `buildCart`. -/
def buildItem (homeWarehouseID : UInt16) (iID : UInt32) : Draws ℕ NewOrderItem := do
  let percent ← number 0 100
  let supplier ← selectSupplier homeWarehouseID percent
  let quantity ← number 1 10
  pure ⟨iID, supplier, UInt8.ofNat quantity.toNat⟩

/-- `NewOrderTransaction::buildCart` for the client's home warehouse. The ids of the items are
copied from the set of selected ids in its order. -/
def buildCart (fuel : ℕ) (c : NURandC) (homeWarehouseID : UInt16) :
    Draws ℕ NewOrderCart.Fields := do
  let dID ← number 0 (DISTRICT_PER_WAREHOUSE - 1)
  let cID ← NURand c 1023 0 (CUSTOMER_PER_DISTRICT - 1)
  let ol_cnt ← number ORDER_MIN_OL_CNT ORDER_MAX_OL_CNT
  let uniqueIDSets ← selectZipfIds fuel ol_cnt.toNat ITEMS_CNT
  let items ← uniqueIDSets.toList.mapM (buildItem homeWarehouseID)
  pure ⟨homeWarehouseID, UInt8.ofNat dID.toNat, UInt32.ofNat cID.toNat, items⟩

end NewOrderTransaction

/-! ## Carts in range -/

/-- A line of an item and a warehouse that exist, of one to ten pieces. -/
structure NewOrderItem.InRange (item : NewOrderItem) : Prop where
  I_ID : item.I_ID.toNat < ITEMS_CNT
  OL_SUPPLY_W_ID : item.OL_SUPPLY_W_ID.toNat < WAREHOUSE_CNT
  OL_QUANTITY : 1 ≤ item.OL_QUANTITY.toNat ∧ item.OL_QUANTITY.toNat ≤ 10

namespace NewOrderCart.Fields

/-- A cart of ids that exist, with an admissible number of different items. -/
structure InRange (cart : Fields) : Prop where
  wID : cart.wID.toNat < WAREHOUSE_CNT
  dID : cart.dID.toNat < DISTRICT_PER_WAREHOUSE
  cID : cart.cID.toNat < CUSTOMER_PER_DISTRICT
  items : ORDER_MIN_OL_CNT ≤ cart.items.length ∧ cart.items.length ≤ ORDER_MAX_OL_CNT
  item : ∀ item ∈ cart.items, item.InRange
  distinct : (cart.items.map (·.I_ID)).Nodup

/-! ### The length of the command -/

theorem length_toString_le {n d : ℕ} (hd : 0 < d) (h : n < 10 ^ d) :
    (toString n).toList.length ≤ d := by
  rw [toList_toString]
  exact (Nat.length_toDigits_le_iff (by decide) hd).2 h

/-- At most five digits for the item and three for the warehouse. -/
theorem length_itemText_le {item : NewOrderItem} (h : item.InRange) :
    (itemText (itemKey item)).length ≤ 10 := by
  have hiID := length_toString_le (by decide : 0 < 5) (h.I_ID.trans_eq rfl)
  have hwID := length_toString_le (by decide : 0 < 3) (h.OL_SUPPLY_W_ID.trans_le (by decide))
  simp only [itemText, itemKey, List.length_append, List.length_cons, List.length_nil]
  omega

theorem length_headerText_le {cart : Fields} (h : cart.InRange) :
    (headerText (cart.wID, cart.dID, cart.cID, cart.items.length)).length ≤ 30 := by
  have hwID := length_toString_le (by decide : 0 < 3) (h.wID.trans_le (by decide))
  have hdID := length_toString_le (by decide : 0 < 1) (h.dID.trans_le (by decide))
  have hcID := length_toString_le (by decide : 0 < 4) (h.cID.trans_le (by decide))
  have hcnt := length_toString_le (by decide : 0 < 2)
    (Nat.lt_of_le_of_lt h.items.2 (by decide : ORDER_MAX_OL_CNT < 10 ^ 2))
  -- The id of the customer is printed as an `int`.
  have hprint : toString (cart.cID.toNat : ℤ) = toString cart.cID.toNat := rfl
  have hint : (toString cart.cID.toInt32.toInt).toList.length ≤ 4 := by
    rw [MixedRadix.toInt_toInt32 (h.cID.trans (by decide)), hprint]
    exact hcID
  have hname : "NewOrderTrx:w".toList.length = 13 := by decide
  unfold headerText
  simp only [List.length_append, List.length_cons, List.length_nil, hname]
  omega

theorem length_items_le {items : List NewOrderItem} (h : ∀ item ∈ items, item.InRange) :
    ((items.map itemKey).flatMap itemText).length ≤ 10 * items.length := by
  induction items with
  | nil => simp
  | cons item items ih =>
    have hitem := length_itemText_le (h item List.mem_cons_self)
    have hrest := ih fun item hitem => h item (List.mem_cons_of_mem _ hitem)
    rw [List.map_cons, List.flatMap_cons, List.length_append, List.length_cons]
    omega

theorem length_logMessage_lt {cart : Fields} (h : cart.InRange) :
    cart.logMessage.length < COMMAND_LOG_SIZE := by
  have hheader := length_headerText_le h
  have hitems := length_items_le h.item
  have hcnt := h.items.2
  rw [logMessage_eq_text, List.length_append, COMMAND_LOG_SIZE]
  rw [ORDER_MAX_OL_CNT] at hcnt
  omega

end NewOrderCart.Fields

/-! ## What is built -/

namespace NewOrderTransaction

variable {homeWarehouseID : UInt16}

theorem yields_selectSupplier (hhome : homeWarehouseID.toNat < WAREHOUSE_CNT) (percent : ℤ) :
    Yields (selectSupplier homeWarehouseID percent) fun wID => wID.toNat < WAREHOUSE_CNT := by
  have hcnt : (WAREHOUSE_CNT : ℤ) = 150 := rfl
  refine yields_ite (fun _ => ?_) fun _ => yields_pure hhome
  refine (yields_numberExcluding _ _ _).bind fun wID hwID => yields_pure ?_
  rw [UInt16.toNat_ofNat_of_lt' (by rw [UInt16.size]; omega)]
  omega

theorem yields_buildItem (hhome : homeWarehouseID.toNat < WAREHOUSE_CNT) {iID : UInt32}
    (hiID : iID.toNat < ITEMS_CNT) :
    Yields (buildItem homeWarehouseID iID) fun item => item.I_ID = iID ∧ item.InRange := by
  refine (yields_number 0 100).bind fun percent _ => ?_
  refine (yields_selectSupplier hhome percent).bind fun wID hwID => ?_
  refine (yields_number 1 10).bind fun quantity hquantity => yields_pure ⟨rfl, hiID, hwID, ?_⟩
  rw [UInt8.toNat_ofNat_of_lt' (by rw [UInt8.size]; omega)]
  omega

/-- **Every cart is in range, and its command fits in the log.** For every home warehouse, constants
of the generator and stream on which a cart is built. -/
theorem buildCart_inRange (fuel : ℕ) (c : NURandC) (homeWarehouseID : UInt16)
    (hhome : homeWarehouseID.toNat < WAREHOUSE_CNT) (s s' : ℕ → ℕ) (cart : NewOrderCart.Fields)
    (h : buildCart fuel c homeWarehouseID s = some (cart, s')) :
    cart.InRange ∧ cart.logMessage.length < COMMAND_LOG_SIZE := by
  have hyields : Yields (buildCart fuel c homeWarehouseID) NewOrderCart.Fields.InRange := by
    refine (yields_number _ _).bind fun dID hdID => ?_
    refine (yields_NURand c 1023 (by decide)).bind fun cID hcID => ?_
    refine (yields_number _ _).bind fun ol_cnt hcnt => ?_
    refine (yields_selectZipfIds fuel ol_cnt.toNat (by decide)).bind fun ids hids => ?_
    have hitem : ∀ iID ∈ ids.toList, Yields (buildItem homeWarehouseID iID)
        fun item => item.I_ID = iID ∧ item.InRange := fun iID hiID =>
      yields_buildItem hhome (by exact_mod_cast hids.2 iID hiID)
    refine ((Yields.mapM hitem).and (Yields.mapM_forall fun iID hiID =>
      (hitem iID hiID).imp fun item h => h.2)).bind fun items hitems => yields_pure ?_
    have hsame : ids.toList = items.map (·.I_ID) := by
      rw [← List.forall₂_eq_eq_eq, List.forall₂_map_right_iff]
      exact hitems.1.imp fun iID item h => h.1.symm
    have hlength : items.length = ol_cnt.toNat := by
      rw [← hids.1, hitems.2.1]
    have hd : (DISTRICT_PER_WAREHOUSE : ℤ) = 10 := rfl
    have hc : (CUSTOMER_PER_DISTRICT : ℤ) = 3000 := rfl
    refine ⟨hhome, ?_, ?_, ?_, ?_, ?_⟩
    · rw [UInt8.toNat_ofNat_of_lt' (by rw [UInt8.size]; omega)]
      omega
    · rw [UInt32.toNat_ofNat_of_lt' (by rw [UInt32.size]; omega)]
      omega
    · rw [hlength]
      omega
    · exact hitems.2.2
    · rw [← hsame]
      exact ids.nodup
  have hrange := hyields s cart s' h
  exact ⟨hrange, NewOrderCart.Fields.length_logMessage_lt hrange⟩

/-- A cart of warehouse 7 is built from the stream of all numbers in their order. -/
theorem buildCart_inRange_counting :
    ∃ cart s', buildCart 1 ⟨0, 0, 0⟩ 7 (fun i => i) = some (cart, s') ∧ cart.InRange ∧
      cart.logMessage.length < COMMAND_LOG_SIZE := by
  have hbuilt : (buildCart 1 ⟨0, 0, 0⟩ 7 fun i => i).isSome = true := by decide +kernel
  obtain ⟨⟨cart, s'⟩, h⟩ := Option.isSome_iff_exists.1 hbuilt
  exact ⟨cart, s', h, buildCart_inRange 1 ⟨0, 0, 0⟩ 7 (by decide) _ s' cart h⟩

end NewOrderTransaction

end RdmaSnapshot
