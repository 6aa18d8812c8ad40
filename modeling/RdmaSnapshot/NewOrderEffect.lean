import RdmaSnapshot.Isolation
import RdmaSnapshot.Steps.NewOrder
import RdmaSnapshot.Populate

/-!
# The effect of a NewOrder

A NewOrder takes every ordered quantity from its stock and inserts one Order row, one NewOrder row
and one OrderLine row per line. The comments of `doOne` say what a row holds; this module compares
them with what a NewOrder that runs in isolation and commits leaves behind.

The code takes a line for a remote one iff its supplier is warehouse 0, and stores `O_ALL_LOCAL = 1`
in every order. So the effect is the specified one iff all lines are supplied by the home warehouse
and that is not warehouse 0.
-/

namespace RdmaSnapshot.NewOrderTransaction

open DBExecutor

variable {cfg : Config} {s s' s₀ s₁ : State} {c : ClientID} {cl cl' : Client} {k : Key} {o : Owner}
  {cart : NewOrderCart} {v : Verb} {events : List Event} {posted : List Verb}
  {cts oID : UInt32} {item : NewOrderItem} {x : NewOrderItem × ℕ} {answer : IndexAnswer}

/-! ## Specification -/

/-- The stock row that a line of an order at warehouse `wID` should leave behind. -/
def specifiedStock (wID : UInt16) (item : NewOrderItem) (stock : Stock) : Stock :=
  let rest : Int := stock.S_QUANTITY.toNat - item.OL_QUANTITY.toNat
  { stock with
    S_QUANTITY := UInt16.ofInt (if 10 ≤ rest then rest else rest + 91)
    S_YTD := UInt32.ofNat (stock.S_YTD.toNat + item.OL_QUANTITY.toNat)
    S_ORDER_CNT := stock.S_ORDER_CNT + 1
    S_REMOTE_CNT :=
      if item.OL_SUPPLY_W_ID ≠ wID then stock.S_REMOTE_CNT + 1 else stock.S_REMOTE_CNT }

structure IsOrder (cart : NewOrderCart) (oID : UInt32) (order : Order) : Prop where
  key : (order.O_ID, order.O_W_ID, order.O_D_ID) = (oID, cart.wID, cart.dID)
  lines : order.O_OL_CNT.toNat = cart.items.length
  allLocal : order.O_ALL_LOCAL = 1 ↔ ∀ item ∈ cart.items, item.OL_SUPPLY_W_ID = cart.wID

structure IsLine (cart : NewOrderCart) (oID : UInt32) (item : NewOrderItem) (line : OrderLine) :
    Prop where
  key : (line.OL_O_ID, line.OL_W_ID, line.OL_D_ID) = (oID, cart.wID, cart.dID)
  supplier : line.OL_SUPPLY_W_ID = item.OL_SUPPLY_W_ID.toUInt32
  quantity : line.OL_QUANTITY = item.OL_QUANTITY

/-- The rows that client `c` has stored are those of order `oID`. -/
structure Inserted (c : ClientID) (cart : NewOrderCart) (oID : UInt32) (events : List Event) :
    Prop where
  order : ∃ serverNum tableIndex orderV,
    rowsStored .order c events = [⟨.order serverNum tableIndex, orderV⟩] ∧
    IsOrder cart oID orderV.body
  newOrder : ∃ serverNum tableIndex newOrderV,
    rowsStored .newOrder c events = [⟨.newOrder serverNum tableIndex, newOrderV⟩] ∧
    (newOrderV.body.NO_O_ID, newOrderV.body.NO_W_ID, newOrderV.body.NO_D_ID) =
      (oID, cart.wID, cart.dID)
  /-- One row per line, in different places. -/
  lines : ∃ lines : List ((ℕ × ℕ) × Version OrderLine),
    (rowsStored .orderLine c events).Perm
      (lines.map fun line => ⟨.orderLine line.1.1 line.1.2, line.2⟩) ∧
    List.Forall₂ (fun item line => IsLine cart oID item line.2.body) cart.items lines ∧
    (lines.map fun line => line.2.body.OL_NUMBER).Nodup ∧ (lines.map Prod.fst).Nodup

/-- What a NewOrder of `cart`, executed by client `c` between `s₀` and `s`, should have done. -/
structure Effect (s₀ : State) (c : ClientID) (cart : NewOrderCart) (s : State)
    (events : List Event) : Prop where
  stock : ∀ item ∈ cart.items, (s.mem (.stock item.OL_SUPPLY_W_ID item.I_ID)).head.body =
    specifiedStock cart.wID item (s₀.mem (.stock item.OL_SUPPLY_W_ID item.I_ID)).head.body
  inserted : ∃ oID, Inserted c cart oID events
  stored : ∀ t ∈ [Table.order, .newOrder, .orderLine], ∀ r ∈ rowsStored t c events,
    s.mem r.1 = { s₀.mem r.1 with head := r.2 }
  stockFrame : ∀ wID iID, (∀ item ∈ cart.items, (item.OL_SUPPLY_W_ID, item.I_ID) ≠ (wID, iID)) →
    s.mem (.stock wID iID) = s₀.mem (.stock wID iID)
  rowFrame : ∀ k : Key, k.table ∈ [Table.order, .newOrder, .orderLine] →
    (∀ version, ⟨k, version⟩ ∉ rowsStored k.table c events) → s.mem k = s₀.mem k

/-! ## The stock of a line -/

theorem ofInt_toNat (quantity : UInt16) : UInt16.ofInt quantity.toNat = quantity := by
  have hlt : (quantity.toNat : Int) % 2 ^ 16 = quantity.toNat := by
    have := quantity.toNat_lt
    omega
  rw [UInt16.ofInt, hlt, Int.toNat_natCast, UInt16.ofNat_toNat]

theorem ofInt_sub_toNat (quantity : UInt16) (ordered : UInt8) :
    UInt16.ofInt (quantity.toNat - ordered.toNat) = quantity - ordered.toUInt16 := by
  have hordered : ordered.toNat = ordered.toUInt16.toNat := by simp
  rw [Int.sub_eq_add_neg, UInt16.ofInt_add, UInt16.ofInt_neg, hordered, ofInt_toNat, ofInt_toNat,
    UInt16.sub_eq_add_neg]

/-- A line changes its stock as specified iff the code is right about whether it is remote. -/
theorem newStock_eq_iff {wID : UInt16} {stock : Stock} :
    newStock item stock = specifiedStock wID item stock ↔
      (item.OL_SUPPLY_W_ID = 0 ↔ item.OL_SUPPLY_W_ID ≠ wID) := by
  have hcompare : 10 ≤ (stock.S_QUANTITY.toNat : Int) - item.OL_QUANTITY.toNat ↔
      item.OL_QUANTITY.toNat + 10 ≤ stock.S_QUANTITY.toNat := by omega
  have hytd : UInt32.ofNat (stock.S_YTD.toNat + item.OL_QUANTITY.toNat) =
      stock.S_YTD + item.OL_QUANTITY.toUInt32 := by
    rw [UInt32.ofNat_add, UInt32.ofNat_toNat, UInt32.ofNat_uInt8ToNat]
  have hspecified : specifiedStock wID item stock =
      { newStock item stock with
        S_REMOTE_CNT := if item.OL_SUPPLY_W_ID ≠ wID then stock.S_REMOTE_CNT + 1
          else stock.S_REMOTE_CNT } := by
    simp only [newStock, specifiedStock, hcompare, apply_ite UInt16.ofInt, UInt16.ofInt_add,
      ofInt_sub_toNat, hytd]
    rfl
  have hremote : stock.S_REMOTE_CNT + 1 ≠ stock.S_REMOTE_CNT := by simp
  rw [hspecified, newStock, Stock.mk.injEq]
  simp only [true_and, and_true]
  by_cases hcode : item.OL_SUPPLY_W_ID = 0 <;> by_cases hspec : item.OL_SUPPLY_W_ID ≠ wID
  · simp only [if_pos hspec, iff_of_true hcode hspec]
  · simp only [if_pos hcode, if_neg hspec, hremote, false_iff]
    exact fun hiff => hspec (hiff.1 hcode)
  · simp only [if_neg hcode, if_pos hspec, hremote.symm, false_iff]
    exact fun hiff => hcode (hiff.2 hspec)
  · simp only [if_neg hspec, iff_of_false hcode hspec]

/-! ## The verbs of a NewOrder -/

/-- A verb that, of the tables of the specification, changes at most the stocks of the lines. -/
def Harmless (cart : NewOrderCart) (v : Verb) : Prop :=
  ∀ k : Key, k.table ∈ [Table.stock, .order, .newOrder, .orderLine] →
    (∀ x ∈ cart.items.zipIdx, lineKey x ≠ k) → v.touches k = false

theorem harmless_of_touches
    (h : ∀ k, v.touches k = true → k.table = .district ∨ ∃ x ∈ cart.items.zipIdx, lineKey x = k) :
    Harmless cart v := by
  intro k hk hlines
  by_contra htouches
  rcases h k (by simpa using htouches) with hdistrict | ⟨x, hx, heq⟩
  · rw [hdistrict] at hk
    simp at hk
  · exact hlines x hx heq

theorem harmless_district {wID : UInt16} {dID : UInt8}
    (h : ∀ k, v.touches k = true → .district wID dID = k) : Harmless cart v :=
  harmless_of_touches fun k hk => .inl (by rw [← h k hk])

theorem harmless_line (hx : x ∈ cart.items.zipIdx) (h : ∀ k, v.touches k = true → lineKey x = k) :
    Harmless cart v :=
  harmless_of_touches fun k hk => .inr ⟨x, hx, h k hk⟩

theorem harmless_of_read (h : v.kind = .read) : Harmless cart v :=
  fun k _ _ => Verb.touches_of_read h k

def Copied (m₀ : Memory) (cart : NewOrderCart) (cl : Client) : Prop :=
  ∀ x ∈ cart.items.zipIdx, stockV cl x.2 = (m₀ (lineKey x)).head

theorem Copied.names (h : Copied s₀.mem cart cl) (hnames : s₀.RowsNamed) :
    ∀ x ∈ cart.items.zipIdx, (lineKey x).Names (stockV cl x.2).body := by
  intro x hx
  rw [h x hx]
  exact hnames (lineKey x) rfl

theorem harmless_lockPosts {p : Post} (hp : p ∈ lockPosts cfg c cl cart cts) :
    Harmless cart p.verb := by
  rcases List.mem_append.1 hp with hp | hp
  · split at hp
    · cases hp
    · rw [List.mem_singleton.1 hp]
      exact harmless_district fun k hk => of_decide_eq_true hk
  · obtain ⟨x, hx, rfl⟩ := List.mem_map.1 hp
    exact harmless_line hx fun k hk => of_decide_eq_true hk

theorem buffers_newOrder (cart : NewOrderCart) (cl : Client) :
    ({ cl with phase := .newOrder cart .publish } : Client).buffers =
      cl.localMemory .newOrder := rfl

theorem harmless_appendPosts (hs : ∀ x ∈ cart.items.zipIdx, (lineKey x).Names (stockV cl x.2).body)
    (hv : v ∈ (appendPosts cfg cl cart).map (·.verb)) : Harmless cart v := by
  rw [appendPosts_verbs] at hv
  rcases List.mem_append.1 hv with hv | hv
  · unfold districtVerbs at hv
    split at hv
    · cases hv
    · rcases List.mem_pair.1 hv with rfl | rfl <;>
        exact harmless_district fun k hk => of_decide_eq_true hk
  · obtain ⟨x, hx, hvx⟩ := List.mem_flatMap.1 hv
    rw [appendVerbs_eq (hs x hx) (buffers_newOrder cart cl)] at hvx
    rcases List.mem_pair.1 hvx with rfl | rfl <;>
      exact harmless_line hx fun k hk => of_decide_eq_true hk

/-! ## Rows -/

def lineRows (cfg : Config) (c : ClientID) (cl : Client) (cart : NewOrderCart) (cts oID : UInt32)
    (x : NewOrderItem × ℕ) : List PlacedRow :=
  [⟨lineKey x, newStockV cfg c cts x.1 (stockV cl x.2)⟩,
    ⟨orderLineKey cfg c (cl.nextOrderLineID + x.2) cart.wID,
      orderLineV c cl cart cts oID x.1 x.2⟩]

def rows (cfg : Config) (c : ClientID) (cl : Client) (cart : NewOrderCart) (cts oID : UInt32) :
    List PlacedRow :=
  [⟨orderKey cfg c cl.nextOrderID cart.wID, orderV c cart cts oID⟩,
    ⟨newOrderKey cfg c cl.nextNewOrderID cart.wID, newOrderV c cart cts oID⟩] ++
  cart.items.zipIdx.flatMap (lineRows cfg c cl cart cts oID)

theorem installPosts_verbs
    (hs : ∀ x ∈ cart.items.zipIdx, (lineKey x).Names (stockV cl x.2).body) :
    (installPosts cfg c cl cart cts oID).map (·.verb) =
      (rows cfg c cl cart cts oID).map writeRow := by
  rw [installPosts_eq, rows, List.map_append, List.map_append, List.map_flatMap, List.map_flatMap]
  congr 1
  refine List.flatMap_congr fun x hx => ?_
  obtain ⟨-, -, hstock⟩ := updateStock_verbs
    (newStockV cfg c cts x.1 (stockV cl x.2)) (hs x hx) [] true
  simp only [installLine, List.map_cons, List.map_nil]
  rw [hstock]
  rfl

theorem nodup_numbers (cart : NewOrderCart) : (cart.items.zipIdx.map Prod.snd).Nodup := by
  rw [List.zipIdx_map_snd]
  exact List.nodup_range'

theorem nodup_rows : ((rows cfg c cl cart cts oID).map Sigma.fst).Nodup := by
  have hkeys : (rows cfg c cl cart cts oID).map Sigma.fst =
      [orderKey cfg c cl.nextOrderID cart.wID, newOrderKey cfg c cl.nextNewOrderID cart.wID] ++
      cart.items.zipIdx.flatMap fun x =>
        [lineKey x, orderLineKey cfg c (cl.nextOrderLineID + x.2) cart.wID] := by
    rw [rows, List.map_append, List.map_flatMap]
    rfl
  have hlines : (cart.items.zipIdx.flatMap fun x =>
      [lineKey x, orderLineKey cfg c (cl.nextOrderLineID + x.2) cart.wID]).Nodup := by
    rw [List.nodup_flatMap]
    refine ⟨fun x _ => by simp [lineKey, orderLineKey], ?_⟩
    have hstocks : cart.items.zipIdx.Pairwise fun x y => lineKey x ≠ lineKey y :=
      List.pairwise_map.1 nodup_lineKey
    have hnumbers : cart.items.zipIdx.Pairwise fun x y => x.2 ≠ y.2 :=
      List.pairwise_map.1 (nodup_numbers cart)
    refine (hstocks.and hnumbers).imp fun {x y} hxy => ?_
    simp only [Function.onFun, List.disjoint_cons_left, List.mem_cons, List.not_mem_nil, or_false,
      not_or, List.disjoint_nil_left, and_true]
    refine ⟨⟨hxy.1, by simp [lineKey, orderLineKey]⟩, by simp [lineKey, orderLineKey], ?_⟩
    simpa [orderLineKey, orderLineIndex] using hxy.2
  rw [hkeys, List.nodup_append]
  refine ⟨by simp [orderKey, newOrderKey], hlines, fun k hk k' hk' heq => ?_⟩
  obtain ⟨x, -, hmem⟩ := List.mem_flatMap.1 hk'
  simp only [List.mem_cons, List.not_mem_nil, or_false] at hk hmem
  rcases hk with rfl | rfl <;> rcases hmem with rfl | rfl <;> cases heq

theorem mem_rows_line (hx : x ∈ cart.items.zipIdx) :
    ⟨lineKey x, newStockV cfg c cts x.1 (stockV cl x.2)⟩ ∈ rows cfg c cl cart cts oID :=
  List.mem_append_right _ (List.mem_flatMap.2 ⟨x, hx, List.mem_cons_self⟩)

theorem key_of_mem_rows {r : PlacedRow} (hr : r ∈ rows cfg c cl cart cts oID) :
    r.1.table ∈ [Table.order, .newOrder, .orderLine] ∨
      ∃ x ∈ cart.items.zipIdx, r.1 = lineKey x := by
  rcases List.mem_append.1 hr with hr | hr
  · left
    rcases List.mem_pair.1 hr with rfl | rfl <;> simp [orderKey, newOrderKey]
  · obtain ⟨x, hx, hr⟩ := List.mem_flatMap.1 hr
    rcases List.mem_pair.1 hr with rfl | rfl
    · exact .inr ⟨x, hx, rfl⟩
    · exact .inl (by simp [orderLineKey])

theorem filter_rows_order : (rows cfg c cl cart cts oID).filter (fun r => r.1.table = .order) =
    [⟨orderKey cfg c cl.nextOrderID cart.wID, orderV c cart cts oID⟩] := by
  simp [rows, lineRows, List.filter_flatMap, orderKey, newOrderKey, orderLineKey, lineKey]

theorem filter_rows_newOrder :
    (rows cfg c cl cart cts oID).filter (fun r => r.1.table = .newOrder) =
      [⟨newOrderKey cfg c cl.nextNewOrderID cart.wID, newOrderV c cart cts oID⟩] := by
  simp [rows, lineRows, List.filter_flatMap, orderKey, newOrderKey, orderLineKey, lineKey]

theorem filter_rows_orderLine :
    (rows cfg c cl cart cts oID).filter (fun r => r.1.table = .orderLine) =
      cart.items.zipIdx.map fun x => ⟨orderLineKey cfg c (cl.nextOrderLineID + x.2) cart.wID,
        orderLineV c cl cart cts oID x.1 x.2⟩ := by
  rw [List.map_eq_flatMap]
  simp [rows, lineRows, List.filter_flatMap, orderKey, newOrderKey, orderLineKey, lineKey]

/-- What a NewOrder leaves behind when its requests have taken effect; `cl` is the client that has
posted the rows. -/
structure Left (cfg : Config) (s₀ : State) (c : ClientID) (cart : NewOrderCart) (cl : Client)
    (cts oID : UInt32) (s : State) (events : List Event) : Prop where
  stock : ∀ item ∈ cart.items, (s.mem (.stock item.OL_SUPPLY_W_ID item.I_ID)).head.body =
    newStock item (s₀.mem (.stock item.OL_SUPPLY_W_ID item.I_ID)).head.body
  order : rowsStored .order c events =
    [⟨orderKey cfg c cl.nextOrderID cart.wID, orderV c cart cts oID⟩]
  newOrder : rowsStored .newOrder c events =
    [⟨newOrderKey cfg c cl.nextNewOrderID cart.wID, newOrderV c cart cts oID⟩]
  orderLine : (rowsStored .orderLine c events).Perm (cart.items.zipIdx.map fun x =>
    ⟨orderLineKey cfg c (cl.nextOrderLineID + x.2) cart.wID, orderLineV c cl cart cts oID x.1 x.2⟩)
  stored : ∀ t ∈ [Table.order, .newOrder, .orderLine], ∀ r ∈ rowsStored t c events,
    s.mem r.1 = { s₀.mem r.1 with head := r.2 }
  stockFrame : ∀ wID iID, (∀ item ∈ cart.items, (item.OL_SUPPLY_W_ID, item.I_ID) ≠ (wID, iID)) →
    s.mem (.stock wID iID) = s₀.mem (.stock wID iID)
  rowFrame : ∀ k : Key, k.table ∈ [Table.order, .newOrder, .orderLine] →
    (∀ version, ⟨k, version⟩ ∉ rowsStored k.table c events) → s.mem k = s₀.mem k

theorem lineKey_ne (hk : k.table ∈ [Table.order, .newOrder, .orderLine])
    (x : NewOrderItem × ℕ) : lineKey x ≠ k := by
  rintro rfl
  simp [lineKey] at hk

theorem Harmless.row (h : Harmless cart v)
    (hk : k.table ∈ [Table.order, .newOrder, .orderLine]) : v.touches k = false :=
  h k (List.mem_cons_of_mem _ hk) fun x _ => lineKey_ne hk x

/-- **What a NewOrder that commits leaves behind.** -/
theorem left_of_installs (hunder : Underway cfg s₀ c .newOrder s events posted)
    (hnil : (s.clients c).outstanding = []) (hcopied : Copied s₀.mem cart cl)
    (h : Installs (rows cfg c cl cart cts oID) (Harmless cart) posted) :
    Left cfg s₀ c cart cl cts oID s events := by
  have hmem := hunder.mem hnil
  have hrows : ∀ t ∈ [Table.order, .newOrder, .orderLine], (rowsStored t c events).Perm
      ((rows cfg c cl cart cts oID).filter fun r => r.1.table = t) := fun t ht =>
    hunder.rowsStored_of_installs hnil h fun v hv k hk => hv.row (hk ▸ ht)
  refine ⟨?_, ?_, ?_, ?_, ?_, ?_, ?_⟩
  · intro item hitem
    obtain ⟨n, hn⟩ := List.getElem?_of_mem hitem
    have hx : (item, n) ∈ cart.items.zipIdx := List.mem_zipIdx_iff_getElem?.2 hn
    have hhead : (s.mem (lineKey (item, n))).head = newStockV cfg c cts item (stockV cl n) := by
      obtain ⟨before, -, heq⟩ := h.head nodup_rows (mem_rows_line hx)
      rw [hmem, heq]
    rw [hcopied _ hx] at hhead
    exact congrArg Version.body hhead
  · have hperm := hrows .order (by simp)
    rw [filter_rows_order] at hperm
    exact List.perm_singleton.1 hperm
  · have hperm := hrows .newOrder (by simp)
    rw [filter_rows_newOrder] at hperm
    exact List.perm_singleton.1 hperm
  · have hperm := hrows .orderLine (by simp)
    rwa [filter_rows_orderLine] at hperm
  · intro t ht r hr
    obtain ⟨hr, htable⟩ := List.mem_filter.1 ((hrows t ht).subset hr)
    rw [hmem]
    refine h.record nodup_rows hr fun v hv => hv.row ?_
    rw [of_decide_eq_true htable]
    exact ht
  · intro wID iID hother
    have hlines : ∀ x ∈ cart.items.zipIdx, lineKey x ≠ .stock wID iID := by
      intro x hx heq
      obtain ⟨hw, hi⟩ := Key.stock.inj heq
      exact hother x.1 (List.mem_of_getElem? (List.mem_zipIdx_iff_getElem?.1 hx)) (by rw [hw, hi])
    rw [hmem]
    refine h.frame (fun hin => ?_) fun v hv => hv _ (by simp) hlines
    obtain ⟨r, hr, hkey⟩ := List.mem_map.1 hin
    rcases key_of_mem_rows hr with htable | ⟨x, hx, hline⟩
    · rw [hkey] at htable
      simp at htable
    · exact hlines x hx (hline.symm.trans hkey)
  · intro k hk hnot
    rw [hmem]
    refine h.frame (fun hin => ?_) fun v hv => hv.row hk
    obtain ⟨r, hr, rfl⟩ := List.mem_map.1 hin
    refine hnot r.2 ((hrows _ hk).mem_iff.2 (List.mem_filter.2 ⟨hr, ?_⟩))
    exact decide_eq_true rfl

/-! ## When the effect is the specified one -/

/-- The orders for which the effect is the specified one: all lines are supplied by the home
warehouse, it is not warehouse 0, and the lines can be counted in a byte. -/
structure Regular (cart : NewOrderCart) : Prop where
  home : cart.wID ≠ 0
  allLocal : ∀ item ∈ cart.items, item.OL_SUPPLY_W_ID = cart.wID
  lines : cart.items.length < 256

def placedLine (cfg : Config) (c : ClientID) (cl : Client) (cart : NewOrderCart) (cts oID : UInt32)
    (x : NewOrderItem × ℕ) : (ℕ × ℕ) × Version OrderLine :=
  ((cfg.getServerNum cart.wID, orderLineIndex cfg c (cl.nextOrderLineID + x.2)),
    orderLineV c cl cart cts oID x.1 x.2)

theorem Left.inserted (h : Left cfg s₀ c cart cl cts oID s events) (hregular : Regular cart) :
    Inserted c cart oID events where
  order := ⟨_, _, _, h.order, rfl, Nat.mod_eq_of_lt hregular.lines,
    iff_of_true rfl hregular.allLocal⟩
  newOrder := ⟨_, _, _, h.newOrder, rfl⟩
  lines := by
    refine ⟨cart.items.zipIdx.map (placedLine cfg c cl cart cts oID), ?_, ?_, ?_, ?_⟩
    · rw [List.map_map]
      exact h.orderLine
    · have hitems : cart.items.zipIdx.map Prod.fst = cart.items := List.zipIdx_map_fst 0 _
      have hlines : List.Forall₂ (fun item line => IsLine cart oID item line.2.body)
          (cart.items.zipIdx.map Prod.fst)
          (cart.items.zipIdx.map (placedLine cfg c cl cart cts oID)) := by
        rw [List.forall₂_map_left_iff, List.forall₂_map_right_iff, List.forall₂_same]
        exact fun x _ => ⟨rfl, rfl, rfl⟩
      rwa [hitems] at hlines
    · have hnumbers : ((cart.items.zipIdx.map Prod.snd).map UInt8.ofNat).Nodup := by
        refine (nodup_numbers cart).map_on fun m hm n hn heq => ?_
        rw [List.zipIdx_map_snd, List.mem_range'_1] at hm hn
        have hlines := hregular.lines
        have hmod : m % 256 = n % 256 := congrArg UInt8.toNat heq
        omega
      rw [List.map_map] at hnumbers ⊢
      exact hnumbers
    · have hplaces : ((cart.items.zipIdx.map Prod.snd).map fun n => (cfg.getServerNum cart.wID,
          orderLineIndex cfg c (cl.nextOrderLineID + n))).Nodup := by
        refine (nodup_numbers cart).map fun m n heq => ?_
        simpa [orderLineIndex] using heq
      rw [List.map_map] at hplaces ⊢
      exact hplaces

theorem Left.effect_iff_regular (h : Left cfg s₀ c cart cl cts oID s events) :
    Effect s₀ c cart s events ↔ Regular cart := by
  constructor
  · intro heffect
    obtain ⟨oID', hinserted⟩ := heffect.inserted
    obtain ⟨serverNum, tableIndex, orderV, hrows, horder⟩ := hinserted.order
    rw [h.order] at hrows
    obtain ⟨-, rfl⟩ : _ ∧ NewOrderTransaction.orderV c cart cts oID = orderV := by
      simpa [orderKey] using hrows
    have hlocal : ∀ item ∈ cart.items, item.OL_SUPPLY_W_ID = cart.wID := horder.allLocal.1 rfl
    refine ⟨?_, hlocal, ?_⟩
    · obtain ⟨item, hitem⟩ := List.exists_mem_of_ne_nil _ cart.items_ne_nil
      have hstock := (h.stock item hitem).symm.trans (heffect.stock item hitem)
      have hiff := newStock_eq_iff.1 hstock
      rw [hlocal item hitem] at hiff
      exact fun hzero => hiff.1 hzero rfl
    · have hcnt : cart.items.length % 256 = cart.items.length := horder.lines
      omega
  · intro hregular
    refine ⟨fun item hitem => ?_, ⟨oID, h.inserted hregular⟩, h.stored, h.stockFrame, h.rowFrame⟩
    rw [h.stock item hitem, newStock_eq_iff, hregular.allLocal item hitem]
    exact iff_of_false hregular.home (not_not.2 rfl)

/-! ## How far a NewOrder has come -/

def holds : NewOrderPC → Bool
  | .locks _ | .log _ | .nextOID _ => true
  | _ => false

def installed : NewOrderPC → Bool
  | .install _ _ | .register | .publish => true
  | _ => false

/-- How far a NewOrder that was started in `s₀` has come: its client is `cl`, `events` have happened
and it has posted `posted`. -/
inductive Stage (cfg : Config) (s₀ : State) (c : ClientID) (cart : NewOrderCart) (cl : Client)
    (events : List Event) (posted : List Verb) : Prop
  | reading (pc : NewOrderPC) (phase : cl.phase = .newOrder cart pc)
      (status : (Phase.newOrder cart pc).status = .reading)
      (state : Reading s₀.mem c .newOrder (stockSlots cart) cl events posted)
  | holding (pc : NewOrderPC) (phase : cl.phase = .newOrder cart pc) (status : holds pc = true)
      (state : Holding s₀.mem c .newOrder (stockSlots cart) (Harmless cart) cl events posted)
  /-- It gives up. -/
  | reverting (phase : cl.phase = .newOrder cart .reverts) (unfinished : Unfinished c events)
  | aborted (phase : cl.phase = .idle) (outcome : NotCommitted c events)
  /-- The client `poster` has posted the rows. -/
  | committing (phase : (∃ pc, cl.phase = .newOrder cart pc ∧ installed pc = true) ∨
        cl.phase = .idle) (poster : Client) (cts oID : UInt32)
      (copied : Copied s₀.mem cart poster)
      (installs : Installs (rows cfg c poster cart cts oID) (Harmless cart) posted)

/-- A NewOrder in isolation: what every run has in common, and how far it has come. -/
def Progress (cfg : Config) (s₀ : State) (c : ClientID) (cart : NewOrderCart) (s : State) : Prop :=
  ∃ events posted, Underway cfg s₀ c .newOrder s events posted ∧
    Stage cfg s₀ c cart (s.clients c) events posted

variable {i : ℕ} {wr : WorkRequest} {posts pre : List Post} {pc : NewOrderPC} {l : CpuLabel}

theorem Progress.effect (h : Progress cfg s₀ c cart s) (ho : (s.clients c).Oldest cfg i wr) :
    Progress cfg s₀ c cart (s.effect c i wr answer) := by
  obtain ⟨events, posted, hunder, hstage⟩ := h
  have hphase : ((s.effect c i wr answer).clients c).phase = (s.clients c).phase :=
    State.effect_phase
  refine ⟨_, posted, hunder.effect ho, ?_⟩
  cases hstage with
  | reading pc phase status state =>
    exact .reading pc (hphase.trans phase) status (state.effect hunder ho)
  | holding pc phase status state =>
    exact .holding pc (hphase.trans phase) status (state.effect hunder ho)
  | reverting phase unfinished => exact .reverting (hphase.trans phase) (unfinished.cons rfl)
  | aborted phase outcome => exact .aborted (hphase.trans phase) (outcome.cons rfl)
  | committing phase poster cts oID copied installs =>
    exact .committing (by rwa [hphase]) poster cts oID copied installs

theorem Progress.readOracle (h : Progress cfg s₀ c cart s) (g : ℕ) :
    Progress cfg s₀ c cart (s.readOracle g) := by
  obtain ⟨events, posted, hunder, hstage⟩ := h
  refine ⟨_, posted, hunder.readOracle g, ?_⟩
  cases hstage with
  | reading pc phase status state =>
    exact .reading pc phase status { state with unfinished := state.unfinished.cons rfl }
  | holding pc phase status state =>
    exact .holding pc phase status { state with unfinished := state.unfinished.cons rfl }
  | reverting phase unfinished => exact .reverting phase (unfinished.cons rfl)
  | aborted phase outcome => exact .aborted phase (outcome.cons rfl)
  | committing phase poster cts oID copied installs =>
    exact .committing phase poster cts oID copied installs

/-! ## Steps of the CPU -/

theorem copied_of_copying (h : Copying s₀.mem .newOrder (stockSlots cart) cl) (hrest : cl.Rested) :
    Copied s₀.mem cart cl := by
  intro x hx
  have hslot : (lineKey x, x.2) ∈ stockSlots cart :=
    mem_stockSlots.2 ⟨x.1, List.mem_zipIdx_iff_getElem?.1 hx, rfl⟩
  exact h.copied hrest hslot

section Steps

variable (hunder : Underway cfg s₀ c .newOrder s events posted)
  (hrest : ((s.clients c).poll cfg).Rested)
include hunder hrest

theorem progress_read
    (hstate : Reading s₀.mem c .newOrder (stockSlots cart) (s.clients c) events posted)
    (hp : Posted cfg ((s.clients c).poll cfg) cl' (.newOrder cart) posts)
    (hcov : Covering cfg posts)
    (hphase : cl'.phase = .newOrder cart pc) (hstatus : (Phase.newOrder cart pc).status = .reading)
    (hlocal : cl'.localMemory = (s.clients c).localMemory)
    (hreads : ∀ p ∈ posts, p.verb.kind = .read ∧ ∀ n, p.verb.fills .stock n = false) :
    Progress cfg s₀ c cart (s.setClient c cl' o .resume) := by
  refine ⟨_, _, hunder.batch hrest hp hcov rfl, ?_⟩
  rw [State.setClient_clients_self]
  refine .reading pc hphase hstatus (hstate.poll.post hrest hp.verbs (by rw [hlocal]; rfl)
    (List.forall_mem_map.2 fun p hpm => (hreads p hpm).1)
    (List.forall_mem_map.2 fun p hpm x hx hfills => ?_) (fun x hx => .inl hx) rfl)
  rw [table_of_mem_stockSlots hx, (hreads p hpm).2] at hfills
  cases hfills

theorem progress_checkStep
    (hstate : Reading s₀.mem c .newOrder (stockSlots cart) (s.clients c) events posted) :
    Progress cfg s₀ c cart
      (s.setClient c (checkStep cfg c ((s.clients c).poll cfg) cart).1 o .resume) := by
  refine progress_read hunder hrest hstate (posted_post rfl rfl rfl rfl rfl rfl)
    (covering_of_signaled fun p hp => (mem_checkVersions hp).1) rfl rfl rfl fun p hp => ?_
  obtain ⟨k, ind, ts, rfl, hk⟩ := exists_of_mem_checkVersions hp
  have htable : k.table ≠ .stock := by
    simp only [List.mem_cons, List.not_mem_nil, or_false] at hk
    rcases hk with rfl | rfl | rfl <;> simp
  rcases retrieveOlderVersion_cases cfg k ind ts with ⟨slot, heq⟩ | heq <;> rw [heq] <;>
    exact ⟨rfl, fun n => by simp [Verb.fills, htable]⟩

theorem progress_afterReadSet
    (hstate : Reading s₀.mem c .newOrder (stockSlots cart) (s.clients c) events posted)
    (vec : ClientID → UInt32) :
    Progress cfg s₀ c cart
      (s.setClient c (afterReadSet cfg c ((s.clients c).poll cfg) cart vec).1 o
        (afterReadSet cfg c ((s.clients c).poll cfg) cart vec).2) := by
  cases hmode : cfg.SNAPSHOT_ACQUISITION_TYPE with
  | COMPLETE =>
    simp only [afterReadSet, hmode]
    exact progress_checkStep hunder hrest hstate
  | ONLY_READ_SET =>
    simp only [afterReadSet, hmode]
    obtain ⟨vec', posts, heq, hended, hposts⟩ := acquireSnapshot_eq cfg vec ((s.clients c).poll cfg)
      (.newOrder cart .snapshot) (.newOrder cart)
      (clientIDsInReadSet ((s.clients c).poll cfg) cart)
    rw [heq]
    refine progress_read hunder hrest hstate (posted_post rfl rfl rfl rfl rfl rfl)
      (fun p _ _ => hended _) rfl rfl rfl fun p hp => ?_
    rcases hposts p hp with hv | ⟨id, hv⟩ <;> rw [hv] <;> exact ⟨rfl, fun _ => rfl⟩

theorem progress_stop {outcome : Outcome}
    (hstage : Stage cfg s₀ c cart { (s.clients c).poll cfg with phase := .idle }
      (.cpu c o (.finish outcome) :: events) posted) :
    Progress cfg s₀ c cart
      (s.setClient c { (s.clients c).poll cfg with phase := .idle } o (.finish outcome)) := by
  refine ⟨_, posted, hunder.finish hrest rfl rfl rfl rfl, ?_⟩
  rw [State.setClient_clients_self]
  exact hstage

theorem progress_afterOlderVersions
    (hstate : Reading s₀.mem c .newOrder (stockSlots cart) (s.clients c) events posted)
    (abortFlag : Bool) :
    Progress cfg s₀ c cart
      (s.setClient c (afterOlderVersions cfg c ((s.clients c).poll cfg) cart abortFlag).1 o
        (afterOlderVersions cfg c ((s.clients c).poll cfg) cart abortFlag).2) := by
  unfold afterOlderVersions
  split
  · exact progress_stop hunder hrest (.aborted rfl hstate.unfinished.not_committed)
  · have hp : Posted cfg ((s.clients c).poll cfg) (({ ((s.clients c).poll cfg).advanceEpoch with
        phase := .newOrder cart (.locks (((s.clients c).poll cfg).newCommitTimestamp cfg c)) } :
          Client).post (.newOrder cart) (lockPosts cfg c ((s.clients c).poll cfg) cart
            (((s.clients c).poll cfg).newCommitTimestamp cfg c))) (.newOrder cart)
        (lockPosts cfg c ((s.clients c).poll cfg) cart
          (((s.clients c).poll cfg).newCommitTimestamp cfg c)) :=
      posted_post rfl rfl rfl rfl rfl rfl
    have hlock : ∀ p ∈ lockPosts cfg c ((s.clients c).poll cfg) cart
        (((s.clients c).poll cfg).newCommitTimestamp cfg c),
        p.signaled = true ∧ p.verb.kind = .lock ∧ ∀ t n, p.verb.fills t n = false := by
      intro p hpm
      rcases List.mem_append.1 hpm with hpm | hpm
      · split at hpm
        · cases hpm
        · rw [List.mem_singleton.1 hpm]
          exact ⟨rfl, rfl, fun _ _ => rfl⟩
      · obtain ⟨x, -, rfl⟩ := List.mem_map.1 hpm
        exact ⟨rfl, rfl, fun _ _ => rfl⟩
    refine ⟨_, _, hunder.batch hrest hp (covering_of_signaled fun p hpm => (hlock p hpm).1) rfl, ?_⟩
    rw [State.setClient_clients_self]
    refine .holding _ rfl rfl ((hstate.poll.holding hrest fun v => harmless_of_read).post hrest
      hp.verbs rfl (List.forall_mem_map.2 fun p hpm => ?_) rfl)
    refine ⟨harmless_lockPosts hpm, ?_, fun x _ => (hlock p hpm).2.2 _ _⟩
    rw [(hlock p hpm).2.1]
    exact nofun

variable (hstate : Holding s₀.mem c .newOrder (stockSlots cart) (Harmless cart) (s.clients c) events
    posted)
include hstate

theorem progress_hold
    (hp : Posted cfg ((s.clients c).poll cfg) cl' (.newOrder cart) posts)
    (hcov : Covering cfg posts)
    (hphase : cl'.phase = .newOrder cart pc) (hstatus : holds pc = true)
    (hlocal : (cl'.localMemory .newOrder).head = ((s.clients c).localMemory .newOrder).head)
    (hposts : ∀ v ∈ posts.map (·.verb), Harmless cart v ∧ v.kind ≠ .read ∧
      ∀ n, v.fills .stock n = false) :
    Progress cfg s₀ c cart (s.setClient c cl' o .resume) := by
  refine ⟨_, _, hunder.batch hrest hp hcov rfl, ?_⟩
  rw [State.setClient_clients_self]
  refine .holding pc hphase hstatus (hstate.poll.post hrest hp.verbs hlocal (fun v hv => ?_) rfl)
  refine ⟨(hposts v hv).1, (hposts v hv).2.1, fun x hx => ?_⟩
  rw [table_of_mem_stockSlots hx]
  exact (hposts v hv).2.2 x.2

theorem progress_install (hnames : s₀.RowsNamed) (hcopied : Copied s₀.mem cart cl)
    (hp : Posted cfg ((s.clients c).poll cfg) (installStep cfg c cl cart cts oID) (.newOrder cart)
      (pre ++ installPosts cfg c cl cart cts oID))
    (hpre : ∀ p ∈ pre, Harmless cart p.verb ∧ p.verb.lands = false) :
    Progress cfg s₀ c cart (s.setClient c (installStep cfg c cl cart cts oID) o .resume) := by
  have hcov : Covering cfg (pre ++ installPosts cfg c cl cart cts oID) := by
    intro p hpm hlands
    rcases List.mem_append.1 hpm with hpm | hpm
    · simp [(hpre p hpm).2] at hlands
    · simp [(mem_installPosts hpm).1] at hlands
  refine ⟨_, _, hunder.batch hrest hp hcov rfl, ?_⟩
  rw [State.setClient_clients_self]
  refine .committing (.inl ⟨_, rfl, rfl⟩) cl cts oID hcopied
    ⟨posted ++ pre.map (·.verb), [], ?_, fun v hv => ?_, fun v hv => by cases hv⟩
  · rw [List.map_append, installPosts_verbs (hcopied.names hnames), List.append_nil,
      List.append_assoc]
  · rcases List.mem_append.1 hv with hv | hv
    · exact hstate.allowed v hv
    · obtain ⟨p, hpm, rfl⟩ := List.mem_map.1 hv
      exact (hpre p hpm).1

theorem progress_appendStep (hnames : s₀.RowsNamed) (vec : ClientID → UInt32) :
    Progress cfg s₀ c cart
      (s.setClient c (appendStep cfg c
        { (s.clients c).poll cfg with localTimestampVector := vec } cart cts).1 o
        (appendStep cfg c { (s.clients c).poll cfg with localTimestampVector := vec } cart
          cts).2) := by
  have hcopied : Copied s₀.mem cart { (s.clients c).poll cfg with localTimestampVector := vec } :=
    fun x hx => copied_of_copying hstate.copying.poll hrest x hx
  have happend : ∀ p ∈ appendPosts cfg
      { (s.clients c).poll cfg with localTimestampVector := vec } cart, Harmless cart p.verb :=
    fun p hp => harmless_appendPosts (hcopied.names hnames) (List.mem_map_of_mem hp)
  by_cases hcomm : cfg.APPLY_COMMUTATIVE_UPDATES = true
  · rw [appendStep_of_comm hcomm]
    refine progress_hold hunder hrest hstate (posted_post rfl rfl rfl rfl rfl rfl) ?_ rfl rfl rfl ?_
    · intro p hp hlands
      rcases List.mem_append.1 hp with hp | hp
      · simp [(mem_appendPosts hp).1] at hlands
      · rw [List.mem_singleton.1 hp]
        exact endedOn_concat _ rfl rfl
    · refine List.forall_mem_map.2 fun p hp => ?_
      rcases List.mem_append.1 hp with hp | hp
      · have hlands := (mem_appendPosts hp).1
        refine ⟨happend p hp, fun hread => ?_, fun n => ?_⟩
        · simp [Verb.lands_of_read hread] at hlands
        · by_contra hfills
          simp [Verb.lands_of_fills (by simpa using hfills)] at hlands
      · rw [List.mem_singleton.1 hp]
        exact ⟨harmless_district fun k hk => (of_decide_eq_true hk).symm, nofun, fun n => rfl⟩
  · rw [appendStep_of_not_comm (by simpa using hcomm)]
    refine progress_install hunder hrest hstate hnames ?_
      ((posted_districtUpdated _ _).congr rfl rfl rfl rfl) fun p hp => ?_
    · intro x hx
      rw [stockV_districtUpdated]
      exact hcopied x hx
    · rcases List.mem_append.1 hp with hp | hp
      · exact ⟨happend p hp, (mem_appendPosts hp).1⟩
      · rw [List.mem_singleton.1 hp]
        exact ⟨harmless_district fun k hk => of_decide_eq_true hk, rfl⟩

theorem progress_afterLocks (hnames : s₀.RowsNamed) :
    Progress cfg s₀ c cart
      (s.setClient c (afterLocks cfg c ((s.clients c).poll cfg) cart cts).1 o
        (afterLocks cfg c ((s.clients c).poll cfg) cart cts).2) := by
  unfold afterLocks
  split
  · simp only
    split
    · -- the log is written first
      refine progress_hold hunder hrest hstate (posted_postLog rfl rfl rfl rfl hrest.counted
        (by simp [logServers]) rfl rfl) (covering_of_signaled (by simp)) rfl rfl rfl fun v hv => ?_
      obtain ⟨n, rfl⟩ := exists_of_mem_log hv
      exact ⟨fun _ _ _ => rfl, by simp [Verb.kind], fun _ => rfl⟩
    · exact progress_appendStep hunder hrest hstate hnames _
  · have hsignaled : ∀ p ∈ revertPosts cfg ((s.clients c).poll cfg) cart, p.signaled = true := by
      intro p hpm
      rcases List.mem_append.1 hpm with hpm | hpm
      · split at hpm
        · rw [List.mem_singleton.1 hpm]
          rfl
        · cases hpm
      · obtain ⟨x, -, rfl⟩ := List.mem_map.1 hpm
        rfl
    refine ⟨_, _, hunder.batch hrest (posted_post rfl rfl rfl rfl rfl rfl)
      (covering_of_signaled hsignaled) rfl, ?_⟩
    rw [State.setClient_clients_self]
    exact .reverting rfl (hstate.unfinished.cons rfl)

theorem progress_afterNextOID (hnames : s₀.RowsNamed) :
    Progress cfg s₀ c cart
      (s.setClient c (afterNextOID cfg c ((s.clients c).poll cfg) cart cts).1 o .resume) := by
  have hp : Posted cfg ((s.clients c).poll cfg)
      (afterNextOID cfg c ((s.clients c).poll cfg) cart cts).1 (.newOrder cart) ([] ++ _) :=
    posted_install (List.append_nil _).symm rfl rfl rfl
  exact progress_install hunder hrest hstate hnames (copied_of_copying hstate.copying.poll hrest) hp
    fun p hp => by cases hp

omit hstate in
theorem progress_after {poster : Client} (hcopied : Copied s₀.mem cart poster)
    (hinstalls : Installs (rows cfg c poster cart cts oID) (Harmless cart) posted) {p : Post}
    (hp : Posted cfg ((s.clients c).poll cfg) cl' (.newOrder cart) [p]) (hsig : p.signaled = true)
    (hphase : cl'.phase = .newOrder cart pc) (hpc : installed pc = true)
    (htouches : ∀ k, p.verb.touches k = false) :
    Progress cfg s₀ c cart (s.setClient c cl' o .resume) := by
  have hcov : Covering cfg [p] := covering_of_signaled fun p' hp' => by
    rwa [List.mem_singleton.1 hp']
  refine ⟨_, _, hunder.batch hrest hp hcov rfl, ?_⟩
  rw [State.setClient_clients_self]
  refine .committing (.inl ⟨pc, hphase, hpc⟩) poster cts oID hcopied (hinstalls.post fun v hv => ?_)
  rw [List.mem_singleton.1 hv]
  exact htouches

end Steps

/-! ## Runs -/

theorem Progress.cpu (h : Progress cfg s₀ c cart s) (hnames : s₀.RowsNamed)
    {trx : Trx} (htrx : (s.clients c).phase.trx = some trx)
    (hpoll : (s.clients c).pollCnt cfg ≤ (s.clients c).sendCQ) (vec : ClientID → UInt32) :
    Progress cfg s₀ c cart (s.setClient c (((s.clients c).poll cfg).resume cfg vec c).1 o
      (((s.clients c).poll cfg).resume cfg vec c).2) := by
  obtain ⟨events, posted, hunder, hstage⟩ := h
  have hrest := hunder.accounted.poll hpoll
  have hpolled : ((s.clients c).poll cfg).phase = (s.clients c).phase := rfl
  simp only [Client.resume, hpolled]
  cases hstage with
  | reading pc phase status state =>
    simp only [phase]
    cases pc with
    | readSet => exact progress_afterReadSet hunder hrest state vec
    | snapshot => exact progress_checkStep hunder hrest state
    | olderVersions abortFlag => exact progress_afterOlderVersions hunder hrest state abortFlag
    | _ => cases status
  | holding pc phase status state =>
    simp only [phase]
    cases pc with
    | locks cts => exact progress_afterLocks hunder hrest state hnames
    | log cts => exact progress_appendStep hunder hrest state hnames _
    | nextOID cts => exact progress_afterNextOID hunder hrest state hnames
    | _ => cases status
  | reverting phase unfinished =>
    simp only [phase, resume]
    exact progress_stop hunder hrest (.aborted rfl unfinished.not_committed)
  | aborted phase =>
    rw [phase] at htrx
    cases htrx
  | committing phase poster cts oID copied installs =>
    rcases phase with ⟨pc, phase, hpc⟩ | phase
    · simp only [phase]
      cases pc with
      | install cts' oID' =>
        exact progress_after hunder hrest copied installs (posted_post rfl rfl rfl rfl rfl rfl)
          rfl rfl rfl fun _ => rfl
      | register =>
        exact progress_after hunder hrest copied installs (posted_post rfl rfl rfl rfl rfl rfl)
          rfl rfl rfl fun _ => rfl
      | publish =>
        refine ⟨_, posted, hunder.finish hrest rfl rfl rfl rfl, ?_⟩
        rw [State.setClient_clients_self]
        exact .committing (.inr rfl) poster cts oID copied installs
      | _ => cases hpc
    · rw [phase] at htrx
      cases htrx

theorem start_eq_post (cfg : Config) (cl : Client) (cart : NewOrderCart) (vec : ClientID → UInt32) :
    ∃ vec', start cfg { cl with t := cl.t + 1 } cart vec = ({ cl with
      t := cl.t + 1, phase := .newOrder cart .readSet, localTimestampVector := vec' } : Client).post
        (.newOrder cart) (startPosts cfg ++ readSetPosts cfg cart) :=
  exists_start_eq _ vec _

theorem covering_start (cfg : Config) (cart : NewOrderCart) :
    Covering cfg (startPosts cfg ++ readSetPosts cfg cart) := by
  refine Covering.start (fun p hp _ => (endedOn_readSetPosts (mem_readSetPosts hp).1).1)
    fun p hp horacle => ?_
  have hmem := (mem_readSetPosts hp).1
  simp [horacle, servers, Config.qpOf] at hmem

theorem reads_of_mem_start {p : Post} (hp : p ∈ startPosts cfg ++ readSetPosts cfg cart) :
    p.verb.kind = .read ∧ ∀ y ∈ stockSlots cart, p.verb.fills y.1.table y.2 = true →
      p.verb = .readHead y.1 y.2 := by
  rcases List.mem_append.1 hp with hp | hp
  · rw [mem_startPosts hp]
    exact ⟨rfl, fun y _ hfills => by cases hfills⟩
  rw [readSetPosts_eq] at hp
  rcases List.mem_append.1 hp with hp | hp
  · simp only [List.mem_cons, List.not_mem_nil, or_false] at hp
    rcases hp with rfl | rfl | rfl | rfl | rfl | rfl
    all_goals
      refine ⟨rfl, fun y hy hfills => ?_⟩
      rw [table_of_mem_stockSlots hy] at hfills
      simp [retrieveWarehouse, retrieveWarehousePointerList, retrieveDistrict,
        retrieveDistrictPointerList, retrieveCustomer, retrieveCustomerPointerList,
        Verb.fills] at hfills
  · obtain ⟨x, hx, hp⟩ := List.mem_flatMap.1 hp
    simp only [linePosts, List.mem_cons, List.not_mem_nil, or_false] at hp
    rcases hp with rfl | rfl | rfl
    · refine ⟨rfl, fun y hy hfills => ?_⟩
      rw [table_of_mem_stockSlots hy] at hfills
      simp [retrieveItem, Verb.fills] at hfills
    · refine ⟨rfl, fun y hy hfills => ?_⟩
      obtain ⟨item, hitem, hkey⟩ := mem_stockSlots.1 hy
      have hnumber : x.2 = y.2 := (of_decide_eq_true hfills).2
      have hx' := List.mem_zipIdx_iff_getElem?.1 hx
      rw [hnumber, hitem] at hx'
      obtain rfl := Option.some.inj hx'
      rw [hkey, ← hnumber]
      rfl
    · exact ⟨rfl, fun y _ hfills => by cases hfills⟩

theorem progress_start (hrest : (s₀.clients c).Rested) (hnil : (s₀.clients c).outstanding = [])
    (hstart : step cfg s₀ (.newOrder c cart) = some s₁) : Progress cfg s₀ c cart s₁ := by
  obtain ⟨-, hidle, vec, -, rfl⟩ := start_eq_some hstart
  obtain ⟨vec', heq⟩ := start_eq_post cfg (s₀.clients c) cart vec
  rw [heq]
  have hrest' : Client.Rested { s₀.clients c with t := (s₀.clients c).t + 1 } :=
    hrest.congr rfl rfl rfl
  have hp : Posted cfg { s₀.clients c with t := (s₀.clients c).t + 1 }
      (({ s₀.clients c with
        t := (s₀.clients c).t + 1, phase := .newOrder cart .readSet,
        localTimestampVector := vec' } : Client).post (.newOrder cart)
          (startPosts cfg ++ readSetPosts cfg cart)) (.newOrder cart)
      (startPosts cfg ++ readSetPosts cfg cart) := posted_post rfl rfl rfl rfl rfl rfl
  refine ⟨_, _, (Underway.refl hrest hidle hnil).post (hrest'.post hp (covering_start cfg cart))
    (hp.own rfl (by simp [hnil])) hp.verbs, ?_⟩
  rw [State.setClient_clients_self]
  refine .reading .readSet rfl rfl ⟨?_, ?_, rfl⟩
  · exact List.forall_mem_map.2 fun p hpm => (reads_of_mem_start hpm).1
  · refine hrest'.copying hp.verbs (fun y hy => .inl ?_)
      (List.forall_mem_map.2 fun p hpm => (reads_of_mem_start hpm).2)
    obtain ⟨p, hpm, hverb⟩ : ∃ p ∈ readSetPosts cfg cart, p.verb = .readHead y.1 y.2 :=
      exists_readHead (List.mem_append_right _ hy)
    exact List.mem_map.2 ⟨p, List.mem_append_right _ hpm, hverb⟩

/-- **Every run in isolation.** -/
theorem progress_of_isolated (hrest : (s₀.clients c).Rested)
    (hnil : (s₀.clients c).outstanding = []) (hnames : s₀.RowsNamed)
    (hstart : step cfg s₀ (.newOrder c cart) = some s₁) (hs : Isolated cfg c answer s₁ s) :
    Progress cfg s₀ c cart s := by
  refine hs.invariant (fun t ht => ?_) fun t a t' _ hp hok hstep => ?_
  · rw [ht]
    exact progress_start hrest hnil hstart
  · rcases isolated_cases hok hstep with ⟨trx, vec, htrx, hpoll, rfl⟩ | ⟨i, wr, ho, rfl⟩ | ⟨g, rfl⟩
    · exact hp.cpu hnames htrx hpoll vec
    · exact hp.effect ho
    · exact hp.readOracle g

theorem left_of_committed (hrest : (s₀.clients c).Rested)
    (hnil : (s₀.clients c).outstanding = []) (hnames : s₀.RowsNamed)
    (hstart : step cfg s₀ (.newOrder c cart) = some s₁) (hs : Isolated cfg c answer s₁ s)
    (hidle : (s.clients c).phase = .idle) (hdone : (s.clients c).outstanding = [])
    (htrace : s.trace = events ++ s₀.trace)
    (hcommitted : ∃ e ∈ events, e.finishOf c = some .COMMITTED) :
    ∃ poster cts oID, Left cfg s₀ c cart poster cts oID s events := by
  obtain ⟨events', posted, hunder, hstage⟩ := progress_of_isolated hrest hnil hnames hstart hs
  obtain rfl : events' = events := List.append_cancel_right (hunder.trace.symm.trans htrace)
  cases hstage with
  | reading pc phase | holding pc phase =>
    rw [phase] at hidle
    cases hidle
  | reverting phase =>
    rw [phase] at hidle
    cases hidle
  | aborted phase outcome =>
    obtain ⟨e, he, hfinish⟩ := hcommitted
    exact absurd hfinish (outcome e he)
  | committing phase poster cts oID copied installs =>
    exact ⟨poster, cts, oID, left_of_installs hunder hdone copied installs⟩

/-- **The effect of a NewOrder.** For every cart and every state of the database and of the client's
buffers: a NewOrder that is executed in isolation and commits has its effect iff the cart is
regular. -/
theorem newOrderEffect_iff (hrest : (s₀.clients c).Rested)
    (hnil : (s₀.clients c).outstanding = []) (hnames : s₀.RowsNamed)
    (hstart : step cfg s₀ (.newOrder c cart) = some s₁) (hs : Isolated cfg c answer s₁ s)
    (hidle : (s.clients c).phase = .idle) (hdone : (s.clients c).outstanding = [])
    (htrace : s.trace = events ++ s₀.trace)
    (hcommitted : ∃ e ∈ events, e.finishOf c = some .COMMITTED) :
    Effect s₀ c cart s events ↔ Regular cart := by
  obtain ⟨poster, cts, oID, hleft⟩ :=
    left_of_committed hrest hnil hnames hstart hs hidle hdone htrace hcommitted
  exact hleft.effect_iff_regular

/-! ## Two NewOrders -/

/-- An order of five lines at warehouse `wID`, all supplied by it. -/
def homeCart (wID : UInt16) : NewOrderCart where
  wID := wID
  dID := 0
  cID := 0
  items := [⟨1, wID, 5⟩, ⟨2, wID, 5⟩, ⟨3, wID, 5⟩, ⟨4, wID, 5⟩, ⟨5, wID, 5⟩]
  items_ne_nil := by simp
  items_nodup := by simp

/-- The servers hold plain rows, the vector was read, and no client has done anything. -/
def plainRead : State := (plain (.shipped 1)).readOracle 0

theorem rowsNamed_plainRead : plainRead.RowsNamed := fun k _ => names_plainRow k

theorem rested_plainRead : (plainRead.clients 0).Rested :=
  ⟨rfl, rfl, fun _ h => (by cases h), fun _ h => (by cases h)⟩

def startedAt (wID : UInt16) : State :=
  plainRead.setClient 0 (start (.shipped 1)
    { plainRead.clients 0 with t := (plainRead.clients 0).t + 1 } (homeCart wID) fun _ => 0)
      ⟨(plainRead.clients 0).t + 1, .newOrder (homeCart wID)⟩ .begin

theorem exists_ordered (wID : UInt16)
    (h : (Transition.runIf (step (.shipped 1)) (fun _ a => decide (a.isolated 0 .nothing))
      (startedAt wID) ((newOrderAlone 0).drop 2)).any (fun s => decide (s.committed 0 = true)) =
        true) :
    ∃ s events, Isolated (.shipped 1) 0 .nothing (startedAt wID) s ∧
      (s.clients 0).phase = .idle ∧ (s.clients 0).outstanding = [] ∧
      s.trace = events ++ plainRead.trace ∧ ∃ e ∈ events, e.finishOf 0 = some .COMMITTED := by
  refine exists_committed rfl (fun e he => ?_) _ h
  rw [List.mem_singleton.1 he]
  rfl

theorem effect_warehouse_one : ∃ s events, Effect plainRead 0 (homeCart 1) s events := by
  obtain ⟨s, events, hs, hidle, hdone, htrace, hcommitted⟩ := exists_ordered 1 (by decide +kernel)
  exact ⟨s, events, (newOrderEffect_iff rested_plainRead rfl rowsNamed_plainRead rfl hs hidle hdone
    htrace hcommitted).2 ⟨by decide, by decide, by decide⟩⟩

/-- **A NewOrder without its effect.** At warehouse 0 every line counts as remote. -/
theorem not_effect_warehouse_zero : ∃ s events,
    step (.shipped 1) plainRead (.newOrder 0 (homeCart 0)) = some (startedAt 0) ∧
    Isolated (.shipped 1) 0 .nothing (startedAt 0) s ∧ (s.clients 0).phase = .idle ∧
    (s.clients 0).outstanding = [] ∧ s.trace = events ++ plainRead.trace ∧
    (∃ e ∈ events, e.finishOf 0 = some .COMMITTED) ∧
    ¬ Effect plainRead 0 (homeCart 0) s events := by
  obtain ⟨s, events, hs, hidle, hdone, htrace, hcommitted⟩ := exists_ordered 0 (by decide +kernel)
  refine ⟨s, events, rfl, hs, hidle, hdone, htrace, hcommitted, fun heffect => ?_⟩
  obtain ⟨poster, cts, oID, hleft⟩ := left_of_committed rested_plainRead rfl rowsNamed_plainRead rfl
    hs hidle hdone htrace hcommitted
  exact (hleft.effect_iff_regular.1 heffect).home rfl

end RdmaSnapshot.NewOrderTransaction
