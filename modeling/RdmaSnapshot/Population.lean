import RdmaSnapshot.RandomGenerator
import Mathlib.Data.List.Infix
import Mathlib.Data.List.Perm.Lattice

/-!
# Populating the tables

`ItemTable::populate` and `TPCCDB::populateWarehouse` draw the contents of the tables. A tenth of
the items is to be marked as original, and a tenth of the customers of a district is to have bad
credit: both draw a set of ids with `selectUniqueIds`, from `1` to the number of rows, but the rows
are numbered from `0`. The id that is too large marks nothing.
-/

namespace RdmaSnapshot.Population

open Draws RandomGenerator

/-! ## Rows -/

/-- A row, as far as it is marked; what else is drawn for a row only moves the stream on. -/
structure Item where
  I_DATA : List UInt8

structure Customer where
  C_CREDIT : List UInt8

/-! ## How a row is drawn -/

def makeTax : Draws ℕ ℚ := fixedPoint 4 0 (2 / 10)

def makeZip : Draws ℕ (List UInt8) := do
  let digits ← nstring 4 4
  pure (digits ++ ascii "11111")

/-- The lines of the three `initialize` functions that draw an address. -/
def drawAddress : Draws ℕ Unit := do
  let _STREET_1 ← astring 10 20
  let _STREET_2 ← astring 10 20
  let _CITY ← astring 10 20
  let _STATE ← astring 2 2
  let _ZIP ← makeZip
  pure ()

/-- `Stock::setOriginal`, which `Item::initialize` repeats: copies the mark to some place in the
text. -/
def setOriginal (text : List UInt8) : Draws ℕ (List UInt8) := do
  let position ← number 0 (text.length - 8)
  pure (text.take position.toNat ++ ascii "ORIGINAL" ++ text.drop (position.toNat + 8))

/-- The text of a row, with the mark if it is original. -/
def drawData (original : Bool) : Draws ℕ (List UInt8) := do
  let data ← astring 26 50
  if original then setOriginal data else pure data

def Item.initialize (original : Bool) : Draws ℕ Item := do
  let _I_IM_ID ← number 1 10000
  let _I_PRICE ← fixedPoint 2 1 100
  let _I_NAME ← astring 14 24
  let I_DATA ← drawData original
  pure ⟨I_DATA⟩

def Stock.initialize (districtCnt : ℕ) (original : Bool) : Draws ℕ Unit := do
  let _S_QUANTITY ← number 10 100
  let _S_DIST ← (List.range districtCnt).mapM fun _ => astring 23 23
  let _S_DATA ← drawData original
  pure ()

def Warehouse.initialize : Draws ℕ Unit := do
  let _W_TAX ← makeTax
  let _W_NAME ← astring 6 10
  drawAddress

def District.initialize : Draws ℕ Unit := do
  let _D_TAX ← makeTax
  let _D_NAME ← astring 6 10
  drawAddress

/-- The settings of the tables. The counters of the loops are an `unsigned char`, an
`unsigned short` and an `unsigned int`. -/
structure Settings where
  DISTRICT_PER_WAREHOUSE : ℕ
  CUSTOMER_PER_DISTRICT : ℕ
  itemCnt : ℕ
  /-- The constants of the generator. -/
  c : NURandC
  district_le : DISTRICT_PER_WAREHOUSE ≤ 255
  customer_pos : 0 < CUSTOMER_PER_DISTRICT
  customer_le : CUSTOMER_PER_DISTRICT ≤ 65535
  itemCnt_lt : itemCnt < 2 ^ 32

variable (S : Settings)

/-- The first thousand customers of a district have different last names, the others drawn ones. -/
def drawLastName (cID : ℕ) : Draws ℕ (List UInt8) :=
  if cID < 1000 then pure (makeLastName cID) else lastName S.c S.CUSTOMER_PER_DISTRICT

def Customer.initialize (cID : ℕ) (bad_credit : Bool) : Draws ℕ Customer := do
  let _C_DISCOUNT ← fixedPoint 4 0 (5 / 10)
  let _C_FIRST ← astring 6 10
  let _C_LAST ← drawLastName S cID
  drawAddress
  let _C_PHONE ← nstring 16 16
  let _C_DATA ← astring 300 500
  pure ⟨if bad_credit then ascii "BC" else ascii "GC"⟩

/-! ## How a table is drawn -/

/-- The conversion of an unsigned number to `int`. -/
def toInt (n : ℕ) : ℤ :=
  let low : ℕ := n % 2 ^ 32
  if low < 2 ^ 31 then low else low - 2 ^ 32

/-- `ItemTable::populate` for a table of `size_` items. The counter of its loop is an
`unsigned int`; it does not reach a larger size, and the loop does not end. -/
def ItemTable.populate (fuel size_ : ℕ) : Draws ℕ (List Item) := do
  let original_rows ← selectUniqueIds fuel (size_ / 10) 1 (toInt size_)
  if size_ < 2 ^ 32 then
    (List.range size_).mapM fun ItemID =>
      Item.initialize (decide (toInt ItemID ∈ original_rows.toList))
  else failure

def StockTable.populate : Draws ℕ Unit := do
  let _ ← (List.range S.itemCnt).mapM fun _ => do
    let n ← number 1 10
    Stock.initialize S.DISTRICT_PER_WAREHOUSE (decide (n = 10))
  pure ()

def insertCustomers (selected_rows : OrderedSet ℤ (· < ·)) : Draws ℕ (List Customer) :=
  (List.range S.CUSTOMER_PER_DISTRICT).mapM fun cID =>
    Customer.initialize S cID (decide (toInt cID ∈ selected_rows.toList))

/-- The body of the loop of `TPCCDB::populateWarehouse`: the customers of a district. -/
def populateDistrict (fuel : ℕ) : Draws ℕ (List Customer) := do
  District.initialize
  let selected_rows ← selectUniqueIds fuel (S.CUSTOMER_PER_DISTRICT / 10) 1
    (toInt S.CUSTOMER_PER_DISTRICT)
  insertCustomers S selected_rows

def populateWarehouse (fuel : ℕ) : Draws ℕ (List (List Customer)) := do
  StockTable.populate S
  Warehouse.initialize
  (List.range S.DISTRICT_PER_WAREHOUSE).mapM fun _ => populateDistrict S fuel

/-- `populateWarehouse` up to the selection of customers for district `dID`. -/
def beforeSelection (fuel dID : ℕ) : Draws ℕ Unit := do
  StockTable.populate S
  Warehouse.initialize
  let _ ← (List.range dID).mapM fun _ => populateDistrict S fuel
  District.initialize

/-! ## Marks -/

def Item.Original (item : Item) : Prop := ascii "ORIGINAL" <:+: item.I_DATA

instance (item : Item) : Decidable item.Original := inferInstanceAs (Decidable (_ <:+: _))

def Customer.BadCredit (customer : Customer) : Prop := customer.C_CREDIT = ascii "BC"

instance (customer : Customer) : Decidable customer.BadCredit :=
  inferInstanceAs (Decidable (_ = _))

/-- Of the values `1` to `upper` that a selection of `num` ids takes from the stream, `upper` is not
one: if it is drawn at all, then after `num` different ones. -/
def Spares (num : ℕ) (upper : ℤ) (s : ℕ → ℕ) : Prop :=
  ∀ i, reduce 1 upper (s i) = upper → num ≤ (firstValues (reduce 1 upper) s i).card

theorem notMem_selected_iff {fuel num : ℕ} {upper : ℤ} (hupper : 1 ≤ upper) {s s' : ℕ → ℕ}
    {rows : OrderedSet ℤ (· < ·)}
    (h : selectUniqueIds fuel num 1 upper s = some (rows, s')) :
    upper ∉ rows.toList ↔ Spares num upper s := by
  rw [mem_selected_iff (number_apply hupper) h, Spares]
  simp only [not_exists, not_and, Nat.not_lt]

/-- A selection from `1` to `n` marks as many of the rows `0` to `n - 1` as it has ids exactly if
`n` was not selected. -/
theorem countP_mem_iff {rows : OrderedSet ℤ (· < ·)} {n : ℕ}
    (hrows : ∀ x ∈ rows.toList, 1 ≤ x ∧ x ≤ n) :
    (List.range n).countP (fun i : ℕ => decide ((i : ℤ) ∈ rows.toList)) = rows.toList.length ↔
      (n : ℤ) ∉ rows.toList := by
  have hperm : (((List.range n).filter fun i : ℕ => decide ((i : ℤ) ∈ rows.toList)).map
      (Nat.cast : ℕ → ℤ)).Perm (rows.toList.filter fun x => decide (x < n)) := by
    rw [List.perm_ext_iff_of_nodup
      ((List.nodup_range.filter _).map Nat.cast_injective) (rows.nodup.filter _)]
    intro x
    simp only [List.mem_map, List.mem_filter, List.mem_range, decide_eq_true_eq]
    constructor
    · rintro ⟨i, ⟨hi, hmem⟩, rfl⟩
      exact ⟨hmem, by exact_mod_cast hi⟩
    · rintro ⟨hmem, hlt⟩
      have hpos := (hrows x hmem).1
      refine ⟨x.toNat, ⟨by omega, ?_⟩, Int.toNat_of_nonneg (by omega)⟩
      rwa [Int.toNat_of_nonneg (by omega)]
  rw [List.countP_eq_length_filter, ← List.length_map (Nat.cast : ℕ → ℤ), hperm.length_eq,
    List.length_filter_eq_length_iff]
  constructor
  · intro h hmem
    have hlt := h n hmem
    simp at hlt
  · intro h x hx
    have hle := (hrows x hx).2
    have hne : x ≠ n := fun heq => h (heq ▸ hx)
    exact decide_eq_true (by omega)

/-! ## What the rows look like -/

theorem yields_generateString {lower upper : ℤ} {base : UInt8} {num : ℤ}
    (hbase : base.toNat + num ≤ 256) :
    Yields (generateString lower upper base num) fun text =>
      lower ≤ text.length ∧ ∀ c ∈ text, base.toNat ≤ c.toNat := by
  have hchar : Yields (do
      let c ← number 0 (num - 1)
      pure (base + UInt8.ofNat c.toNat)) fun c : UInt8 => base.toNat ≤ c.toNat := by
    refine (yields_number 0 (num - 1)).bind fun c hc => yields_pure ?_
    rw [UInt8.toNat_add, UInt8.toNat_ofNat_of_lt' (by rw [UInt8.size]; omega),
      Nat.mod_eq_of_lt (by omega)]
    omega
  refine (yields_number lower upper).bind fun length hlength => ?_
  refine (Yields.mapM_forall fun _ _ => hchar).imp fun text htext => ⟨?_, htext.2⟩
  rw [htext.1, List.length_range]
  omega

theorem returns_generateString {lower upper : ℤ} (h : lower ≤ upper) {base : UInt8} {num : ℤ}
    (hnum : 0 < num) : Returns (generateString lower upper base num) := by
  refine (returns_number h).bind' fun length => Returns.mapM (fun _ => ?_) _
  exact (returns_number (by omega)).bind' fun c => returns_pure _

theorem returns_fixedPoint {digits : ℕ} {lower upper : ℚ} (h : lower ≤ upper) :
    Returns (fixedPoint digits lower upper) := by
  refine (returns_number (Int.floor_le_floor ?_)).bind' fun value => returns_pure _
  gcongr

theorem yields_drawData (original : Bool) :
    Yields (drawData original) fun data => ascii "ORIGINAL" <:+: data ↔ original = true := by
  refine (yields_generateString (by decide)).bind fun data hdata => ?_
  refine yields_ite (fun horiginal => ?_) fun horiginal => yields_pure ?_
  · refine yields_bind fun position => yields_pure ?_
    exact iff_of_true ⟨_, _, rfl⟩ horiginal
  · refine iff_of_false (fun hinfix => ?_) horiginal
    have hO : (79 : UInt8) ∈ data := hinfix.subset (by decide)
    exact absurd (hdata.2 79 hO) (by decide)

theorem returns_drawData (original : Bool) : Returns (drawData original) := by
  refine (returns_generateString (by decide) (by decide)).bind
    (yields_generateString (by decide)) fun data hdata => ?_
  split
  · exact (returns_number (by omega)).bind' fun position => returns_pure _
  · exact returns_pure _

theorem yields_item (original : Bool) :
    Yields (do Item.initialize original) fun item => item.Original ↔ original = true := by
  refine yields_bind fun _ => yields_bind fun _ => yields_bind fun _ => ?_
  exact (yields_drawData original).bind fun data hdata => yields_pure hdata

theorem returns_item (original : Bool) : Returns <| Item.initialize original := by
  refine (returns_number (by decide)).bind' fun _ => ?_
  refine (returns_fixedPoint (by norm_num)).bind' fun _ => ?_
  refine (returns_generateString (by decide) (by decide)).bind' fun _ => ?_
  exact (returns_drawData original).bind' fun _ => returns_pure _

theorem yields_customer (cID : ℕ) (bad_credit : Bool) :
    Yields (do Customer.initialize S cID bad_credit) fun customer =>
      customer.BadCredit ↔ bad_credit = true := by
  refine yields_bind fun _ => yields_bind fun _ => yields_bind fun _ => ?_
  refine yields_bind fun _ => yields_bind fun _ => yields_bind fun _ => yields_pure ?_
  cases bad_credit with
  | true => exact iff_of_true rfl rfl
  | false =>
    have hne : ascii "GC" ≠ ascii "BC" := by decide
    exact iff_of_false hne (by decide)

theorem returns_drawAddress : Returns drawAddress := by
  refine (returns_generateString (by decide) (by decide)).bind' fun _ => ?_
  refine (returns_generateString (by decide) (by decide)).bind' fun _ => ?_
  refine (returns_generateString (by decide) (by decide)).bind' fun _ => ?_
  refine (returns_generateString (by decide) (by decide)).bind' fun _ => ?_
  refine Returns.bind' ?_ fun _ => returns_pure _
  exact (returns_generateString (by decide) (by decide)).bind' fun _ => returns_pure _

theorem returns_customer (cID : ℕ) (bad_credit : Bool) :
    Returns <| Customer.initialize S cID bad_credit := by
  have hname : Returns (drawLastName S cID) := by
    have hpos := S.customer_pos
    rw [drawLastName]
    split
    · exact returns_pure _
    · exact (returns_NURand rfl (by decide) (by omega)).bind' fun _ => returns_pure _
  refine (returns_fixedPoint (by norm_num)).bind' fun _ => ?_
  refine (returns_generateString (by decide) (by decide)).bind' fun _ => ?_
  refine hname.bind' fun _ => returns_drawAddress.bind' fun _ => ?_
  refine (returns_generateString (by decide) (by decide)).bind' fun _ => ?_
  exact (returns_generateString (by decide) (by decide)).bind' fun _ => returns_pure _

theorem returns_stocks : Returns (StockTable.populate S) := by
  refine (Returns.mapM (fun _ => ?_) _).bind' fun _ => returns_pure _
  refine (returns_number (by decide)).bind' fun n => (returns_number (by decide)).bind' fun _ => ?_
  refine Returns.bind' (Returns.mapM (fun _ => ?_) _) fun _ => ?_
  · exact returns_generateString (by decide) (by decide)
  · exact (returns_drawData _).bind' fun _ => returns_pure _

theorem returns_district : Returns District.initialize := by
  refine (returns_fixedPoint (by norm_num)).bind' fun _ => ?_
  exact (returns_generateString (by decide) (by decide)).bind' fun _ => returns_drawAddress

/-! ## How many rows are marked -/

theorem toInt_of_lt {n : ℕ} (h : n < 2 ^ 31) : toInt n = n := by
  rw [toInt, Nat.mod_eq_of_lt (by omega), if_pos h]

theorem toInt_neg {n : ℕ} (h : 2 ^ 31 ≤ n) (h' : n < 2 ^ 32) : toInt n < 0 := by
  rw [toInt, Nat.mod_eq_of_lt h', if_neg (by omega)]
  omega

/-- The rows of a loop that marks the selected ids. -/
theorem countP_of_forall₂ {α : Type} {p : ℕ → Bool} {q : α → Prop} [DecidablePred q] {l : List ℕ}
    {rows : List α} (h : List.Forall₂ (fun i row => q row ↔ p i = true) l rows) :
    rows.countP (fun row => decide (q row)) = l.countP p := by
  induction h with
  | nil => rfl
  | @cons i row l rows hrow _ ih =>
    have hdecide : decide (q row) = p i := by
      rw [Bool.eq_iff_iff, decide_eq_true_eq, hrow]
    rw [List.countP_cons, List.countP_cons, ih, hdecide]

/-- A loop over `n` rows that marks the ids selected from `1` to `n` marks a tenth of the rows
exactly if the selection spares `n`. -/
theorem countP_marked_iff {α : Type} {q : α → Prop} [DecidablePred q] {fuel n : ℕ} (hpos : 0 < n)
    (hn : n < 2 ^ 31) {s s' : ℕ → ℕ} {selected : OrderedSet ℤ (· < ·)} {rows : List α}
    (hselect : selectUniqueIds fuel (n / 10) 1 (toInt n) s = some (selected, s'))
    (hrows : List.Forall₂ (fun i row => q row ↔ decide (toInt i ∈ selected.toList) = true)
      (List.range n) rows) :
    rows.countP (fun row => decide (q row)) = n / 10 ↔ Spares (n / 10) n s := by
  rw [toInt_of_lt hn] at hselect
  obtain ⟨hlength, hrange⟩ := yields_selectUniqueIds fuel (n / 10) 1 n s selected s' hselect
  have hcount : (List.range n).countP (fun i => decide (toInt i ∈ selected.toList)) =
      (List.range n).countP fun i : ℕ => decide ((i : ℤ) ∈ selected.toList) := by
    refine List.countP_congr fun i hi => ?_
    rw [toInt_of_lt (by have := List.mem_range.1 hi; omega)]
  rw [countP_of_forall₂ hrows, hcount, ← notMem_selected_iff (by omega) hselect,
    ← countP_mem_iff hrange, hlength]

section Main

variable {S} {fuel : ℕ} {s s' : ℕ → ℕ}

/-- No id is selected from an empty interval. -/
theorem selectUniqueIds_eq_none {num : ℕ} {upper : ℤ} (hnum : 0 < num) (hupper : upper < 1) :
    selectUniqueIds fuel num 1 upper s = none := by
  cases h : selectUniqueIds fuel num 1 upper s with
  | none => rfl
  | some r =>
    obtain ⟨hlength, hrange⟩ := yields_selectUniqueIds fuel num 1 upper s r.1 r.2 h
    obtain ⟨x, hx⟩ := List.exists_mem_of_length_pos (by omega : 0 < r.1.toList.length)
    have := hrange x hx
    omega

theorem ItemTable.marks_iff {N : ℕ} (hN : 10 ≤ N)
    (hselect : (selectUniqueIds fuel (N / 10) 1 (toInt N) s).isSome = true) :
    (∃ items s', ItemTable.populate fuel N s = some (items, s') ∧
      items.countP (fun item => decide item.Original) = N / 10) ↔
      N < 2 ^ 32 ∧ Spares (N / 10) N s := by
  obtain ⟨⟨selected, s₁⟩, hselected⟩ := Option.isSome_iff_exists.1 hselect
  by_cases hlarge : N < 2 ^ 32
  · have hN31 : N < 2 ^ 31 := by
      by_contra hge
      have hneg := toInt_neg (by omega) hlarge
      rw [selectUniqueIds_eq_none (by omega) (by omega)] at hselect
      cases hselect
    obtain ⟨items, s₂, hitems⟩ := Returns.mapM (fun ItemID : ℕ => returns_item
      (decide (toInt ItemID ∈ selected.toList))) (List.range N) s₁
    have hpopulate : ItemTable.populate fuel N s = some (items, s₂) := by
      refine run_bind_eq_some.2 ⟨selected, s₁, hselected, ?_⟩
      rw [if_pos hlarge]
      exact hitems
    have hmarks := countP_marked_iff (by omega) hN31 hselected
      (Yields.mapM (fun ItemID _ => yields_item _) s₁ items s₂ hitems)
    constructor
    · rintro ⟨items', s', hpopulate', hcount⟩
      obtain ⟨rfl, -⟩ := Prod.mk.inj (Option.some.inj (hpopulate.symm.trans hpopulate'))
      exact ⟨hlarge, hmarks.1 hcount⟩
    · rintro ⟨-, hspares⟩
      exact ⟨items, s₂, hpopulate, hmarks.2 hspares⟩
  · refine iff_of_false ?_ fun h => hlarge h.1
    rintro ⟨items, s', hpopulate, -⟩
    obtain ⟨rows, s₁, -, hloop⟩ := run_bind_eq_some.1 hpopulate
    rw [if_neg hlarge] at hloop
    cases hloop

theorem populateDistrict_badCredit_iff {customers : List Customer}
    (h : populateDistrict S fuel s = some (customers, s')) :
    ∃ sel, District.initialize s = some ((), sel) ∧
      (customers.countP (fun customer => decide customer.BadCredit) =
        S.CUSTOMER_PER_DISTRICT / 10 ↔
          Spares (S.CUSTOMER_PER_DISTRICT / 10) S.CUSTOMER_PER_DISTRICT sel) := by
  have hcnt := S.customer_le
  obtain ⟨⟨⟩, sel, hdistrict, hrest⟩ := run_bind_eq_some.1 h
  obtain ⟨selected, s₁, hselected, hcustomers⟩ := run_bind_eq_some.1 hrest
  refine ⟨sel, hdistrict, ?_⟩
  exact countP_marked_iff S.customer_pos (by omega) hselected
    (Yields.mapM (fun cID _ => yields_customer S _ _) s₁ customers s' hcustomers)

theorem populateWarehouse_badCredit_iff {districts : List (List Customer)}
    (h : populateWarehouse S fuel s = some (districts, s')) {dID : ℕ}
    (hdID : dID < S.DISTRICT_PER_WAREHOUSE) :
    ∃ sel customers, beforeSelection S fuel dID s = some ((), sel) ∧
      districts[dID]? = some customers ∧
      (customers.countP (fun customer => decide customer.BadCredit) =
        S.CUSTOMER_PER_DISTRICT / 10 ↔
          Spares (S.CUSTOMER_PER_DISTRICT / 10) S.CUSTOMER_PER_DISTRICT sel) := by
  obtain ⟨⟨⟩, s₁, hstocks, hrest⟩ := run_bind_eq_some.1 h
  obtain ⟨⟨⟩, s₂, hwarehouse, hdistricts⟩ := run_bind_eq_some.1 hrest
  obtain ⟨k, hk⟩ := Nat.exists_eq_add_of_lt hdID
  have hrange : List.range S.DISTRICT_PER_WAREHOUSE =
      List.range dID ++ dID :: (List.range k).map (fun i => dID + (i + 1)) := by
    rw [hk, Nat.add_assoc, List.range_add, List.range_succ_eq_map, List.map_cons, List.map_map]
    rfl
  rw [hrange] at hdistricts
  obtain ⟨before, s₄, customers, s₅, hbefore, hcustomers, hget⟩ := run_mapM_append hdistricts
  obtain ⟨sel, hrow, hiff⟩ := populateDistrict_badCredit_iff hcustomers
  rw [List.length_range] at hget
  refine ⟨sel, customers, ?_, hget, hiff⟩
  refine run_bind_eq_some.2 ⟨(), s₁, hstocks, run_bind_eq_some.2 ⟨(), s₂, hwarehouse, ?_⟩⟩
  exact run_bind_eq_some.2 ⟨before, s₄, hbefore, hrow⟩

theorem populateWarehouse_isSome (h : ∀ dID < S.DISTRICT_PER_WAREHOUSE, ∀ sel,
      beforeSelection S fuel dID s = some ((), sel) →
      (selectUniqueIds fuel (S.CUSTOMER_PER_DISTRICT / 10) 1 (toInt S.CUSTOMER_PER_DISTRICT)
        sel).isSome = true) : (populateWarehouse S fuel s).isSome = true := by
  obtain ⟨⟨⟩, s₁, hstocks⟩ := returns_stocks S s
  -- a warehouse draws its row like a district
  obtain ⟨⟨⟩, s₂, hwarehouse⟩ : ∃ a s₂, Warehouse.initialize s₁ = some (a, s₂) :=
    returns_district s₁
  obtain ⟨districts, s', hdistricts⟩ : ∃ districts s', (List.range S.DISTRICT_PER_WAREHOUSE).mapM
      (fun _ => populateDistrict S fuel) s₂ = some (districts, s') := by
    refine exists_run_mapM fun l₁ dID l₂ before s₃ hsplit hbefore => ?_
    have hlt : l₁.length < S.DISTRICT_PER_WAREHOUSE := by
      have hlength := congrArg List.length hsplit
      simp only [List.length_range, List.length_append, List.length_cons] at hlength
      omega
    have hrange : l₁ = List.range l₁.length := by
      have htake := congrArg (List.take l₁.length) hsplit
      rw [List.take_left, List.take_range, Nat.min_eq_left hlt.le] at htake
      exact htake.symm
    rw [hrange] at hbefore
    obtain ⟨⟨⟩, sel, hdistrict⟩ := returns_district s₃
    obtain ⟨⟨selected, s₄⟩, hselected⟩ := Option.isSome_iff_exists.1 (h _ hlt sel
      (run_bind_eq_some.2 ⟨(), s₁, hstocks, run_bind_eq_some.2 ⟨(), s₂, hwarehouse,
        run_bind_eq_some.2 ⟨before, s₃, hbefore, hdistrict⟩⟩⟩))
    obtain ⟨customers, s₅, hcustomers⟩ := Returns.mapM (fun cID => returns_customer S cID
      (decide (toInt cID ∈ selected.toList))) (List.range S.CUSTOMER_PER_DISTRICT) s₄
    exact ⟨customers, s₅, run_bind_eq_some.2 ⟨(), sel, hdistrict,
      run_bind_eq_some.2 ⟨selected, s₄, hselected, hcustomers⟩⟩⟩
  refine Option.isSome_iff_exists.2 ⟨(districts, s'), ?_⟩
  exact run_bind_eq_some.2 ⟨(), s₁, hstocks, run_bind_eq_some.2 ⟨(), s₂, hwarehouse, hdistricts⟩⟩

end Main

/-- A tenth of the items of a table is marked exactly if the counter of the loop reaches the size
and the selection does not take the size itself as an id. A tenth of the customers of a district has
bad credit exactly if the selection for the district does not take their number as an id; a
warehouse is populated if the selections for its districts come to an end. -/
theorem tenPercent_iff (N fuel : ℕ) (S : Settings) (s : ℕ → ℕ) :
    (10 ≤ N → (selectUniqueIds fuel (N / 10) 1 (toInt N) s).isSome = true →
      ((∃ items s', ItemTable.populate fuel N s = some (items, s') ∧
        items.countP (fun item => decide item.Original) = N / 10) ↔
          N < 2 ^ 32 ∧ Spares (N / 10) N s)) ∧
    ((∀ dID < S.DISTRICT_PER_WAREHOUSE, ∀ sel, beforeSelection S fuel dID s = some ((), sel) →
      (selectUniqueIds fuel (S.CUSTOMER_PER_DISTRICT / 10) 1 (toInt S.CUSTOMER_PER_DISTRICT)
        sel).isSome = true) → (populateWarehouse S fuel s).isSome = true) ∧
    ∀ (s' : ℕ → ℕ) (districts : List (List Customer)),
      populateWarehouse S fuel s = some (districts, s') → ∀ dID < S.DISTRICT_PER_WAREHOUSE,
        ∃ sel customers, beforeSelection S fuel dID s = some ((), sel) ∧
          districts[dID]? = some customers ∧
          (customers.countP (fun customer => decide customer.BadCredit) =
            S.CUSTOMER_PER_DISTRICT / 10 ↔
              Spares (S.CUSTOMER_PER_DISTRICT / 10) S.CUSTOMER_PER_DISTRICT sel) :=
  ⟨ItemTable.marks_iff, populateWarehouse_isSome,
    fun _ _ h _ hdID => populateWarehouse_badCredit_iff h hdID⟩

def tenCustomers : Settings where
  DISTRICT_PER_WAREHOUSE := 1
  CUSTOMER_PER_DISTRICT := 10
  itemCnt := 0
  c := ⟨0, 0, 0⟩
  district_le := by decide
  customer_pos := by decide
  customer_le := by decide
  itemCnt_lt := by decide

/-- With the id `1` drawn for ten items and for ten customers, one of them is marked. -/
theorem tenPercent_one : 10 ≤ 10 ∧
    (selectUniqueIds 1 (10 / 10) 1 (toInt 10) fun _ => 0).isSome = true ∧
    (∃ items s', (ItemTable.populate 1 10 fun _ => 0) = some (items, s') ∧
      items.countP (fun item => decide item.Original) = 1) ∧
    ∃ districts s' sel, (populateWarehouse tenCustomers 1 fun _ => 0) = some (districts, s') ∧
      (districts.map fun customers => customers.countP fun customer =>
        decide customer.BadCredit) = [1] ∧
      (beforeSelection tenCustomers 1 0 fun _ => 0) = some ((), sel) ∧ Spares 1 10 sel := by
  have hreduce : reduce 1 10 0 ≠ 10 := by decide
  obtain ⟨hitems, hreturns, hcustomers⟩ := tenPercent_iff 10 1 tenCustomers fun _ => 0
  refine ⟨by decide, by decide, (hitems (by decide) (by decide)).2
    ⟨by decide, fun _ h => absurd h hreduce⟩, ?_⟩
  have hselection : (beforeSelection tenCustomers 1 0 fun _ => 0).all fun r =>
      (selectUniqueIds 1 (10 / 10) 1 (toInt 10) r.2).isSome = true := by decide +kernel
  have hcount : (populateWarehouse tenCustomers 1 fun _ => 0).all fun r =>
      (r.1.map fun customers => customers.countP fun customer =>
        decide customer.BadCredit) = [1] := by decide +kernel
  obtain ⟨⟨districts, s'⟩, hrun⟩ := Option.isSome_iff_exists.1 (hreturns fun dID hdID sel hsel => by
    obtain rfl : dID = 0 := Nat.lt_one_iff.1 hdID
    exact of_decide_eq_true ((Option.all_eq_true _ _).1 hselection _ hsel))
  have hone := of_decide_eq_true ((Option.all_eq_true _ _).1 hcount _ hrun)
  obtain ⟨sel, customers, hsel, hget, hiff⟩ := hcustomers s' districts hrun 0 (by decide)
  have hfirst : customers.countP (fun customer => decide customer.BadCredit) = 1 := by
    have hmap := congrArg (·[0]?) hone
    simpa [hget] using hmap
  exact ⟨districts, s', sel, hrun, hone, hsel, hiff.1 hfirst⟩

/-- The only id drawn for ten items, and for ten customers, is `10`: none of them is marked. -/
theorem not_tenPercent :
    (ItemTable.populate 1 10 fun _ => 9).map
        (fun r => r.1.countP fun item => decide item.Original) = some 0 ∧
      (populateWarehouse tenCustomers 1 fun _ => 9).map
        (fun r => r.1.map fun customers =>
          customers.countP fun customer => decide customer.BadCredit) = some [0] := by
  decide +kernel

end RdmaSnapshot.Population
