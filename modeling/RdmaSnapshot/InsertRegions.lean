import RdmaSnapshot.OrderRing
import RdmaSnapshot.Course
import RdmaSnapshot.Lib.MixedRadix

/-!
# Insert regions

The Order, NewOrder, OrderLine and History tables of a server are divided into slices, one for
each client. A committing NewOrder or Payment inserts its rows at the places its row counters
name in the slice of its client. This module shows that the rows it inserts are never outside that
slice, and that the lines of an order are not split at the end of it.
-/

namespace RdmaSnapshot

open DBExecutor NewOrderTransaction

variable {cfg : Config} {s s' : State} {c c' : ClientID} {cl cl' : Client} {o : Owner}
  {l : CpuLabel} {trx : Trx} {posts : List Post} {vec : ClientID → UInt32}

/-! ## Inserted rows -/

inductive InsertTable
  | order | newOrder | orderLine | history
  deriving DecidableEq

/-- A row of such a table: its server and its index in the table. -/
structure InsertedRow where
  table : InsertTable
  serverNum : ℕ
  tableIndex : ℕ
  deriving DecidableEq

/-- The row that a verb of a NewOrder or a Payment inserts. A Delivery uses the same functions of
`DBExecutor` to change rows that exist. -/
def Trx.insertedRow : Trx → Verb → Option InsertedRow
  | .newOrder _, .writeHead (.order serverNum i) _ => some ⟨.order, serverNum, i⟩
  | .newOrder _, .writeHead (.newOrder serverNum i) _ => some ⟨.newOrder, serverNum, i⟩
  | .newOrder _, .writeHead (.orderLine serverNum i) _ => some ⟨.orderLine, serverNum, i⟩
  | .payment _, .writeHead (.history serverNum i) _ => some ⟨.history, serverNum, i⟩
  | _, _ => none

def WorkRequest.insertedRow (wr : WorkRequest) : Option InsertedRow :=
  wr.owner.trx.insertedRow wr.verb

def insertedRows (l : List WorkRequest) : List InsertedRow := l.filterMap (·.insertedRow)

def orderLineIndices (rows : List InsertedRow) : List ℕ :=
  rows.filterMap fun row => if row.table = .orderLine then some row.tableIndex else none

def Config.sliceSize (cfg : Config) : InsertTable → ℕ
  | .order | .newOrder => cfg.ORDER_BUFFER_PER_CLIENT
  | .orderLine => cfg.ORDER_BUFFER_PER_CLIENT * cfg.ORDER_MAX_OL_CNT
  | .history => cfg.HISTORY_BUFFER_PER_CLIENT

/-- The sizes with which `TPCCServer` allocates the tables. -/
def Config.tableSize (cfg : Config) : InsertTable → ℕ
  | .order => cfg.clientCnt * cfg.ORDER_BUFFER_PER_CLIENT
  | .newOrder => cfg.clientCnt * cfg.ORDER_BUFFER_PER_CLIENT
  | .orderLine => cfg.clientCnt * cfg.ORDER_MAX_OL_CNT * cfg.ORDER_BUFFER_PER_CLIENT
  | .history => cfg.clientCnt * cfg.HISTORY_BUFFER_PER_CLIENT

def CartsFit (cfg : Config) (_ : State) : Action → Prop
  | .newOrder _ cart => cart.items.length ≤ cfg.ORDER_MAX_OL_CNT
  | _ => True

instance (cfg : Config) (s : State) (a : Action) : Decidable (CartsFit cfg s a) := by
  cases a <;> unfold CartsFit <;> infer_instance

def PostsInRun (cfg : Config) (c : ClientID) (posted : List WorkRequest) : Prop :=
  ∃ s a s', ReachableBy cfg (CartsFit cfg) s ∧ step cfg s a = some s' ∧
    CartsFit cfg s a ∧ (s'.clients c).outstanding = (s.clients c).outstanding ++ posted

/-- The rows inserted by requests of client `c` are in its slices, inside the tables; the lines of
an order have consecutive indices. -/
structure PrivateInserts (cfg : Config) (c : ClientID) (posted : List WorkRequest) : Prop where
  slice : ∀ row ∈ insertedRows posted,
    c.toNat * cfg.sliceSize row.table ≤ row.tableIndex ∧
      row.tableIndex < (c.toNat + 1) * cfg.sliceSize row.table ∧
      row.tableIndex < cfg.tableSize row.table
  lines : orderLineIndices (insertedRows posted) = [] ∨ ∃ t cart first,
    (∀ wr ∈ posted, wr.owner = ⟨t, .newOrder cart⟩) ∧
      orderLineIndices (insertedRows posted) = List.range' first cart.items.length

/-! ## The rows of one step -/

def Trx.insertedRows (trx : Trx) (posts : List Post) : List InsertedRow :=
  posts.filterMap fun p => trx.insertedRow p.verb

theorem insertedRows_append (l₁ l₂ : List WorkRequest) :
    insertedRows (l₁ ++ l₂) = insertedRows l₁ ++ insertedRows l₂ :=
  List.filterMap_append

theorem Trx.insertedRows_append (posts₁ posts₂ : List Post) :
    trx.insertedRows (posts₁ ++ posts₂) = trx.insertedRows posts₁ ++ trx.insertedRows posts₂ :=
  List.filterMap_append

theorem insertedRows_map (o : Owner) (posts : List Post) :
    insertedRows (posts.map fun p => ⟨o, p.verb, p.signaled⟩) = o.trx.insertedRows posts := by
  simp only [insertedRows, Trx.insertedRows, List.filterMap_map]
  rfl

@[simp] theorem insertedRows_post (cl : Client) (trx : Trx) (posts : List Post) :
    insertedRows (cl.post trx posts).outstanding =
      insertedRows cl.outstanding ++ trx.insertedRows posts := by
  simp only [Client.post, insertedRows_append, insertedRows_map]

@[simp] theorem insertedRows_postLog (cl : Client) (trx : Trx) (servers : List ℕ) :
    insertedRows (cl.postLog trx servers).outstanding = insertedRows cl.outstanding := by
  have hnone : ∀ n, trx.insertedRow (.writeLog n) = none := by
    intro n
    cases trx <;> rfl
  simp [Client.postLog, insertedRows, WorkRequest.insertedRow, hnone]

theorem Trx.insertedRow_of_kind {v : Verb} (h : v.kind ≠ .commit) : trx.insertedRow v = none := by
  cases v with
  | writeHead k w => exact absurd rfl h
  | _ => cases trx <;> rfl

def NewOrderTransaction.orderRows (cfg : Config) (c : ClientID) (cl : Client)
    (cart : NewOrderCart) : List InsertedRow :=
  [⟨.order, cfg.getServerNum cart.wID,
      c.toNat * cfg.ORDER_BUFFER_PER_CLIENT + cl.nextOrderID⟩,
    ⟨.newOrder, cfg.getServerNum cart.wID,
      c.toNat * cfg.ORDER_BUFFER_PER_CLIENT + cl.nextNewOrderID⟩] ++
  (List.range' (orderLineIndex cfg c cl.nextOrderLineID) cart.items.length).map
    fun i => ⟨.orderLine, cfg.getServerNum cart.wID, i⟩

/-- The rows that a stretch of code inserts: none, the rows of an order, or a History row. The
counters are those at its end. -/
inductive InsertStep (cfg : Config) (c : ClientID) (cl' : Client) : Trx → List InsertedRow → Prop
  | none (trx : Trx) : InsertStep cfg c cl' trx []
  | order (cart : NewOrderCart) (reserved : cl'.phase.reserved = some cart) :
      InsertStep cfg c cl' (.newOrder cart) (orderRows cfg c cl' cart)
  | history (cart : PaymentCart) (serverNum : ℕ) (install : cl'.phase = .payment cart .install) :
      InsertStep cfg c cl' (.payment cart)
        [⟨.history, serverNum, c.toNat * cfg.HISTORY_BUFFER_PER_CLIENT + cl'.nextHistoryID⟩]

def Inserts (cfg : Config) (c : ClientID) (cl cl' : Client) (trx : Trx) : Prop :=
  ∃ rows, insertedRows cl'.outstanding = insertedRows cl.outstanding ++ rows ∧
    InsertStep cfg c cl' trx rows

namespace NewOrderTransaction

variable {cart : NewOrderCart} {pc : NewOrderPC}

theorem insertedRows_installPosts (cl : Client) (cts assignedOID : UInt32) :
    (Trx.newOrder cart).insertedRows (installPosts cfg c cl cart cts assignedOID) =
      orderRows cfg c cl cart := by
  have hlines : (Trx.newOrder cart).insertedRows
      (cart.items.zipIdx.flatMap (installLine cfg c cl cart cts assignedOID)) =
      cart.items.zipIdx.map fun x => ⟨.orderLine, cfg.getServerNum cart.wID,
        orderLineIndex cfg c cl.nextOrderLineID + x.2⟩ := by
    rw [Trx.insertedRows, List.filterMap_flatMap, List.map_eq_flatMap]
    refine List.flatMap_congr fun x _ => ?_
    have hline : ∀ n, orderLineIndex cfg c (cl.nextOrderLineID + n) =
        orderLineIndex cfg c cl.nextOrderLineID + n := by
      intro n
      simp only [orderLineIndex]
      omega
    simp only [← hline]
    rfl
  rw [installPosts_eq, Trx.insertedRows_append, hlines, orderRows]
  have hnumbers : cart.items.zipIdx.map Prod.snd = List.range cart.items.length := by
    simp [List.range_eq_range']
  rw [List.range'_eq_map_range, List.map_map, ← hnumbers, List.map_map]
  rfl

theorem insertedRows_appendPosts (cl : Client) :
    (Trx.newOrder cart).insertedRows (appendPosts cfg cl cart) = [] := by
  rw [Trx.insertedRows, List.filterMap_eq_nil_iff]
  intro p hp
  rcases List.mem_append.1 hp with hp | hp
  · split at hp
    · cases hp
    · rcases List.mem_pair.1 hp with rfl | rfl <;> rfl
  · obtain ⟨x, -, hp⟩ := List.mem_flatMap.1 hp
    rcases List.mem_pair.1 hp with rfl | rfl <;> rfl

theorem insertedRows_installStep (cl : Client) (cts assignedOID : UInt32) :
    insertedRows (installStep cfg c cl cart cts assignedOID).outstanding =
      insertedRows cl.outstanding ++
        orderRows cfg c (installStep cfg c cl cart cts assignedOID) cart := by
  have hrows : orderRows cfg c (installStep cfg c cl cart cts assignedOID) cart =
      orderRows cfg c cl cart := rfl
  rw [hrows, installStep, insertedRows_post, insertedRows_installPosts]
  rfl

end NewOrderTransaction

theorem Trx.insertedRows_delivery {cart : DeliveryCart} {dID : UInt8} (posts : List Post) :
    (Trx.delivery cart dID).insertedRows posts = [] := by
  rw [insertedRows, List.filterMap_eq_nil_iff]
  intro p _
  rfl

theorem EntersCommit.inserts {p : Phase} {base : Client} (h : EntersCommit cfg c base p cl')
    (htrx : p.trx = some trx) (hout : base.outstanding = cl.outstanding) :
    Inserts cfg c cl cl' trx := by
  cases h with
  | append cart cts =>
    cases htrx
    refine ⟨[], ?_, .none _⟩
    rw [insertedRows_post, Trx.insertedRows_append, insertedRows_appendPosts,
      ← hout]
    rfl
  | newOrder cart cts =>
    cases htrx
    refine ⟨_, ?_, .order cart rfl⟩
    rw [insertedRows_installStep, districtUpdated,
      insertedRows_post]
    congr 1
    refine (List.append_nil _).trans ?_
    refine (insertedRows_post ..).trans ?_
    rw [insertedRows_appendPosts, List.append_nil, ← hout]
    rfl
  | payment cart cID cts =>
    cases htrx
    rw [Inserts, ← hout]
    exact ⟨_, insertedRows_post .., .history cart _ rfl⟩
  | delivery cart dID cID cts =>
    cases htrx
    refine ⟨[], ?_, .none _⟩
    rw [DeliveryTransaction.installStep, insertedRows_post, Trx.insertedRows_delivery, ← hout]
    rfl

theorem Stretch.inserts (h : Stretch cfg vec c cl trx cl' l) : Inserts cfg c cl cl' trx := by
  -- batches that insert nothing
  have hpost : ∀ {base : Client} {posts : List Post}, base.outstanding = cl.outstanding →
      (∀ q ∈ posts, trx.insertedRow q.verb = none) →
      Inserts cfg c cl (base.post trx posts) trx := by
    intro base posts hout hposts
    refine ⟨[], ?_, .none _⟩
    rw [insertedRows_post, Trx.insertedRows, List.filterMap_eq_nil_iff.2 hposts, hout]
  have hkind : ∀ {v : Verb} {kind : VerbKind}, v.kind = kind → kind ≠ .commit →
      trx.insertedRow v = none :=
    fun hv hk => Trx.insertedRow_of_kind (hv.trans_ne hk)
  cases h with
  | call | stop | abort | finish | finishNewOrder => exact ⟨[], (List.append_nil _).symm, .none _⟩
  | start _ h =>
    refine hpost rfl fun q hq => ?_
    rcases List.mem_append.1 hq with hq | hq
    · rw [mem_startPosts hq]
      exact hkind rfl nofun
    · exact hkind (Verb.of_fetches (h.fetches q hq)).1 nofun
  | read h => exact hpost rfl fun q hq => hkind (Verb.of_fetches (h.fetches q hq)).1 nofun
  | snapshot _ _ hposts =>
    refine hpost rfl fun q hq => ?_
    rcases hposts q hq with hv | ⟨id, hv⟩ <;> rw [hv] <;> exact hkind rfl nofun
  | lock h =>
    refine hpost rfl fun q hq => ?_
    obtain ⟨k, oldTS, offset, b, hv⟩ := h.swaps q hq
    rw [hv]
    exact hkind rfl nofun
  | giveUp h =>
    refine hpost rfl fun q hq => ?_
    obtain ⟨⟨k, cls, t, i, hv⟩, -⟩ := h.restores q hq
    rw [hv]
    exact hkind rfl nofun
  | log => exact ⟨[], by rw [insertedRows_postLog, List.append_nil]; rfl, .none _⟩
  | commit htrx hbase h =>
    rcases hbase with ⟨-, rfl⟩ | ⟨-, rfl⟩ <;> exact h.inserts htrx rfl
  | insert => exact ⟨_, insertedRows_installStep .., .order _ rfl⟩
  | register h | publish h =>
    cases h <;> refine hpost rfl fun q hq => ?_ <;> rw [List.mem_singleton.1 hq] <;> rfl

/-- **What a client inserts** between two poll loops. -/
theorem ClientStep.inserts (h : ClientStep cfg vec c cl cl' o l) :
    Inserts cfg c cl cl' o.trx := by
  obtain ⟨n, m, trx, rfl, hstretch⟩ := h.stretch
  exact hstretch.inserts

/-! ## The counter of the History rows -/

theorem EntersCommit.nextHistoryID {p : Phase} (h : EntersCommit cfg c cl p cl') :
    cl'.nextHistoryID = cl.nextHistoryID := by
  cases h with
  | newOrder cart cts =>
    simp only [installStep, districtUpdated,
      appended, Client.post, Client.setLocal]
  | append | payment | delivery => rfl

/-- A Payment advances the counter when its History row is written. -/
theorem Stretch.nextHistoryID (h : Stretch cfg vec c cl trx cl' l) :
    cl'.nextHistoryID = cl.nextHistoryID ∨
      cl'.nextHistoryID = (cl.nextHistoryID + 1) % cfg.HISTORY_BUFFER_PER_CLIENT := by
  cases h with
  | commit _ hbase h =>
    rcases hbase with ⟨-, rfl⟩ | ⟨-, rfl⟩ <;> exact .inl h.nextHistoryID
  | publish h =>
    cases h with
    | newOrder | delivery => exact .inl rfl
    | payment => exact .inr rfl
  | _ => exact .inl rfl

theorem ClientStep.nextHistoryID (h : ClientStep cfg vec c cl cl' o l) :
    cl'.nextHistoryID = cl.nextHistoryID ∨
      cl'.nextHistoryID = (cl.nextHistoryID + 1) % cfg.HISTORY_BUFFER_PER_CLIENT := by
  obtain ⟨n, m, trx, -, hstretch⟩ := h.stretch
  exact hstretch.nextHistoryID

/-! ## Runs -/

theorem Phase.status_of_newOrder {p : Phase} {cart : NewOrderCart}
    (h : p.trx = some (.newOrder cart)) : p.status ≠ .idle := by
  cases p with
  | newOrder cart' pc => cases pc <;> simp [status]
  | _ => simp [trx] at h

theorem ClientStep.trx_eq {trx : Trx} (h : ClientStep cfg vec c cl cl' o l)
    (htrx : cl'.phase.trx = some trx) (hstatus : cl'.phase.status ≠ .idle) :
    cl.phase.trx = some trx ∨ l = .begin ∧ o.trx = trx := by
  obtain ⟨posts, hadv⟩ := h.advance
  obtain rfl : o.trx = trx := Option.some.inj ((hadv.trx hstatus).symm.trans htrx)
  cases h with
  | newOrder | payment => exact .inr ⟨rfl, rfl⟩
  | delivery hc hidle cart =>
    refine absurd ?_ hstatus
    simp only
    split <;> rfl
  | resume htrx' _ => exact .inl htrx'

theorem newOrder_of_step {a : Action} {cart : NewOrderCart} (h : step cfg s a = some s')
    (hcart : (s'.clients c).phase.trx = some (.newOrder cart)) :
    (s.clients c).phase.trx = some (.newOrder cart) ∨ a = .newOrder c cart := by
  rcases step_moves h c with ⟨vec, cl, o, l, hrun, hstep, rfl⟩ | hu
  · rw [State.setClient_clients_self] at hcart
    rcases hstep.trx_eq hcart (Phase.status_of_newOrder hcart) with hold | ⟨rfl, htrx⟩
    · exact .inl hold
    · by_cases hidle : (s.clients c).phase = .idle
      · exact .inr (hrun.newOrder hidle cart htrx)
      · exact .inl (htrx ▸ hstep.trx_of_ne_idle hidle)
  · exact .inl (hu.phase ▸ hcart)

/-- What the slices of a client need: it is one of the clients the tables were allocated for, its
orders have as many lines as its slice was made for, and the History counter is inside its
slice. -/
structure SliceInv (cfg : Config) (c : ClientID) (cl : Client) : Prop where
  active : cl.phase ≠ .idle → c.toNat < cfg.clientCnt
  fits : ∀ cart, cl.phase.trx = some (.newOrder cart) →
    cart.items.length ≤ cfg.ORDER_MAX_OL_CNT
  nextHistoryID : cl.nextHistoryID < cfg.HISTORY_BUFFER_PER_CLIENT

/-- A client that runs is one of those the system was started with. -/
theorem ClientStep.active (h : ClientStep cfg vec c cl cl' o l)
    (hcl : cl.phase ≠ .idle → c.toNat < cfg.clientCnt) : c.toNat < cfg.clientCnt := by
  cases h with
  | newOrder hc | payment hc | delivery hc => exact hc
  | resume htrx _ =>
    refine hcl fun hidle => ?_
    simp [hidle, Phase.trx] at htrx

theorem sliceInv_of_reachable (hH : 0 < cfg.HISTORY_BUFFER_PER_CLIENT)
    (h : ReachableBy cfg (CartsFit cfg) s) (c : ClientID) : SliceInv cfg c (s.clients c) := by
  refine h.invariant (P := fun s => SliceInv cfg c (s.clients c)) ?_ ?_
  · intro s hs
    have hcl := hs.clients c
    exact ⟨fun hne => absurd hcl.phase hne, by simp [hcl.phase, Phase.trx],
      by rwa [hcl.nextHistoryID]⟩
  · intro s a s' _ ih hok ha
    have hfits : ∀ cart, (s'.clients c).phase.trx = some (.newOrder cart) →
        cart.items.length ≤ cfg.ORDER_MAX_OL_CNT := by
      intro cart hcart
      rcases newOrder_of_step ha hcart with hold | rfl
      · exact ih.fits cart hold
      · exact hok
    rcases step_client_cases ha c with ⟨vec, cl, o, l, -, hstep, rfl⟩ | ⟨i, wr, answer, ho, rfl⟩ |
      helse
    · refine ⟨fun _ => hstep.active ih.active, hfits, ?_⟩
      rw [State.setClient_clients_self]
      rcases hstep.nextHistoryID with heq | heq
      · rw [heq]
        exact ih.nextHistoryID
      · rw [heq]
        exact Nat.mod_lt _ hH
    · refine ⟨?_, hfits, ?_⟩ <;> rw [State.effect_clients_self]
      · exact ih.active
      · exact ih.nextHistoryID
    · rw [helse.client]
      exact ih

/-! ## Slices -/

theorem Config.tableSize_eq (cfg : Config) (t : InsertTable) :
    cfg.tableSize t = cfg.clientCnt * cfg.sliceSize t := by
  cases t with
  | orderLine =>
    simp only [tableSize, sliceSize]
    ring
  | _ => rfl

theorem slice_of_offset {t : InsertTable} {offset index : ℕ} (hc : c.toNat < cfg.clientCnt)
    (hoffset : offset < cfg.sliceSize t) (hindex : index = c.toNat * cfg.sliceSize t + offset) :
    c.toNat * cfg.sliceSize t ≤ index ∧ index < (c.toNat + 1) * cfg.sliceSize t ∧
      index < cfg.tableSize t := by
  subst hindex
  rw [cfg.tableSize_eq]
  exact ⟨Nat.le_add_right _ _, MixedRadix.index_lt (Nat.lt_succ_self _) hoffset,
    MixedRadix.index_lt hc hoffset⟩

theorem client_eq_of_slice {size index : ℕ} (h : c.toNat * size ≤ index)
    (hlt : index < (c.toNat + 1) * size) (h' : c'.toNat * size ≤ index)
    (hlt' : index < (c'.toNat + 1) * size) : c = c' := by
  have hle : ∀ {a b : ℕ}, a * size ≤ index → index < (b + 1) * size → a ≤ b := by
    intro a b ha hb
    have hab : a * size < (b + 1) * size := ha.trans_lt hb
    exact Nat.lt_succ_iff.1 (Nat.lt_of_mul_lt_mul_right hab)
  exact UInt16.toNat_inj.1 (Nat.le_antisymm (hle h hlt') (hle h' hlt))

theorem Phase.trx_of_reserved {p : Phase} {cart : NewOrderCart} (h : p.reserved = some cart) :
    p.trx = some (.newOrder cart) := by
  unfold reserved at h
  split at h <;> cases h <;> rfl

theorem RowCounters.lines_le {carts : List NewOrderCart} {cart : NewOrderCart}
    (h : RowCounters cfg carts cl) (hres : cl.phase.reserved = some cart)
    (hB : 0 < cfg.ORDER_BUFFER_PER_CLIENT) (hfits : cart.items.length ≤ cfg.ORDER_MAX_OL_CNT) :
    cl.nextOrderLineID + cart.items.length ≤ cfg.sliceSize .orderLine := by
  have hnext := h.nextOrderLineID
  rw [hres] at hnext
  rw [hnext]
  exact BumpRing.start_add_le (hfits.trans (Nat.le_mul_of_pos_left _ hB))

theorem InsertStep.slice {rows : List InsertedRow} {carts : List NewOrderCart}
    (h : InsertStep cfg c cl' trx rows) (hcnt : RowCounters cfg carts cl')
    (hinv : SliceInv cfg c cl') (hc : c.toNat < cfg.clientCnt)
    (hB : 0 < cfg.ORDER_BUFFER_PER_CLIENT) : ∀ row ∈ rows,
    c.toNat * cfg.sliceSize row.table ≤ row.tableIndex ∧
      row.tableIndex < (c.toNat + 1) * cfg.sliceSize row.table ∧
      row.tableIndex < cfg.tableSize row.table := by
  intro row hrow
  cases h with
  | none => cases hrow
  | order cart hres =>
    have hfits := hinv.fits cart (Phase.trx_of_reserved hres)
    have hlines := hcnt.lines_le hres hB hfits
    simp only [orderRows, List.mem_append, List.mem_cons, List.not_mem_nil,
      or_false, List.mem_map, List.mem_range'_1] at hrow
    rcases hrow with (rfl | rfl) | ⟨i, ⟨hle, hlt⟩, rfl⟩
    · refine slice_of_offset hc ?_ rfl
      rw [hcnt.nextOrderID]
      exact Nat.mod_lt _ hB
    · refine slice_of_offset hc ?_ rfl
      rw [hcnt.nextNewOrderID]
      exact Nat.mod_lt _ hB
    · simp only [orderLineIndex, Nat.mul_assoc] at hle hlt
      have hi : i = c.toNat * cfg.sliceSize .orderLine +
          (i - c.toNat * cfg.sliceSize .orderLine) := by
        simp only [Config.sliceSize]
        omega
      refine slice_of_offset hc ?_ hi
      simp only [Config.sliceSize] at hlines ⊢
      omega
  | history cart serverNum =>
    obtain rfl := List.mem_singleton.1 hrow
    exact slice_of_offset hc hinv.nextHistoryID rfl

theorem InsertStep.lines {rows : List InsertedRow} (h : InsertStep cfg c cl' trx rows) :
    orderLineIndices rows = [] ∨ ∃ cart first, trx = .newOrder cart ∧
      orderLineIndices rows = List.range' first cart.items.length := by
  cases h with
  | none | history => exact .inl rfl
  | order cart hres =>
    refine .inr ⟨cart, orderLineIndex cfg c cl'.nextOrderLineID, rfl, ?_⟩
    simp [orderLineIndices, orderRows, List.filterMap_map]

theorem PostsInRun.privateInserts {posted : List WorkRequest} (h : PostsInRun cfg c posted)
    (hB : 0 < cfg.ORDER_BUFFER_PER_CLIENT) (hH : 0 < cfg.HISTORY_BUFFER_PER_CLIENT) :
    PrivateInserts cfg c posted := by
  obtain ⟨s, a, s', hs, ha, hok, hposted⟩ := h
  have hs' : ReachableBy cfg (CartsFit cfg) s' := hs.next hok ha
  have hcnt := rowCounters_of_reachable hs'.reachable c
  have hinv := sliceInv_of_reachable hH hs' c
  rcases step_client_cases ha c with ⟨vec, cl, o, l, -, hstep, rfl⟩ | ⟨i, wr, answer, ho, rfl⟩ |
    helse
  · rw [State.setClient_clients_self] at hposted hcnt hinv
    have hactive := hstep.active (sliceInv_of_reachable hH hs c).active
    obtain ⟨rows, hrows, hins⟩ := hstep.inserts
    rw [hposted, insertedRows_append] at hrows
    obtain rfl : insertedRows posted = rows := List.append_cancel_left hrows
    obtain ⟨posts, hadv⟩ := hstep.advance
    obtain rfl := List.append_cancel_left (hadv.outstanding.symm.trans hposted)
    refine ⟨hins.slice hcnt hinv hactive hB, hins.lines.imp_right ?_⟩
    rintro ⟨cart, first, htrx, hlines⟩
    refine ⟨o.t, cart, first, fun wr hwr => ?_, hlines⟩
    obtain ⟨p, -, rfl⟩ := List.mem_map.1 hwr
    rw [← htrx]
  · -- a request leaves the queue: nothing is posted
    rw [State.effect_clients_self] at hposted
    have hlen : ((s.clients c).outstanding.eraseIdx i).length =
        ((s.clients c).outstanding ++ posted).length := congrArg List.length hposted
    have hi := (List.getElem?_eq_some_iff.1 ho.getElem).1
    rw [List.length_eraseIdx_of_lt hi, List.length_append] at hlen
    omega
  · rw [helse.client] at hposted
    obtain rfl := List.append_right_eq_self.1 hposted.symm
    exact ⟨by simp [insertedRows], .inl rfl⟩

/-- **Insert regions are private.** In every run of any clients whose NewOrders have at most
`ORDER_MAX_OL_CNT` lines, the rows a client inserts are in its own slices, inside the tables of
the server; the lines of one order have consecutive indices in the slice. So different clients
never insert into the same row. -/
theorem inserts_private (hB : 0 < cfg.ORDER_BUFFER_PER_CLIENT)
    (hH : 0 < cfg.HISTORY_BUFFER_PER_CLIENT) :
    (∀ c posted, PostsInRun cfg c posted → PrivateInserts cfg c posted) ∧
      ∀ c c' posted posted', c ≠ c' → PostsInRun cfg c posted → PostsInRun cfg c' posted' →
        ∀ row ∈ insertedRows posted, ∀ row' ∈ insertedRows posted', row ≠ row' := by
  refine ⟨fun c posted h => h.privateInserts hB hH, ?_⟩
  rintro c c' posted posted' hne h h' row hrow row' hrow' rfl
  obtain ⟨hle, hlt, -⟩ := (h.privateInserts hB hH).slice row hrow
  obtain ⟨hle', hlt', -⟩ := (h'.privateInserts hB hH).slice row hrow'
  exact hne (client_eq_of_slice hle hlt hle' hlt')

theorem exists_postsInRun {n : ℕ} (h : ReachableBy cfg (CartsFit cfg) s)
    (hn : ((step cfg s (.cpu c)).any fun s' => (insertedRows (s.clients c).outstanding).length +
      n == (insertedRows (s'.clients c).outstanding).length) = true) :
    ∃ posted, PostsInRun cfg c posted ∧ (insertedRows posted).length = n := by
  obtain ⟨s', hs', hlen⟩ := (Option.any_eq_true _ _).1 hn
  have hlen := eq_of_beq hlen
  obtain ⟨vec, cl, o, l, hstep, rfl⟩ : ∃ vec cl o l,
      ClientStep cfg vec c (s.clients c) cl o l ∧ s' = s.setClient c cl o l := by
    have hcpu := hs'
    simp only [step, State.cpu] at hcpu
    split at hcpu
    · rename_i trx vec htrx hvec
      split at hcpu
      · rename_i hpoll
        exact ⟨vec, _, _, _, .resume htrx hpoll, (Option.some.inj hcpu).symm⟩
      · cases hcpu
    · cases hcpu
  obtain ⟨posts, hadv⟩ := hstep.advance
  rw [State.setClient_clients_self, hadv.outstanding, insertedRows_append, List.length_append]
    at hlen
  refine ⟨_, ⟨s, _, _, h, hs', trivial, ?_⟩, (Nat.add_left_cancel hlen).symm⟩
  rw [State.setClient_clients_self]
  exact hadv.outstanding

set_option maxRecDepth 100000 in
/-- Two clients insert the rows of an order of five lines each. -/
theorem inserts_private_plain : ∃ posted posted',
    PostsInRun (.shipped 2) 0 posted ∧ (insertedRows posted).length = 7 ∧
      PostsInRun (.shipped 2) 1 posted' ∧ (insertedRows posted').length = 7 ∧
      PrivateInserts (.shipped 2) 0 posted ∧
      ∀ row ∈ insertedRows posted, ∀ row' ∈ insertedRows posted', row ≠ row' := by
  obtain ⟨s, hs, -, hp⟩ := exists_reachableBy (CartsFit (.shipped 2))
    (init_plain (.shipped 2)) ((newOrderAlone 0).take 45)
    (fun s => (step (.shipped 2) s (.cpu 0)).any fun s' =>
      (insertedRows (s.clients 0).outstanding).length + 7 ==
        (insertedRows (s'.clients 0).outstanding).length) (by decide +kernel) (by decide +kernel)
  obtain ⟨s', hs', -, hp'⟩ := exists_reachableBy (CartsFit (.shipped 2))
    (init_plain (.shipped 2)) ((newOrderAlone 1).take 45)
    (fun s => (step (.shipped 2) s (.cpu 1)).any fun s' =>
      (insertedRows (s.clients 1).outstanding).length + 7 ==
        (insertedRows (s'.clients 1).outstanding).length) (by decide +kernel) (by decide +kernel)
  obtain ⟨posted, hposts, hlen⟩ := exists_postsInRun hs hp
  obtain ⟨posted', hposts', hlen'⟩ := exists_postsInRun hs' hp'
  have hprivate := @inserts_private (.shipped 2) (by decide) (by decide)
  exact ⟨posted, posted', hposts, hlen, hposts', hlen', hprivate.1 0 posted hposts,
    hprivate.2 0 1 posted posted' (by decide) hposts hposts'⟩

end RdmaSnapshot
