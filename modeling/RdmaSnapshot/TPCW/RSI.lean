import Mathlib.Algebra.Group.Nat.Defs
import Mathlib.Logic.Function.Basic
import RdmaSnapshot.Lib.Transition

/-!
# The RSI client of the vision paper

`visionpaper-RSI/RDMAClient.cpp`: every client buys one item from every server. It reads the items,
draws a commit timestamp from the oracle, compare-and-swaps the lock word of every item from
`(0, version it read)` to `(1, commit timestamp)`, and then either gives back the lock words it won
or writes the new versions and after them lock words `(0, commit timestamp)`. Servers are passive:
all of this is done by RDMA operations, in order on every queue pair, each of them atomic.

An item and its lock word lie in different memory regions and no operation touches both.
-/

namespace RdmaSnapshot.TPCW.RSI

/-! ## Items, lock words and carts -/

structure Config where
  CLIENTS_CNT : ℕ
  TRANSACTION_CNT : ℕ
  ORDERLINE_PER_ORDER : ℕ
  ITEM_PER_SERVER : ℕ
  orderline_pos : 0 < ORDERLINE_PER_ORDER
  item_pos : 0 < ITEM_PER_SERVER

/-- An item, with the fields the client changes. -/
structure ItemVersion where
  write_timestamp : ℕ
  I_STOCK : Int32
  deriving DecidableEq, Repr

/-- A lock word; `Lock::are_equals` is its equality. -/
structure Lock where
  lock_status : UInt32
  version : UInt32
  deriving DecidableEq, Repr

def Lock.set_lock (lock_status : UInt32) (version : ℕ) : Lock :=
  ⟨lock_status, UInt32.ofNat version⟩

structure ShoppingCartLine where
  SCL_I_ID : ℕ
  SCL_QTY : Int32
  deriving DecidableEq, Repr

def decrementStock (I_STOCK quantity : Int32) : Int32 :=
  if I_STOCK - quantity < 10 then I_STOCK - quantity + 20 else I_STOCK - quantity

def ItemVersion.decrement (v : ItemVersion) (quantity : Int32) (commit_timestamp : ℕ) :
    ItemVersion :=
  ⟨commit_timestamp, decrementStock v.I_STOCK quantity⟩

/-- A cart: the item of line `i` is on server `i`. -/
structure Cart (cfg : Config) where
  cart_lines : ℕ → ShoppingCartLine
  server_num : ∀ i, (cart_lines i).SCL_I_ID / cfg.ITEM_PER_SERVER = i

/-- `rand` are the values that successive calls of `rand()` return. -/
def fill_shopping_cart (cfg : Config) (rand : ℕ → ℕ) : Cart cfg where
  cart_lines i :=
    ⟨i * cfg.ITEM_PER_SERVER + rand (2 * i) % cfg.ITEM_PER_SERVER,
      Int32.ofNat (rand (2 * i + 1) % 1 + 1)⟩
  server_num i := by
    rw [Nat.add_comm, Nat.add_mul_div_right _ _ cfg.item_pos,
      Nat.div_eq_of_lt (Nat.mod_lt _ cfg.item_pos), Nat.zero_add]

/-! ## What happens -/

structure Trx where
  client : ℕ
  number : ℕ
  deriving DecidableEq, Repr

inductive Event
  /-- A compare-and-swap of a lock word of server `i` succeeded. -/
  | locked (t : Trx) (i : ℕ) (I_ID : ℕ) (old new : Lock)
  /-- All locks of the transaction were acquired: the cart will be bought. -/
  | committed (t : Trx) (cart : List ShoppingCartLine)
  /-- The transaction is over and has bought nothing. -/
  | aborted (t : Trx)
  /-- Version `old` of an item was overwritten by `new`, which was computed from `base`. -/
  | installed (t : Trx) (i : ℕ) (I_ID : ℕ) (base old new : ItemVersion)
  /-- A lock word was overwritten. -/
  | unlocked (t : Trx) (i : ℕ) (I_ID : ℕ) (old new : Lock)
  deriving DecidableEq

/-- The lock words of server `i` that transaction `t` acquired: the item, the word it replaced and
the word it put there. -/
def lockedBy (trace : List Event) (t : Trx) (i : ℕ) : List (ℕ × Lock × Lock) :=
  trace.filterMap fun e =>
    match e with
    | .locked u j x old new => if u = t ∧ j = i then some (x, old, new) else none
    | _ => none

/-- The lock words of server `i` that transaction `t` gave back: the item, the word it put there
and the word it replaced. -/
def unlockedBy (trace : List Event) (t : Trx) (i : ℕ) : List (ℕ × Lock × Lock) :=
  trace.filterMap fun e =>
    match e with
    | .unlocked u j x old new => if u = t ∧ j = i then some (x, new, old) else none
    | _ => none

/-- The quantities of an item of server `i` that were bought, in the order of the commits. -/
def commitsOn (trace : List Event) (i I_ID : ℕ) : List Int32 :=
  trace.filterMap fun e =>
    match e with
    | .committed _ cart =>
      cart[i]?.bind fun line => if line.SCL_I_ID = I_ID then some line.SCL_QTY else none
    | _ => none

/-! ## Queue pairs -/

inductive WorkRequest
  | readTimestamp
  | fetchAdd
  | readItem (I_ID : ℕ)
  | cmpSwap (I_ID : ℕ) (expected new : Lock)
  /-- `base` is not sent; it is the version that `version` was computed from. -/
  | writeItem (I_ID : ℕ) (version base : ItemVersion)
  | writeLock (I_ID : ℕ) (lock : Lock)
  deriving DecidableEq

def WorkRequest.signaled : WorkRequest → Bool
  | .writeItem _ _ _ => false
  | _ => true

/-- An `RDMAClientContext`, with the elements for its server of the arrays of `start_transaction`.
-/
structure Context where
  /-- What was posted on the queue pair and has not taken effect, oldest first. -/
  queue : List WorkRequest
  /-- The number of completions in the completion queue. -/
  completions : ℕ
  read_ts_region : ℕ
  commit_ts_region : ℕ
  items_region : ItemVersion
  lock_items_region : Lock
  expected_lock : Lock
  successful_locking_servers : Bool

structure Server where
  items_region : ℕ → ItemVersion
  lock_items_region : ℕ → Lock

namespace Server

variable (server : Server)

def writeItem (I_ID : ℕ) (version : ItemVersion) : Server :=
  { server with items_region := Function.update server.items_region I_ID version }

def writeLock (I_ID : ℕ) (lock : Lock) : Server :=
  { server with lock_items_region := Function.update server.lock_items_region I_ID lock }

end Server

namespace Context

variable (ctx : Context)

def post (r : WorkRequest) : Context := { ctx with queue := ctx.queue ++ [r] }

def poll_completion : Option Context :=
  if 0 < ctx.completions then some { ctx with completions := ctx.completions - 1 } else none

def complete (r : WorkRequest) (queue : List WorkRequest) : Context :=
  { ctx with
    queue := queue
    completions := if r.signaled then ctx.completions + 1 else ctx.completions }

/-- The oldest request on the queue pair to server `k` takes effect there, and the timestamp oracle
may be changed by it. -/
def serve (t : Trx) (k : ℕ) (server : Server) (timestamp : ℕ) :
    Option (Context × Server × ℕ × List Event) :=
  match ctx.queue with
  | [] => none
  | r :: queue =>
    let ctx := ctx.complete r queue
    match r with
    | .readTimestamp => some ({ ctx with read_ts_region := timestamp }, server, timestamp, [])
    | .fetchAdd => some ({ ctx with commit_ts_region := timestamp }, server, timestamp + 1, [])
    | .readItem x =>
      some ({ ctx with items_region := server.items_region x }, server, timestamp, [])
    | .cmpSwap x expected new =>
      let old := server.lock_items_region x
      if old = expected then
        some ({ ctx with lock_items_region := old }, server.writeLock x new, timestamp,
          [.locked t k x old new])
      else some ({ ctx with lock_items_region := old }, server, timestamp, [])
    | .writeItem x version base =>
      some (ctx, server.writeItem x version, timestamp,
        [.installed t k x base (server.items_region x) version])
    | .writeLock x lock =>
      some (ctx, server.writeLock x lock, timestamp,
        [.unlocked t k x (server.lock_items_region x) lock])

/-! ## The operations of the client -/

variable (line : ShoppingCartLine)

def get_item_info : Context := ctx.post (.readItem line.SCL_I_ID)

def acquire_item_lock (expected_lock new_lock : Lock) : Context :=
  { ctx with lock_items_region := .set_lock 0 0 }.post
    (.cmpSwap line.SCL_I_ID expected_lock new_lock)

def revert_lock (new_lock : Lock) : Context :=
  { ctx with lock_items_region := new_lock }.post (.writeLock line.SCL_I_ID new_lock)

def decrement_item_stock (commit_timestamp : ℕ) : Context :=
  let version := ctx.items_region.decrement line.SCL_QTY commit_timestamp
  { ctx with items_region := version }.post
    (.writeItem line.SCL_I_ID version ctx.items_region)

def release_lock (commit_timestamp : ℕ) : Context :=
  { ctx with lock_items_region := .set_lock 0 commit_timestamp }.post
    (.writeLock line.SCL_I_ID (.set_lock 0 commit_timestamp))

end Context

/-! ## The client -/

/-- The four times the client posts a request to every server in one loop and polls for the
completions in the next. -/
inductive Phase
  | item
  | lock
  | revert
  | release
  deriving DecidableEq

inductive PC
  /-- At the head of the loop over the transactions. -/
  | loop
  /-- Polls for the read timestamp. -/
  | readTimestamp
  | post (φ : Phase) (i : ℕ)
  | poll (φ : Phase) (i : ℕ)
  /-- Polls for the commit timestamp. -/
  | commitTimestamp
  /-- In the loop over `decrement_item_stock`. -/
  | decrement (i : ℕ)
  deriving DecidableEq

namespace Context

variable (ctx : Context)

/-- The body of the loop that posts the requests of a phase. -/
def issue (line : ShoppingCartLine) (commit_timestamp : ℕ) : Phase → Context
  | .item => ctx.get_item_info line
  | .lock =>
    let expected_lock := Lock.set_lock 0 ctx.items_region.write_timestamp
    { ctx with expected_lock := expected_lock }.acquire_item_lock line expected_lock
      (.set_lock 1 commit_timestamp)
  | .revert =>
    if ctx.successful_locking_servers then ctx.revert_lock line ctx.expected_lock else ctx
  | .release => ctx.release_lock line commit_timestamp

def await : Phase → Option Context
  | .lock => ctx.poll_completion.map fun ctx =>
    { ctx with successful_locking_servers := ctx.lock_items_region = ctx.expected_lock }
  | .revert => if ctx.successful_locking_servers then ctx.poll_completion else some ctx
  | _ => ctx.poll_completion

end Context

structure Client (cfg : Config) where
  pc : PC
  trx_num : ℕ
  cart : Cart cfg
  ctx : ℕ → Context
  read_timestamp : ℕ
  commit_timestamp : ℕ
  abort_flag : Bool

namespace Client

variable {cfg : Config} (cl : Client cfg)

def line (i : ℕ) : ShoppingCartLine := cl.cart.cart_lines i

def lines : List ShoppingCartLine := (List.range cfg.ORDERLINE_PER_ORDER).map cl.line

def server_num (i : ℕ) : ℕ := (cl.line i).SCL_I_ID / cfg.ITEM_PER_SERVER

def setCtx (k : ℕ) (ctx : Context) : Client cfg :=
  { cl with ctx := Function.update cl.ctx k ctx }

def begin (rand : ℕ → ℕ) : Option (Client cfg) :=
  if cl.pc = .loop ∧ cl.trx_num < cfg.TRANSACTION_CNT then
    some { cl.setCtx 0 ((cl.ctx 0).post .readTimestamp) with
      pc := .readTimestamp
      trx_num := cl.trx_num + 1
      cart := fill_shopping_cart cfg rand }
  else none

def next (c : ℕ) : Option (Client cfg × List Event) :=
  match cl.pc with
  | .loop => none
  | .readTimestamp => (cl.ctx 0).poll_completion.map fun ctx =>
    ({ cl.setCtx 0 ctx with
      pc := .post .item 0
      read_timestamp := ctx.read_ts_region }, [])
  | .post φ i =>
    let k := cl.server_num i
    if i < cfg.ORDERLINE_PER_ORDER then
      some ({ cl.setCtx k ((cl.ctx k).issue (cl.line k) cl.commit_timestamp φ) with
        pc := .post φ (i + 1) }, [])
    else
      some ({ cl with
        pc := .poll φ 0
        abort_flag := if φ = .lock then false else cl.abort_flag }, [])
  | .poll φ i =>
    let k := cl.server_num i
    if i < cfg.ORDERLINE_PER_ORDER then
      ((cl.ctx k).await φ).map fun ctx =>
        ({ cl.setCtx k ctx with
          pc := .poll φ (i + 1)
          abort_flag :=
            if φ = .lock then cl.abort_flag || !ctx.successful_locking_servers
            else cl.abort_flag }, [])
    else match φ with
      | .item =>
        some ({ cl.setCtx 0 ((cl.ctx 0).post .fetchAdd) with pc := .commitTimestamp }, [])
      | .lock =>
        if cl.abort_flag then some ({ cl with pc := .post .revert 0 }, [])
        else some ({ cl with pc := .decrement 0 }, [.committed ⟨c, cl.trx_num⟩ cl.lines])
      | .revert => some ({ cl with pc := .loop }, [.aborted ⟨c, cl.trx_num⟩])
      | .release => some ({ cl with pc := .loop }, [])
  | .commitTimestamp => (cl.ctx 0).poll_completion.map fun ctx =>
    ({ cl.setCtx 0 { ctx with commit_ts_region := ctx.commit_ts_region + 1 } with
      pc := .post .lock 0
      commit_timestamp := ctx.commit_ts_region + 1 }, [])
  | .decrement i =>
    let k := cl.server_num i
    if i < cfg.ORDERLINE_PER_ORDER then
      some ({ cl.setCtx k ((cl.ctx k).decrement_item_stock (cl.line k) cl.commit_timestamp) with
        pc := .decrement (i + 1) }, [])
    else some ({ cl with pc := .post .release 0 }, [])

end Client

/-! ## The system -/

structure State (cfg : Config) where
  /-- The counter of the timestamp oracle, on the first server. -/
  timestamp : ℕ
  servers : ℕ → Server
  clients : ℕ → Client cfg
  /-- What happened, oldest first. -/
  trace : List Event

inductive Action
  /-- Client `c` begins a transaction, with the values its calls of `rand()` return. -/
  | begin (c : ℕ) (rand : ℕ → ℕ)
  | client (c : ℕ)
  /-- The oldest request of client `c` on the queue pair to server `k` takes effect. -/
  | serve (c k : ℕ)

namespace State

variable {cfg : Config} (s : State cfg)

def setClient (c : ℕ) (cl : Client cfg) : State cfg :=
  { s with clients := Function.update s.clients c cl }

def begin (c : ℕ) (rand : ℕ → ℕ) : Option (State cfg) :=
  ((s.clients c).begin rand).map fun cl => s.setClient c cl

def client (c : ℕ) : Option (State cfg) :=
  ((s.clients c).next c).map fun (cl, es) => { s.setClient c cl with trace := s.trace ++ es }

def serve (c k : ℕ) : Option (State cfg) :=
  let cl := s.clients c
  ((cl.ctx k).serve ⟨c, cl.trx_num⟩ k (s.servers k) s.timestamp).map
    fun (ctx, server, timestamp, es) =>
      { s.setClient c (cl.setCtx k ctx) with
        timestamp := timestamp
        servers := Function.update s.servers k server
        trace := s.trace ++ es }

end State

def step (cfg : Config) (s : State cfg) : Action → Option (State cfg)
  | .begin c rand => if c < cfg.CLIENTS_CNT then s.begin c rand else none
  | .client c => if c < cfg.CLIENTS_CNT then s.client c else none
  | .serve c k => if c < cfg.CLIENTS_CNT then s.serve c k else none

/-- No client has started, and the lock word of every item is free with the version of the item.
The servers start with timestamp 0, which is also the version of all items. -/
structure Init (cfg : Config) (items : ℕ → ℕ → ItemVersion) (s : State cfg) : Prop where
  clients : ∀ c, (s.clients c).pc = .loop ∧ (s.clients c).trx_num = 0
  contexts : ∀ c k, ((s.clients c).ctx k).queue = [] ∧ ((s.clients c).ctx k).completions = 0
  items_region : ∀ i, (s.servers i).items_region = items i
  lock_items_region : ∀ i x,
    (s.servers i).lock_items_region x = .set_lock 0 (items i x).write_timestamp
  timestamp : ∀ i x, (items i x).write_timestamp ≤ s.timestamp
  trace : s.trace = []

/-! ## What is to hold -/

/-- Everything a transaction put on a lock word of a server it took away again: it put back the
word that it had replaced, and what it replaced by it was its own word. -/
def Restored (trace : List Event) (t : Trx) : Prop :=
  ∀ i, unlockedBy trace t i = lockedBy trace t i

/-- No update of an item is lost, when the items were `items` initially. -/
structure State.NoLostUpdate {cfg : Config} (items : ℕ → ℕ → ItemVersion) (s : State cfg) :
    Prop where
  /-- A version is computed from the version it replaces, for a committed cart: the quantity is
  taken off the stock, and twenty pieces are added if fewer than ten are left. -/
  installed : ∀ t i x base old new, .installed t i x base old new ∈ s.trace →
    base = old ∧ ∃ cart line, .committed t cart ∈ s.trace ∧ cart[i]? = some line ∧
      line.SCL_I_ID = x ∧ new.I_STOCK =
        if base.I_STOCK - line.SCL_QTY < 10 then base.I_STOCK - line.SCL_QTY + 20
        else base.I_STOCK - line.SCL_QTY
  /-- Who aborts restores the lock words they acquired. -/
  aborted : ∀ t, .aborted t ∈ s.trace → Restored s.trace t
  /-- A free lock word has the version of its item. -/
  version : ∀ i x, ((s.servers i).lock_items_region x).lock_status = 0 →
    ((s.servers i).lock_items_region x).version.toNat =
      ((s.servers i).items_region x).write_timestamp
  /-- The quantities of the committed carts were taken off the stock of an item whose lock is free,
  with the same additions. -/
  stock : ∀ i x, ((s.servers i).lock_items_region x).lock_status = 0 →
    ((s.servers i).items_region x).I_STOCK =
      (commitsOn s.trace i x).foldl (fun stock quantity =>
        if stock - quantity < 10 then stock - quantity + 20 else stock - quantity)
        (items i x).I_STOCK

end RdmaSnapshot.TPCW.RSI
