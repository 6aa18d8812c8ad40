import Mathlib.Algebra.GroupWithZero.Nat
import Mathlib.Logic.Function.Basic
import RdmaSnapshot.Lib.Transition
import RdmaSnapshot.TPCW.Messages

/-!
# The two-sided TPC-W managers

The RDMA send/receive variant (`two-sided/`). Every client is served by a thread of the transaction
manager (`TradTrxManager::start_transactions`), which has, on every resource manager, a thread of
its own (`TradResManager::handle_trx_mng_thread`). Threads of one resource manager share its items
and their locks. Messages between two threads arrive in the order they were sent; a request is
received into the buffer that its receiver posted for it, so a thread takes the next request only
where its loop expects one of that type.

Requests carry the number of the transaction they were sent for. No thread looks at it; it says on
whose behalf a resource manager acts.
-/

namespace RdmaSnapshot.TPCW.TwoSided

/-! ## Resource managers -/

/-- An item, with the fields the managers change. -/
structure ItemVersion where
  write_timestamp : UInt64
  I_STOCK : Int32
  deriving DecidableEq, Repr

def decrementStock (I_STOCK quantity : Int32) : Int32 :=
  if I_STOCK - quantity < 10 then I_STOCK - quantity + 20 else I_STOCK - quantity

structure ResManager where
  items_region : Int32 → ItemVersion
  item_lock : Int32 → Bool

namespace ResManager

variable (rm : ResManager)

def lock_item (I_ID : Int32) : ResManager :=
  { rm with item_lock := Function.update rm.item_lock I_ID true }

def unlock_item (I_ID : Int32) : ResManager :=
  { rm with item_lock := Function.update rm.item_lock I_ID false }

def decremenet_item_stock (item_id quantity : Int32) (commit_timestamp : UInt64) : ResManager :=
  { rm with
    items_region := Function.update rm.items_region item_id
      ⟨commit_timestamp, decrementStock (rm.items_region item_id).I_STOCK quantity⟩ }

end ResManager

/-! ## What happens -/

/-- Transaction `number` of a client; a thread counts its transactions in `trx_num`. -/
structure Trx where
  client : ℕ
  number : ℕ
  deriving DecidableEq, Repr

inductive Event
  /-- `try_lock` of an item of resource manager `i` succeeded. -/
  | locked (t : Trx) (i : ℕ) (I_ID : Int32)
  | installed (t : Trx) (i : ℕ) (line : ShoppingCartLine) (commit_ts : UInt64)
  | unlocked (t : Trx) (i : ℕ) (I_ID : Int32)
  /-- The last request of a transaction was sent to resource manager `i`. -/
  | sent (t : Trx) (i : ℕ) (r : WriteDataRequest)
  /-- The client was sent the outcome for its cart. -/
  | answered (t : Trx) (cart : List ShoppingCartLine) (outcome : CommitOutcome)
  deriving DecidableEq

/-- What an event makes of the transactions on whose behalf an item of resource manager `i` is
locked. -/
def hold (i : ℕ) (I_ID : Int32) (ts : List Trx) : Event → List Trx
  | .locked t j x => if j = i ∧ x = I_ID then ts ++ [t] else ts
  | .unlocked t j x => if j = i ∧ x = I_ID then ts.erase t else ts
  | _ => ts

/-- The transactions on whose behalf an item of resource manager `i` is locked: those whose lock
was taken and who did not release it. -/
def holders (trace : List Event) (i : ℕ) (I_ID : Int32) : List Trx := trace.foldl (hold i I_ID) []

def installsBy (trace : List Event) (t : Trx) (i : ℕ) : List ShoppingCartLine :=
  trace.filterMap fun e =>
    match e with
    | .installed u j line _ => if u = t ∧ j = i then some line else none
    | _ => none

/-- The updates of an item of resource manager `i`, in their order. -/
def installsAt (trace : List Event) (i : ℕ) (I_ID : Int32) : List (Trx × ShoppingCartLine) :=
  trace.filterMap fun e =>
    match e with
    | .installed t j line _ => if j = i ∧ line.SCL_I_ID = I_ID then some (t, line) else none
    | _ => none

/-! ## Connections -/

/-- `ItemInfoResponse` or `LockResponse`; the last exchange has no response. -/
inductive Response
  | itemInfo (item_version : ItemVersion)
  | lock (was_successful : Bool)
  deriving DecidableEq

inductive ThreadPC
  /-- Waits for the request of an exchange. -/
  | receive (t : Round)
  /-- Has received a request. -/
  | handle (n : ℕ) (r : Request)
  /-- Has installed a version and is about to unlock the item. -/
  | unlock (n : ℕ) (I_ID : Int32)
  deriving DecidableEq

/-- The connection of a thread of the transaction manager to a resource manager, with the thread
there. -/
structure Link where
  requests : List (ℕ × Request)
  responses : List Response
  pc : ThreadPC
  trx_num : ℕ

/-- The connection after another request was sent. -/
def Link.push (l : Link) (n : ℕ) (r : Request) : Link :=
  { l with requests := l.requests ++ [(n, r)] }

structure Config where
  CLIENTS_CNT : ℕ
  SERVER_CNT : ℕ
  TRANSACTION_CNT : ℕ

def Link.next (cfg : Config) (c i : ℕ) (l : Link) (rm : ResManager) :
    Option (Link × ResManager × List Event) :=
  match l.pc with
  | .receive t =>
    match l.requests with
    | [] => none
    | (n, r) :: requests =>
      if r.round = t ∧ (t = .itemInfo → l.trx_num < cfg.TRANSACTION_CNT) then
        some ({ l with
          requests := requests
          pc := .handle n r
          trx_num := if t = .itemInfo then l.trx_num + 1 else l.trx_num }, rm, [])
      else none
  | .handle _ (.itemInfo I_ID) =>
    some ({ l with
      responses := l.responses ++ [.itemInfo (rm.items_region I_ID)]
      pc := .receive .lock }, rm, [])
  | .handle n (.lock I_ID) =>
    if rm.item_lock I_ID then
      some ({ l with
        responses := l.responses ++ [.lock false]
        pc := .receive .writeData }, rm, [])
    else
      some ({ l with
        responses := l.responses ++ [.lock true]
        pc := .receive .writeData }, rm.lock_item I_ID, [.locked ⟨c, n⟩ i I_ID])
  | .handle n (.writeData (.UNLOCK I_ID)) =>
    some ({ l with pc := .receive .itemInfo }, rm.unlock_item I_ID, [.unlocked ⟨c, n⟩ i I_ID])
  | .handle _ (.writeData (.DO_NOTHING _)) =>
    some ({ l with pc := .receive .itemInfo }, rm, [])
  | .handle n (.writeData (.INSTALL_VERSION line commit_ts)) =>
    some ({ l with pc := .unlock n line.SCL_I_ID },
      rm.decremenet_item_stock line.SCL_I_ID line.SCL_QTY commit_ts,
      [.installed ⟨c, n⟩ i line commit_ts])
  | .unlock n I_ID =>
    some ({ l with pc := .receive .itemInfo }, rm.unlock_item I_ID, [.unlocked ⟨c, n⟩ i I_ID])

/-! ## Transaction manager -/

inductive ManagerPC
  | readCommitRequest
  | write (t : Round) (i : ℕ)
  | readItemInfo (i : ℕ)
  | readLock (i : ℕ)
  | writeCommitResponse
  deriving DecidableEq

structure TrxManager where
  pc : ManagerPC
  trx_num : ℕ
  cart : List ShoppingCartLine
  /-- `res_mng_ctxs[i].lock_request.I_ID`. -/
  lock_request : ℕ → Int32
  successful_locking_servers : ℕ → Bool
  abort_flag : Bool
  commit_timestamp : UInt64

namespace TrxManager

variable (tm : TrxManager)

def line (i : ℕ) : ShoppingCartLine := tm.cart.getD i ⟨0, 0, 0⟩

def writeData (i : ℕ) : WriteDataRequest :=
  writeDataRequest tm.abort_flag (tm.successful_locking_servers i) (tm.lock_request i) (tm.line i)
    tm.commit_timestamp

def request (t : Round) (i : ℕ) : Request :=
  match t with
  | .itemInfo => .itemInfo (tm.line i).SCL_I_ID
  | .lock => .lock (tm.line i).SCL_I_ID
  | .writeData => .writeData (tm.writeData i)

def asked (t : Round) (i : ℕ) : TrxManager :=
  { tm with
    pc := .write t (i + 1)
    lock_request :=
      if t = .lock then Function.update tm.lock_request i (tm.line i).SCL_I_ID
      else tm.lock_request }

def lockResponse (i : ℕ) (was_successful : Bool) : TrxManager :=
  { tm with
    pc := .readLock (i + 1)
    successful_locking_servers := Function.update tm.successful_locking_servers i was_successful
    abort_flag := tm.abort_flag || !was_successful }

end TrxManager

/-! ## The system -/

structure State where
  timestamp : UInt64
  managers : ℕ → TrxManager
  links : ℕ → ℕ → Link
  resManagers : ℕ → ResManager
  /-- What happened, oldest first. -/
  trace : List Event

namespace State

variable (s : State)

def setManager (c : ℕ) (tm : TrxManager) : State :=
  { s with managers := Function.update s.managers c tm }

def setLink (c i : ℕ) (l : Link) : State :=
  { s with links := Function.update s.links c (Function.update (s.links c) i l) }

def log (es : List Event) : State := { s with trace := s.trace ++ es }

def submit (cfg : Config) (c : ℕ) (cart : List ShoppingCartLine) : Option State :=
  let tm := s.managers c
  if tm.pc = .readCommitRequest ∧ tm.trx_num < cfg.TRANSACTION_CNT ∧
      cart.length = cfg.SERVER_CNT then
    some (s.setManager c
      { tm with pc := .write .itemInfo 0, trx_num := tm.trx_num + 1, cart := cart })
  else none

/-- The next operation of the thread that serves client `c`. The polls for the completion of the
last requests are not operations here: these sends wait for nothing. -/
def manager (cfg : Config) (c : ℕ) : Option State :=
  let tm := s.managers c
  match tm.pc with
  | .readCommitRequest => none
  | .write t i =>
    if i < cfg.SERVER_CNT then
      some (((s.setLink c i ((s.links c i).push tm.trx_num (tm.request t i))).setManager c
          (tm.asked t i)).log
        (if t = .writeData then [.sent ⟨c, tm.trx_num⟩ i (tm.writeData i)] else []))
    else match t with
      | .itemInfo => some (s.setManager c { tm with pc := .readItemInfo 0 })
      | .lock => some (s.setManager c { tm with pc := .readLock 0, abort_flag := false })
      | .writeData => some (s.setManager c { tm with pc := .writeCommitResponse })
  | .readItemInfo i =>
    if i < cfg.SERVER_CNT then
      let l := s.links c i
      match l.responses with
      | .itemInfo _ :: responses =>
        some ((s.setLink c i { l with responses := responses }).setManager c
          { tm with pc := .readItemInfo (i + 1) })
      | _ => none
    else
      -- `acquire_commit_timestamp`
      some ({ s with timestamp := s.timestamp + 1 }.setManager c
        { tm with pc := .write .lock 0, commit_timestamp := s.timestamp + 1 })
  | .readLock i =>
    if i < cfg.SERVER_CNT then
      let l := s.links c i
      match l.responses with
      | .lock was_successful :: responses =>
        some ((s.setLink c i { l with responses := responses }).setManager c
          (tm.lockResponse i was_successful))
      | _ => none
    else some (s.setManager c { tm with pc := .write .writeData 0 })
  | .writeCommitResponse =>
    some ((s.setManager c { tm with pc := .readCommitRequest }).log
      [.answered ⟨c, tm.trx_num⟩ tm.cart (commitOutcome tm.abort_flag)])

def thread (cfg : Config) (c i : ℕ) : Option State :=
  ((s.links c i).next cfg c i (s.resManagers i)).map fun (l, rm, es) =>
    ({ s.setLink c i l with resManagers := Function.update s.resManagers i rm }).log es

end State

inductive Action
  | submit (c : ℕ) (cart : List ShoppingCartLine)
  | manager (c : ℕ)
  | thread (c i : ℕ)
  deriving DecidableEq

def step (cfg : Config) (s : State) : Action → Option State
  | .submit c cart => if c < cfg.CLIENTS_CNT then s.submit cfg c cart else none
  | .manager c => if c < cfg.CLIENTS_CNT then s.manager cfg c else none
  | .thread c i => if c < cfg.CLIENTS_CNT ∧ i < cfg.SERVER_CNT then s.thread cfg c i else none

/-- No thread has started, no lock is taken, and the items are as loaded. -/
structure Init (items : ℕ → Int32 → ItemVersion) (s : State) : Prop where
  managers : ∀ c, (s.managers c).pc = .readCommitRequest ∧ (s.managers c).trx_num = 0
  links : ∀ c i, s.links c i = ⟨[], [], .receive .itemInfo, 0⟩
  resManagers : ∀ i, s.resManagers i = ⟨items i, fun _ => false⟩
  trace : s.trace = []

abbrev Reachable (cfg : Config) (items : ℕ → Int32 → ItemVersion) : State → Prop :=
  Transition.Reachable (Init items) (step cfg)

/-- The threads of the resource managers alone lead from `s` to `s'`. -/
abbrev ThreadsLead (cfg : Config) (s s' : State) : Prop :=
  Transition.ReachableBy (· = s) (step cfg) (fun _ a => ∃ c i, a = .thread c i) s'

/-! ## What the protocol guarantees -/

/-- The thread has nothing to do. -/
def Link.Processed (l : Link) : Prop := l.requests = [] ∧ ∃ t, l.pc = .receive t

def State.Processed (cfg : Config) (s : State) : Prop :=
  ∀ c < cfg.CLIENTS_CNT, ∀ i < cfg.SERVER_CNT, (s.links c i).Processed

/-- The request to install a line for transaction number `n` is under way or was received. -/
def Link.ToInstall (l : Link) (n : ℕ) (line : ShoppingCartLine) : Prop :=
  ∃ commit_ts, l.pc = .handle n (.writeData (.INSTALL_VERSION line commit_ts)) ∨
    (n, .writeData (.INSTALL_VERSION line commit_ts)) ∈ l.requests

/-- The transaction was answered `COMMITTED`, or its thread has all locks and is about to answer
so. -/
def State.Committed (s : State) (t : Trx) : Prop :=
  (∃ cart, .answered t cart .COMMITTED ∈ s.trace) ∨
    (t.number = (s.managers t.client).trx_num ∧ (s.managers t.client).abort_flag = false ∧
      ((∃ i, (s.managers t.client).pc = .write .writeData i) ∨
        (s.managers t.client).pc = .writeCommitResponse))

/-- The two-phase commit protocol in a state that was reached with items that were `items` at
first. -/
structure State.Atomic (cfg : Config) (items : ℕ → Int32 → ItemVersion) (s : State) : Prop where
  /-- A lock is held on behalf of at most one transaction. -/
  one_holder : ∀ i < cfg.SERVER_CNT, ∀ x, (holders s.trace i x).length ≤ 1
  /-- A version is installed while its transaction holds the lock. -/
  locked : ∀ past t i line ts future, s.trace = past ++ .installed t i line ts :: future →
    t ∈ holders past i line.SCL_I_ID
  /-- A committed line was installed once, or will be. -/
  committed : ∀ t cart, .answered t cart .COMMITTED ∈ s.trace → ∀ i < cfg.SERVER_CNT,
    ∃ line, cart[i]? = some line ∧ (installsBy s.trace t i = [line] ∨
      installsBy s.trace t i = [] ∧ (s.links t.client i).ToInstall t.number line)
  aborted : ∀ t cart, .answered t cart .ABORTED ∈ s.trace → ∀ i < cfg.SERVER_CNT,
    installsBy s.trace t i = []
  /-- The lines of committed transactions were taken off the stock of an item, one after the other;
  twenty pieces were added whenever fewer than ten were left. -/
  stock : ∀ i < cfg.SERVER_CNT, ∀ x, ((s.resManagers i).items_region x).I_STOCK =
    (installsAt s.trace i x).foldl (fun stock p =>
      if stock - p.2.SCL_QTY < 10 then stock - p.2.SCL_QTY + 20 else stock - p.2.SCL_QTY)
      (items i x).I_STOCK
  installed : ∀ i < cfg.SERVER_CNT, ∀ x, ∀ p ∈ installsAt s.trace i x, s.Committed p.1
  /-- When all is processed, every committed line is installed, and no answered transaction has a
  lock. -/
  processed_committed : s.Processed cfg → ∀ t cart, .answered t cart .COMMITTED ∈ s.trace →
    ∀ i < cfg.SERVER_CNT, ∃ line, cart[i]? = some line ∧ installsBy s.trace t i = [line]
  processed_unlocked : s.Processed cfg → ∀ t cart outcome, .answered t cart outcome ∈ s.trace →
    ∀ i < cfg.SERVER_CNT, ∀ x, t ∉ holders s.trace i x

end RdmaSnapshot.TPCW.TwoSided
