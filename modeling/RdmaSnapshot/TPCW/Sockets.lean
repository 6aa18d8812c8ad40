import Mathlib.Logic.Function.Basic
import RdmaSnapshot.Lib.ByteStream
import RdmaSnapshot.Lib.Bytes
import RdmaSnapshot.Lib.Transition
import RdmaSnapshot.TPCW.Messages

/-!
# Sessions of the socket-based TPC-W managers

One client's session in the IPoIB variant (`two-sided/IPoIB`): the client, the thread of the
transaction manager that serves it (`IPTradTrxManager::start_transactions`) and, on each resource
manager, the thread that serves this transaction manager thread
(`IPTradResManager::handle_trx_mng_thread`). Each pair talks over a socket. A message is written
with one `write` and read with one `read` of the size of its struct (`utils::sock_read`), which
takes any positive number of bytes returned for success.

Sessions share the items of the resource managers and the timestamp counter. What a session sees
of the others is the item it is sent, whether a lock was free and its commit timestamp, so these
are inputs here.
-/

namespace RdmaSnapshot.TPCW.IPoIB

open ByteStream

/-! ## Messages -/

def roundAt : ℕ → Round
  | 0 => .itemInfo
  | n + 1 => (roundAt n).next

/-- `ItemInfoResponse`, which is an item as its bytes are stored, `LockResponse` or
`WriteDataResponse`. -/
inductive Response
  | itemInfo (item_version : List UInt8)
  | lock (was_successful : Bool)
  | writeData (I_ID : Int32)
  deriving DecidableEq

def Response.round : Response → Round
  | .itemInfo _ => .itemInfo
  | .lock _ => .lock
  | .writeData _ => .writeData

/-- How the compiler lays out the structs. Of a `CommitRequest` the managers use the cart lines,
of an `ItemInfoResponse` nothing. -/
structure Layout where
  /-- `sizeof(struct CommitRequest)`. -/
  commit_request : ℕ
  /-- `commit_request.cart.cart_lines[i]`. -/
  cart_lines : List UInt8 → ℕ → ShoppingCartLine
  commit_response : Struct CommitOutcome
  item_info_request : Struct Int32
  /-- `sizeof(struct ItemInfoResponse)`. -/
  item_info_response : ℕ
  lock_request : Struct Int32
  lock_response : Struct Bool
  write_data_request : Struct WriteDataRequest
  write_data_response : Struct Int32

namespace Layout

variable (L : Layout)

def requestSize : Round → ℕ
  | .itemInfo => L.item_info_request.sizeof
  | .lock => L.lock_request.sizeof
  | .writeData => L.write_data_request.sizeof

def responseSize : Round → ℕ
  | .itemInfo => L.item_info_response
  | .lock => L.lock_response.sizeof
  | .writeData => L.write_data_response.sizeof

def storeRequest : Request → List UInt8 → List UInt8
  | .itemInfo I_ID => L.item_info_request.store I_ID
  | .lock I_ID => L.lock_request.store I_ID
  | .writeData request => L.write_data_request.store request

def loadRequest : Round → List UInt8 → Request
  | .itemInfo, buffer => .itemInfo (L.item_info_request.load buffer)
  | .lock, buffer => .lock (L.lock_request.load buffer)
  | .writeData, buffer => .writeData (L.write_data_request.load buffer)

/-- An item is written from the items region itself and not from a buffer. -/
def storeResponse : Response → List UInt8 → List UInt8
  | .itemInfo item_version, _ => item_version
  | .lock was_successful, buffer => L.lock_response.store was_successful buffer
  | .writeData I_ID, buffer => L.write_data_response.store I_ID buffer

def loadResponse : Round → List UInt8 → Response
  | .itemInfo, buffer => .itemInfo buffer
  | .lock, buffer => .lock (L.lock_response.load buffer)
  | .writeData, buffer => .writeData (L.write_data_response.load buffer)

variable {L}

theorem length_storeRequest (r : Request) {b : List UInt8}
    (hb : b.length = L.requestSize r.round) :
    (L.storeRequest r b).length = L.requestSize r.round := by
  cases r with
  | itemInfo I_ID => exact L.item_info_request.length_store I_ID b hb
  | lock I_ID => exact L.lock_request.length_store I_ID b hb
  | writeData r => exact L.write_data_request.length_store r b hb

theorem loadRequest_storeRequest (r : Request) {b : List UInt8}
    (hb : b.length = L.requestSize r.round) : L.loadRequest r.round (L.storeRequest r b) = r := by
  cases r with
  | itemInfo I_ID => exact congrArg _ (L.item_info_request.load_store I_ID b hb)
  | lock I_ID => exact congrArg _ (L.lock_request.load_store I_ID b hb)
  | writeData r => exact congrArg _ (L.write_data_request.load_store r b hb)

def Fits (L : Layout) : Response → Prop
  | .itemInfo item_version => item_version.length = L.item_info_response
  | _ => True

instance : DecidablePred L.Fits
  | .itemInfo item_version =>
    inferInstanceAs (Decidable (item_version.length = L.item_info_response))
  | .lock _ => inferInstanceAs (Decidable True)
  | .writeData _ => inferInstanceAs (Decidable True)

theorem length_storeResponse {r : Response} (hr : L.Fits r) {b : List UInt8}
    (hb : b.length = L.responseSize r.round) :
    (L.storeResponse r b).length = L.responseSize r.round := by
  cases r with
  | itemInfo item_version => exact hr
  | lock ok => exact L.lock_response.length_store ok b hb
  | writeData I_ID => exact L.write_data_response.length_store I_ID b hb

theorem loadResponse_storeResponse (r : Response) {b : List UInt8}
    (hb : b.length = L.responseSize r.round) :
    L.loadResponse r.round (L.storeResponse r b) = r := by
  cases r with
  | itemInfo item_version => rfl
  | lock ok => exact congrArg _ (L.lock_response.load_store ok b hb)
  | writeData I_ID => exact congrArg _ (L.write_data_response.load_store I_ID b hb)

end Layout

/-! ## One connection between the managers -/

/-- The message buffers of an `IPTradResManagerContext`. -/
structure Context where
  request : Round → List UInt8
  response : Round → List UInt8

inductive ThreadPC
  | read (t : Round)
  | write (t : Round)
  deriving DecidableEq

/-- The connection to one resource manager with the thread that serves it. The logs say what was
asked and answered and what was made of it at the other end. -/
structure Link where
  /-- The transaction manager's buffers for this resource manager. -/
  res_mng_ctx : Context
  /-- The resource manager's buffers for this transaction manager thread. -/
  ctx : Context
  pc : ThreadPC
  trx_num : ℕ
  requests : Channel Round
  responses : Channel Round
  asked : List Request
  handled : List Request
  answered : List Response
  observed : List Response

/-- The values of `read`'s result that `sock_read` takes for success, given the bytes that have
arrived. -/
def CanRead (stream : List UInt8) (xfer_size rc : ℕ) : Prop :=
  0 < rc ∧ rc ≤ xfer_size ∧ rc ≤ stream.length

instance (stream : List UInt8) (xfer_size rc : ℕ) : Decidable (CanRead stream xfer_size rc) :=
  inferInstanceAs (Decidable (_ ∧ _ ∧ _))

namespace Link

variable (L : Layout) (l : Link)

def ask (r : Request) : Link :=
  let buffer := L.storeRequest r (l.res_mng_ctx.request r.round)
  { l with
    res_mng_ctx :=
      { l.res_mng_ctx with request := Function.update l.res_mng_ctx.request r.round buffer }
    requests := l.requests.write ⟨r.round, buffer⟩
    asked := l.asked ++ [r] }

def observe (t : Round) (rc : ℕ) : Link :=
  let buffer := fill (l.res_mng_ctx.response t) l.responses.stream rc
  { l with
    res_mng_ctx :=
      { l.res_mng_ctx with response := Function.update l.res_mng_ctx.response t buffer }
    responses := l.responses.read t (l.res_mng_ctx.response t) rc
    observed := l.observed ++ [L.loadResponse t buffer] }

/-- The thread of the resource manager reads a request of exchange `t`; with the first one a new
transaction begins. -/
def handle (t : Round) (rc : ℕ) : Link :=
  let buffer := fill (l.ctx.request t) l.requests.stream rc
  { l with
    ctx := { l.ctx with request := Function.update l.ctx.request t buffer }
    pc := .write t
    trx_num := if t = .itemInfo then l.trx_num + 1 else l.trx_num
    requests := l.requests.read t (l.ctx.request t) rc
    handled := l.handled ++ [L.loadRequest t buffer] }

/-- The response of exchange `t`: the item as stored, whether the lock was free, or the item id of
the request that was carried out. -/
def response (t : Round) (item_version : List UInt8) (locked : Bool) : Response :=
  match t with
  | .itemInfo => .itemInfo item_version
  | .lock => .lock locked
  | .writeData => .writeData (L.write_data_request.load (l.ctx.request .writeData)).I_ID

def answer (r : Response) : Link :=
  let buffer := L.storeResponse r (l.ctx.response r.round)
  { l with
    ctx := { l.ctx with response := Function.update l.ctx.response r.round buffer }
    pc := .read r.round.next
    responses := l.responses.write ⟨r.round, buffer⟩
    answered := l.answered ++ [r] }

end Link

/-! ## Sessions -/

inductive ManagerPC
  | readCommitRequest
  | write (t : Round) (i : ℕ)
  | read (t : Round) (i : ℕ)
  | writeCommitResponse
  deriving DecidableEq

inductive ClientPC
  | submit
  | await
  deriving DecidableEq

structure Config where
  SERVER_CNT : ℕ
  TRANSACTION_CNT : ℕ
  layout : Layout

structure Session where
  clientPC : ClientPC
  /-- The client's `trx_num`. -/
  submitted : ℕ
  /-- The client's buffer for the response. -/
  outcome : List UInt8
  commitRequests : Channel Unit
  commitResponses : Channel Unit
  managerPC : ManagerPC
  trx_num : ℕ
  commit_request : List UInt8
  commit_response : List UInt8
  commit_timestamp : UInt64
  abort_flag : Bool
  successful_locking_servers : ℕ → Bool
  links : ℕ → Link

inductive Action
  /-- The client sends its cart. -/
  | clientWrite (commit_request : List UInt8)
  | clientRead (rc : ℕ)
  | managerRead (rc : ℕ)
  /-- The transaction manager writes a message, or leaves a loop; after the first exchange it then
  acquires a commit timestamp. -/
  | manager (commit_timestamp : UInt64)
  | threadRead (i : ℕ) (rc : ℕ)
  | threadWrite (i : ℕ) (item_version : List UInt8) (locked : Bool)

namespace Session

variable (cfg : Config) (s : Session)

def request (t : Round) (i : ℕ) : Request :=
  let cart_line := cfg.layout.cart_lines s.commit_request i
  match t with
  | .itemInfo => .itemInfo cart_line.SCL_I_ID
  | .lock => .lock cart_line.SCL_I_ID
  | .writeData =>
    .writeData (writeDataRequest s.abort_flag (s.successful_locking_servers i)
      (cfg.layout.lock_request.load ((s.links i).res_mng_ctx.request .lock)) cart_line
      s.commit_timestamp)

/-- A response that was read: a lock response sets the flag of its server, and a failed one the
abort flag. -/
def observed (i : ℕ) : Response → Session
  | .lock was_successful =>
    { s with
      successful_locking_servers := Function.update s.successful_locking_servers i was_successful
      abort_flag := s.abort_flag || !was_successful }
  | _ => s

def setLink (i : ℕ) (l : Link) : Session := { s with links := Function.update s.links i l }

def managerRead (rc : ℕ) : Option Session :=
  match s.managerPC with
  | .readCommitRequest =>
    if s.trx_num < cfg.TRANSACTION_CNT ∧
        CanRead s.commitRequests.stream cfg.layout.commit_request rc then
      some
        { s with
          trx_num := s.trx_num + 1
          commit_request := fill s.commit_request s.commitRequests.stream rc
          commitRequests := s.commitRequests.read () s.commit_request rc
          managerPC := .write .itemInfo 0 }
    else none
  | .read t i =>
    let l := s.links i
    if i < cfg.SERVER_CNT ∧ CanRead l.responses.stream (cfg.layout.responseSize t) rc then
      let buffer := fill (l.res_mng_ctx.response t) l.responses.stream rc
      some
        { (s.setLink i (l.observe cfg.layout t rc)).observed i
            (cfg.layout.loadResponse t buffer) with
          managerPC := .read t (i + 1) }
    else none
  | _ => none

/-- A `sock_write` of the transaction manager or the exit of one of its loops. -/
def manager (commit_timestamp : UInt64) : Option Session :=
  match s.managerPC with
  | .readCommitRequest => none
  | .write t i =>
    if i < cfg.SERVER_CNT then
      some
        { s.setLink i ((s.links i).ask cfg.layout (s.request cfg t i)) with
          managerPC := .write t (i + 1) }
    else
      some
        { s with
          managerPC := .read t 0
          abort_flag := if t = .lock then false else s.abort_flag }
  | .read t i =>
    if i < cfg.SERVER_CNT then none
    else match t with
      | .itemInfo =>
        some { s with managerPC := .write .lock 0, commit_timestamp := commit_timestamp }
      | .lock => some { s with managerPC := .write .writeData 0 }
      | .writeData => some { s with managerPC := .writeCommitResponse }
  | .writeCommitResponse =>
    let buffer := cfg.layout.commit_response.store (commitOutcome s.abort_flag) s.commit_response
    some
      { s with
        commit_response := buffer
        commitResponses := s.commitResponses.write ⟨(), buffer⟩
        managerPC := .readCommitRequest }

def clientWrite (commit_request : List UInt8) : Option Session :=
  if s.clientPC = .submit ∧ s.submitted < cfg.TRANSACTION_CNT ∧
      commit_request.length = cfg.layout.commit_request then
    some
      { s with
        clientPC := .await
        submitted := s.submitted + 1
        commitRequests := s.commitRequests.write ⟨(), commit_request⟩ }
  else none

def clientRead (rc : ℕ) : Option Session :=
  if s.clientPC = .await ∧
      CanRead s.commitResponses.stream cfg.layout.commit_response.sizeof rc then
    some
      { s with
        clientPC := .submit
        outcome := fill s.outcome s.commitResponses.stream rc
        commitResponses := s.commitResponses.read () s.outcome rc }
  else none

def threadRead (i rc : ℕ) : Option Session :=
  let l := s.links i
  match l.pc with
  | .read t =>
    if i < cfg.SERVER_CNT ∧ (t = .itemInfo → l.trx_num < cfg.TRANSACTION_CNT) ∧
        CanRead l.requests.stream (cfg.layout.requestSize t) rc then
      some (s.setLink i (l.handle cfg.layout t rc))
    else none
  | .write _ => none

def threadWrite (i : ℕ) (item_version : List UInt8) (locked : Bool) : Option Session :=
  let l := s.links i
  match l.pc with
  | .read _ => none
  | .write t =>
    let r := l.response cfg.layout t item_version locked
    if i < cfg.SERVER_CNT ∧ cfg.layout.Fits r then
      some (s.setLink i (l.answer cfg.layout r))
    else none

end Session

def step (cfg : Config) (s : Session) : Action → Option Session
  | .clientWrite commit_request => s.clientWrite cfg commit_request
  | .clientRead rc => s.clientRead cfg rc
  | .managerRead rc => s.managerRead cfg rc
  | .manager commit_timestamp => s.manager cfg commit_timestamp
  | .threadRead i rc => s.threadRead cfg i rc
  | .threadWrite i item_version locked => s.threadWrite cfg i item_version locked

/-- Nothing was sent; every buffer has the size of its struct. -/
structure Link.Init (L : Layout) (l : Link) : Prop where
  pc : l.pc = .read .itemInfo
  requests : l.requests = .empty
  responses : l.responses = .empty
  logs : l.asked = [] ∧ l.handled = [] ∧ l.answered = [] ∧ l.observed = []
  request : ∀ t, (l.res_mng_ctx.request t).length = L.requestSize t ∧
    (l.ctx.request t).length = L.requestSize t
  response : ∀ t, (l.res_mng_ctx.response t).length = L.responseSize t ∧
    (l.ctx.response t).length = L.responseSize t

structure Init (cfg : Config) (s : Session) : Prop where
  managerPC : s.managerPC = .readCommitRequest
  commitRequests : s.commitRequests = .empty
  commitResponses : s.commitResponses = .empty
  commit_request : s.commit_request.length = cfg.layout.commit_request
  commit_response : s.commit_response.length = cfg.layout.commit_response.sizeof
  outcome : s.outcome.length = cfg.layout.commit_response.sizeof
  links : ∀ i, (s.links i).Init cfg.layout

/-- Where the step is a `sock_read` of one of the managers, its `read` returns the number of bytes
asked for. -/
def WholeReads (cfg : Config) (s : Session) : Action → Prop
  | .managerRead rc =>
    match s.managerPC with
    | .readCommitRequest => rc = cfg.layout.commit_request
    | .read t _ => rc = cfg.layout.responseSize t
    | _ => True
  | .threadRead i rc =>
    match (s.links i).pc with
    | .read t => rc = cfg.layout.requestSize t
    | .write _ => True
  | _ => True

instance (cfg : Config) (s : Session) : DecidablePred (WholeReads cfg s)
  | .clientWrite _ => inferInstanceAs (Decidable True)
  | .clientRead _ => inferInstanceAs (Decidable True)
  | .managerRead rc =>
    match h : s.managerPC with
    | .readCommitRequest =>
      decidable_of_iff (rc = cfg.layout.commit_request) (by simp [WholeReads, h])
    | .read t _ => decidable_of_iff (rc = cfg.layout.responseSize t) (by simp [WholeReads, h])
    | .write _ _ => .isTrue (by simp [WholeReads, h])
    | .writeCommitResponse => .isTrue (by simp [WholeReads, h])
  | .manager _ => inferInstanceAs (Decidable True)
  | .threadRead i rc =>
    match h : (s.links i).pc with
    | .read t => decidable_of_iff (rc = cfg.layout.requestSize t) (by simp [WholeReads, h])
    | .write _ => .isTrue (by simp [WholeReads, h])
  | .threadWrite _ _ _ => inferInstanceAs (Decidable True)

/-- What the two ends of a connection made of its messages: every struct that was filled is the
next message the peer sent, of the type it was read as, and the requests and responses acted on are
those the peer made. -/
structure Link.Faithful (l : Link) : Prop where
  requests : l.requests.received <+: l.requests.sent
  responses : l.responses.received <+: l.responses.sent
  handled : l.handled <+: l.asked
  observed : l.observed <+: l.answered

structure Session.Faithful (cfg : Config) (s : Session) : Prop where
  commitRequests : s.commitRequests.received <+: s.commitRequests.sent
  links : ∀ i < cfg.SERVER_CNT, (s.links i).Faithful

/-! ## Sessions of a little-endian machine -/

def encodeInt (n : Int32) : List UInt8 := Bytes.toLE 4 n.toUInt32.toNat

def decodeInt (b : List UInt8) : Int32 := (UInt32.ofNat (Bytes.ofLE (b.take 4))).toInt32

@[simp] theorem length_encodeInt (n : Int32) : (encodeInt n).length = 4 := Bytes.length_toLE 4 _

@[simp] theorem decodeInt_append (n : Int32) (rest : List UInt8) :
    decodeInt (encodeInt n ++ rest) = n := by
  have hlt : n.toUInt32.toNat < 256 ^ 4 := n.toUInt32.toNat_lt
  rw [decodeInt, List.take_left' (length_encodeInt n), encodeInt, Bytes.ofLE_toLE,
    Nat.mod_eq_of_lt hlt, UInt32.ofNat_toNat]
  rfl

def intStruct : Struct Int32 :=
  .leading 4 encodeInt decodeInt (fun n => (length_encodeInt n).le) decodeInt_append

def boolStruct : Struct Bool :=
  .leading 1 (fun b => [if b then 1 else 0]) (fun b => b.headD 0 != 0) (fun _ => Nat.le_refl 1)
    (fun b _ => by cases b <;> rfl)

def outcomeStruct : Struct CommitOutcome :=
  .leading 4 (fun o => encodeInt (if o = .COMMITTED then 0 else 1))
    (fun b => if decodeInt b = 0 then .COMMITTED else .ABORTED)
    (fun o => (length_encodeInt _).le) (fun o rest => by cases o <;> simp [decodeInt_append])

def encodeLine (line : ShoppingCartLine) : List UInt8 :=
  encodeInt line.SCL_I_ID ++ (encodeInt line.SCL_QTY ++ encodeInt line.SERVER_NUM)

def decodeLine (b : List UInt8) : ShoppingCartLine :=
  ⟨decodeInt b, decodeInt (b.drop 4), decodeInt (b.drop 8)⟩

@[simp] theorem decodeLine_append (line : ShoppingCartLine) (rest : List UInt8) :
    decodeLine (encodeLine line ++ rest) = line := by
  have hdrop (l : List UInt8) : l.drop 8 = (l.drop 4).drop 4 := by rw [List.drop_drop]
  simp [decodeLine, encodeLine, hdrop]

/-- The type, then the members of the union, the timestamp after the cart line. -/
def encodeWriteDataRequest : WriteDataRequest → List UInt8
  | .DO_NOTHING I_ID => encodeInt 0 ++ encodeInt I_ID
  | .UNLOCK I_ID => encodeInt 1 ++ encodeInt I_ID
  | .INSTALL_VERSION line ts => encodeInt 2 ++ (encodeLine line ++ Bytes.toLE 8 ts.toNat)

/-- The tests of the type are those of `handle_trx_mng_thread`, in its order. -/
def decodeWriteDataRequest (b : List UInt8) : WriteDataRequest :=
  if decodeInt b = 1 then .UNLOCK (decodeInt (b.drop 4))
  else if decodeInt b = 0 then .DO_NOTHING (decodeInt (b.drop 4))
  else .INSTALL_VERSION (decodeLine (b.drop 4)) (UInt64.ofNat (Bytes.ofLE ((b.drop 16).take 8)))

theorem decodeWriteDataRequest_append (r : WriteDataRequest) (rest : List UInt8) :
    decodeWriteDataRequest (encodeWriteDataRequest r ++ rest) = r := by
  cases r with
  | DO_NOTHING I_ID => simp [decodeWriteDataRequest, encodeWriteDataRequest]
  | UNLOCK I_ID => simp [decodeWriteDataRequest, encodeWriteDataRequest]
  | INSTALL_VERSION line ts =>
    have hline : (encodeLine line).length = 12 := by simp [encodeLine]
    have hts : Bytes.ofLE (Bytes.toLE 8 ts.toNat) = ts.toNat := by
      rw [Bytes.ofLE_toLE]
      exact Nat.mod_eq_of_lt ts.toNat_lt
    have hdrop (l : List UInt8) : l.drop 16 = (l.drop 4).drop 12 := by rw [List.drop_drop]
    simp [decodeWriteDataRequest, encodeWriteDataRequest, hdrop, List.drop_left' hline,
      List.take_left' (Bytes.length_toLE 8 _), hts]

/-- The layout of a machine with four-byte `int`s, for carts of `n` lines. After the cart lines a
`CommitRequest` has an `Orders` and a `CCXacts`, of 104 and 120 bytes; an item takes 904 bytes. -/
def Layout.littleEndian (n : ℕ) : Layout where
  commit_request := (12 * n + 7) / 8 * 8 + 104 + 120
  cart_lines b i := decodeLine (b.drop (12 * i))
  commit_response := outcomeStruct
  item_info_request := intStruct
  item_info_response := 904
  lock_request := intStruct
  lock_response := boolStruct
  write_data_request :=
    .leading 24 encodeWriteDataRequest decodeWriteDataRequest
      (fun r => by cases r <;> simp [encodeWriteDataRequest, encodeLine])
      decodeWriteDataRequest_append
  write_data_response := intStruct

def Config.single : Config := ⟨1, 1, .littleEndian 1⟩

/-- Before the first message, with cleared buffers. -/
def Session.cleared (cfg : Config) : Session where
  clientPC := .submit
  submitted := 0
  outcome := List.replicate cfg.layout.commit_response.sizeof 0
  commitRequests := .empty
  commitResponses := .empty
  managerPC := .readCommitRequest
  trx_num := 0
  commit_request := List.replicate cfg.layout.commit_request 0
  commit_response := List.replicate cfg.layout.commit_response.sizeof 0
  commit_timestamp := 0
  abort_flag := false
  successful_locking_servers _ := false
  links _ :=
    let ctx : Context := ⟨fun t => List.replicate (cfg.layout.requestSize t) 0,
      fun t => List.replicate (cfg.layout.responseSize t) 0⟩
    ⟨ctx, ctx, .read .itemInfo, 0, .empty, .empty, [], [], [], []⟩

theorem init_cleared (cfg : Config) : Init cfg (.cleared cfg) where
  managerPC := rfl
  commitRequests := rfl
  commitResponses := rfl
  commit_request := List.length_replicate
  commit_response := List.length_replicate
  outcome := List.length_replicate
  links _ :=
    { pc := rfl
      requests := rfl
      responses := rfl
      logs := ⟨rfl, rfl, rfl, rfl⟩
      request := fun _ => ⟨List.length_replicate, List.length_replicate⟩
      response := fun _ => ⟨List.length_replicate, List.length_replicate⟩ }

end RdmaSnapshot.TPCW.IPoIB
