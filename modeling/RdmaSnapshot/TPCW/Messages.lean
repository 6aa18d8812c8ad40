import Mathlib.Data.Nat.Notation
import Mathlib.Tactic.TypeStar

/-!
# Messages of the two-sided TPC-W benchmark

The structs of `two-sided/TradMessage.hpp` that the managers look into, and what the socket and the
RDMA variant share: the order of the exchanges of a transaction with a resource manager and the
request at its end.
-/

namespace RdmaSnapshot.TPCW

structure ShoppingCartLine where
  SCL_I_ID : Int32
  SCL_QTY : Int32
  SERVER_NUM : Int32
  deriving DecidableEq, Repr

/-- A `WriteDataRequest`: its type and the member of its union that goes with the type. -/
inductive WriteDataRequest
  | DO_NOTHING (I_ID : Int32)
  | UNLOCK (I_ID : Int32)
  | INSTALL_VERSION (cart_line : ShoppingCartLine) (commit_ts : UInt64)
  deriving DecidableEq, Repr

/-- `content.I_ID`, which shares its bytes with the first field of the cart line. -/
def WriteDataRequest.I_ID : WriteDataRequest → Int32
  | .DO_NOTHING I_ID => I_ID
  | .UNLOCK I_ID => I_ID
  | .INSTALL_VERSION cart_line _ => cart_line.SCL_I_ID

inductive CommitOutcome
  | COMMITTED
  | ABORTED
  deriving DecidableEq, Repr

/-- The outcome a transaction manager answers its client with. -/
def commitOutcome (abort_flag : Bool) : CommitOutcome :=
  if abort_flag then .ABORTED else .COMMITTED

/-- The last request of a transaction to one resource manager: after a failed lock the lock this
manager granted, if any, is released, and else the cart line is installed. -/
def writeDataRequest (abort_flag successful : Bool) (locked : Int32)
    (cart_line : ShoppingCartLine) (commit_timestamp : UInt64) : WriteDataRequest :=
  if abort_flag then
    if successful then .UNLOCK locked else .DO_NOTHING locked
  else .INSTALL_VERSION cart_line commit_timestamp

/-- The three exchanges of a transaction with a resource manager, each a request and a response. -/
inductive Round
  | itemInfo
  | lock
  | writeData
  deriving DecidableEq, Repr

/-- The exchange after this one; the last one is followed by the first of the next transaction. -/
def Round.next : Round → Round
  | .itemInfo => .lock
  | .lock => .writeData
  | .writeData => .itemInfo

/-- `ItemInfoRequest`, `LockRequest` or `WriteDataRequest`. -/
inductive Request
  | itemInfo (I_ID : Int32)
  | lock (I_ID : Int32)
  | writeData (request : WriteDataRequest)
  deriving DecidableEq

def Request.round : Request → Round
  | .itemInfo _ => .itemInfo
  | .lock _ => .lock
  | .writeData _ => .writeData

end RdmaSnapshot.TPCW
