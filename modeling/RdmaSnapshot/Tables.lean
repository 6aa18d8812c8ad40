import RdmaSnapshot.Timestamp

/-!
# The tables and the servers' memory

Rows of the TPC-C tables, with the fields that the transactions read or write, the keys under
which a server stores them, and the memory the clients reach by one-sided verbs: for every record
a head version, a pointer list of older timestamps and a ring of older versions.

A record of the Warehouse, District, Customer and Stock tables is named by its key; the map from
keys to byte addresses is not part of this module. A row of the insert-only tables is named by its
server and its index in the table, because the same row is reached through different
(client, offset) pairs.
-/

namespace RdmaSnapshot

structure Warehouse where
  W_ID : UInt16
  W_NAME : String
  W_YTD : Float32

structure District where
  D_ID : UInt8
  D_W_ID : UInt16
  D_NEXT_O_ID : UInt64
  D_NAME : String
  D_YTD : Float32

/-- `TPCC::Customer`. `C_DATA` is the 500-byte array. -/
structure Customer where
  C_ID : UInt32
  C_D_ID : UInt8
  C_W_ID : UInt16
  C_CREDIT : String
  C_BALANCE : Float32
  C_YTD_PAYMENT : Float32
  C_PAYMENT_CNT : UInt16
  C_DELIVERY_CNT : UInt16
  C_DATA : List UInt8

structure Stock where
  S_I_ID : UInt32
  S_W_ID : UInt16
  S_QUANTITY : UInt16
  S_YTD : UInt32
  S_ORDER_CNT : UInt16
  S_REMOTE_CNT : UInt16
  S_DIST : ℕ → String

structure Item where
  I_ID : UInt32
  I_PRICE : Float32

structure Order where
  O_ID : UInt32
  O_D_ID : UInt8
  O_W_ID : UInt16
  O_C_ID : UInt32
  O_CARRIER_ID : UInt8
  O_OL_CNT : UInt8
  O_ALL_LOCAL : UInt8

structure NewOrder where
  NO_O_ID : UInt32
  NO_D_ID : UInt8
  NO_W_ID : UInt16

structure OrderLine where
  OL_O_ID : UInt32
  OL_D_ID : UInt8
  OL_W_ID : UInt16
  OL_NUMBER : UInt8
  OL_I_ID : UInt32
  OL_SUPPLY_W_ID : UInt32
  OL_DELIVERY_D : Int
  OL_QUANTITY : UInt8
  OL_AMOUNT : Float32
  OL_DIST_INFO : String

structure History where
  H_C_ID : UInt32
  H_C_D_ID : UInt8
  H_C_W_ID : UInt16
  H_D_ID : UInt8
  H_W_ID : UInt16
  H_AMOUNT : Float32
  H_DATA : String

inductive Table
  | warehouse | district | customer | stock | item | order | newOrder | orderLine | history
  deriving DecidableEq

@[reducible] def Row : Table → Type
  | .warehouse => Warehouse
  | .district => District
  | .customer => Customer
  | .stock => Stock
  | .item => Item
  | .order => Order
  | .newOrder => NewOrder
  | .orderLine => OrderLine
  | .history => History

inductive Key
  | warehouse (wID : UInt16)
  | district (wID : UInt16) (dID : UInt8)
  | customer (wID : UInt16) (dID : UInt8) (cID : UInt32)
  | stock (wID : UInt16) (iID : UInt32)
  | item (serverNum : ℕ) (iID : UInt32)
  | order (serverNum tableIndex : ℕ)
  | newOrder (serverNum tableIndex : ℕ)
  | orderLine (serverNum tableIndex : ℕ)
  | history (serverNum tableIndex : ℕ)
  deriving DecidableEq

@[reducible] def Key.table : Key → Table
  | .warehouse _ => .warehouse
  | .district _ _ => .district
  | .customer _ _ _ => .customer
  | .stock _ _ => .stock
  | .item _ _ => .item
  | .order _ _ => .order
  | .newOrder _ _ => .newOrder
  | .orderLine _ _ => .orderLine
  | .history _ _ => .history

/-- `WarehouseVersion`, `DistrictVersion` and so on: a row behind its timestamp word. -/
@[ext] structure Version (B : Type) where
  writeTimestamp : Timestamp
  body : B

/-- What a server holds for one record: the head version, the `VERSION_NUM` entries of the
pointer list and the ring of older versions. -/
@[ext] structure Record (B : Type) where
  head : Version B
  tsList : List Timestamp
  olderVersions : ℕ → Version B

abbrev Memory := (k : Key) → Record (Row k.table)

end RdmaSnapshot
