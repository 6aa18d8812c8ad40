import RdmaSnapshot.Lib.Transition
import RdmaSnapshot.Lib.Fifo
import RdmaSnapshot.Lib.LockWord
import RdmaSnapshot.Timestamp
import RdmaSnapshot.Tables
import RdmaSnapshot.Verbs
import RdmaSnapshot.Client
import RdmaSnapshot.Executor
import RdmaSnapshot.NewOrderTransaction
import RdmaSnapshot.PaymentTransaction
import RdmaSnapshot.DeliveryTransaction
import RdmaSnapshot.System
import RdmaSnapshot.Step
import RdmaSnapshot.Records
import RdmaSnapshot.Clients
import RdmaSnapshot.Locking
import RdmaSnapshot.Effects
import RdmaSnapshot.Landing
import RdmaSnapshot.Steps.Batch
import RdmaSnapshot.Steps.NewOrder
import RdmaSnapshot.Steps.Delivery
import RdmaSnapshot.Steps.Payment
import RdmaSnapshot.Invariant
import RdmaSnapshot.Advance
import RdmaSnapshot.Course
import RdmaSnapshot.Ledger
import RdmaSnapshot.Populate
import RdmaSnapshot.LostUpdate
import RdmaSnapshot.OrderIDs
import RdmaSnapshot.Lib.BumpRing
import RdmaSnapshot.OrderRing
import RdmaSnapshot.Index
import RdmaSnapshot.IndexSequence
import RdmaSnapshot.IndexThreads
import RdmaSnapshot.IndexRegistration
import RdmaSnapshot.IndexLookup
import RdmaSnapshot.Publication
import RdmaSnapshot.CommitTimestamps
import RdmaSnapshot.Snapshots
import RdmaSnapshot.Acceptance
import RdmaSnapshot.FirstCommitter
import RdmaSnapshot.Words
import RdmaSnapshot.CausalSnapshots
import RdmaSnapshot.Rows
import RdmaSnapshot.Claims
import RdmaSnapshot.Deliveries
import RdmaSnapshot.Lib.Bytes
import RdmaSnapshot.Addresses
import RdmaSnapshot.WordLayout
import RdmaSnapshot.OlderVersions
import RdmaSnapshot.Recovery
import RdmaSnapshot.InsertRegions
import RdmaSnapshot.Lib.ByteStream
import RdmaSnapshot.TPCW.Framing
import RdmaSnapshot.TPCW.TwoSided
import RdmaSnapshot.TPCW.CommitProtocol
import RdmaSnapshot.Lib.VersionLock
import RdmaSnapshot.TPCW.ItemLocks
import RdmaSnapshot.TPCW.VersionedItems
import RdmaSnapshot.TPCW.NoLostUpdate
import RdmaSnapshot.TimestampRecord
import RdmaSnapshot.CustomerData
import RdmaSnapshot.Lib.SelfDelimiting
import RdmaSnapshot.CommandLog
import RdmaSnapshot.LastOrders
import RdmaSnapshot.Completions
import RdmaSnapshot.CustomerLookup
import RdmaSnapshot.OrderStatus
import RdmaSnapshot.Isolation
import RdmaSnapshot.PaymentEffect
import RdmaSnapshot.NewOrderEffect
import RdmaSnapshot.StockLevel
import RdmaSnapshot.Lib.Digits
import RdmaSnapshot.TimestampOperand
import RdmaSnapshot.SnapshotText
import RdmaSnapshot.StockQuantity
import RdmaSnapshot.ZipfDistribution
import RdmaSnapshot.CustomerNameIndex
import RdmaSnapshot.Lib.WhileLoop
import RdmaSnapshot.SocketSync
import RdmaSnapshot.Lib.Draws
import RdmaSnapshot.NewOrderCarts
import RdmaSnapshot.Population
import RdmaSnapshot.Aborts
import RdmaSnapshot.PublishOrder
import RdmaSnapshot.Lib.SlidingWindow
import RdmaSnapshot.TPCW.AdaptiveSnapshots
import RdmaSnapshot.VersionChains
import RdmaSnapshot.Transactions
