import TxRelay.Bytes
import TxRelay.Amount
import TxRelay.Text.Numeral
import TxRelay.Text.Decimal
import TxRelay.Text.Printable
import TxRelay.Text.Quoted
import TxRelay.Digest.Sha256
import TxRelay.Digest.Murmur
import TxRelay.Identity
import TxRelay.Header
import TxRelay.Transaction
import TxRelay.Transfer
import TxRelay.Lru
import TxRelay.Throttle
import TxRelay.Visit
import TxRelay.Validators
import TxRelay.Bloom.Error
import TxRelay.Bloom.Bits
import TxRelay.Bloom.Sizing
import TxRelay.Bloom.Settings
import TxRelay.Bloom.Filter
import TxRelay.Bloom.Rolling
import TxRelay.Wire.Utf8
import TxRelay.Wire.Fault
import TxRelay.Wire.Reader
import TxRelay.Wire.Layout
import TxRelay.Wire.Message
import TxRelay.Event
import TxRelay.Bus
import TxRelay.Bus.Stream
import TxRelay.Ledger
import TxRelay.Pool.Error
import TxRelay.Pool.Reservations
import TxRelay.Pool.SubPool
import TxRelay.Pool.Holdings
import TxRelay.Pool.NoncePool
import TxRelay.Pool.Scripted
import TxRelay.Pool.Either
import TxRelay.Pool.ResetLoop
import TxRelay.Pool.Coordinator
import TxRelay.Mempool.Error
import TxRelay.Mempool.Store
import TxRelay.Mempool
import TxRelay.Gossip.Error
import TxRelay.Gossip.Item
import TxRelay.Gossip.Settings
import TxRelay.Gossip.Counters
import TxRelay.Gossip.PoolSet
import TxRelay.Gossip.TransferSet
import TxRelay.Gossip.Outbox
import TxRelay.Gossip.Gossiper
import TxRelay.Network
import TxRelay.Gossip.Service
import TxRelay.Node.Error
import TxRelay.Node.Settings
import TxRelay.Node
import TxRelay.Agenda
import TxRelay.Cluster
import TxRelay.Devnet
import TxRelay.Gossip.Rehearsal
import TxRelay.Network.Desk
import TxRelay.Datum
import TxRelay.Datum.Items
import TxRelay.Datum.Errors
import TxRelay.Datum.Settings
import TxRelay.Datum.Status
import TxRelay.Datum.Messages
import TxRelay.Datum.Pools
import TxRelay.Datum.Session
import TxRelay.Proofs.Entries
import TxRelay.Proofs.Throttle
import TxRelay.Proofs.SlidingWindow
import TxRelay.Proofs.Preimage
import TxRelay.Proofs.TransferPreimage
import TxRelay.Proofs.Bloom
import TxRelay.Proofs.FilterBytes
import TxRelay.Proofs.FilterContents
import TxRelay.Proofs.FilterParsing
import TxRelay.Proofs.Wire
import TxRelay.Proofs.RoundTrip
import TxRelay.Proofs.Canonical
import TxRelay.Proofs.Oversize
import TxRelay.Proofs.Delivery
import TxRelay.Proofs.Backlog
import TxRelay.Proofs.Subscriptions
import TxRelay.Proofs.Streams
import TxRelay.Proofs.Ledger
import TxRelay.Proofs.Charges
import TxRelay.Proofs.Reservations
import TxRelay.Proofs.Tenure
import TxRelay.Proofs.Holdings
import TxRelay.Proofs.NoncePool
import TxRelay.Proofs.Exclusivity
import TxRelay.Proofs.FourIndices
import TxRelay.Proofs.Succession
import TxRelay.Proofs.Pending
import TxRelay.Proofs.Price
import TxRelay.Proofs.Outbidding
import TxRelay.Proofs.Refusals
import TxRelay.Proofs.Batch
import TxRelay.Proofs.Admission
import TxRelay.Proofs.Charter
import TxRelay.Proofs.Seating
import TxRelay.Proofs.Capacity
import TxRelay.Proofs.Resetting
import TxRelay.Proofs.Halves
import TxRelay.Proofs.Merged
import TxRelay.Proofs.Queries
import TxRelay.Proofs.Following
import TxRelay.Proofs.Pursuit
import TxRelay.Proofs.Tracking
import TxRelay.Proofs.CarriedOut
import TxRelay.Proofs.ResetOrder
import TxRelay.Proofs.Shutdown
import TxRelay.Proofs.Announcing
import TxRelay.Proofs.Dismissal
import TxRelay.Proofs.Closing
import TxRelay.Proofs.SharedPools
import TxRelay.Proofs.Unwinding
import TxRelay.Proofs.TransferStore
import TxRelay.Proofs.Mempool
import TxRelay.Proofs.StoreIndices
import TxRelay.Proofs.MempoolFilter
import TxRelay.Proofs.Handover
import TxRelay.Proofs.Placing
import TxRelay.Proofs.Rivals
import TxRelay.Proofs.Renumbering
import TxRelay.Proofs.Unmoved
import TxRelay.Proofs.Eviction
import TxRelay.Proofs.Verdicts
import TxRelay.Proofs.Arrivals
import TxRelay.Proofs.Correspondence
import TxRelay.Proofs.Matching
import TxRelay.Proofs.Requests
import TxRelay.Proofs.Gossip
import TxRelay.Proofs.PoolHistory
import TxRelay.Proofs.PoolFilter
import TxRelay.Proofs.Answer
import TxRelay.Proofs.Responder
import TxRelay.Proofs.Selection
import TxRelay.Proofs.PullRound
import TxRelay.Proofs.Receiving
import TxRelay.Proofs.Outbox
import TxRelay.Proofs.OwnNews
import TxRelay.Proofs.Pushing
import TxRelay.Proofs.Packing
import TxRelay.Proofs.Flushing
import TxRelay.Proofs.Counting
import TxRelay.Proofs.Asking
import TxRelay.Proofs.Recipients
import TxRelay.Proofs.PullCycles
import TxRelay.Proofs.Traffic
import TxRelay.Proofs.Blocks
import TxRelay.Proofs.BlockOrder
import TxRelay.Proofs.DoubleSpend
import TxRelay.Proofs.NonceRange
import TxRelay.Proofs.InSync
import TxRelay.Proofs.Redelivery
