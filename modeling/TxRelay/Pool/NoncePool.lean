/-
A sub-pool of transactions ordered by nonce.

A transaction is let in if it is new, acceptable and not behind its sender.
At a nonce that is taken it must outbid what is there by a stated percentage,
and takes its place. Otherwise it needs room: among the sender's transactions,
and in the pool as a whole, where the cheapest transaction from outside makes
way for one that pays more or comes from this node's own interface. The pool
claims an account for as long as it holds a transaction of it.

A refused transaction leaves nothing behind: an account that was claimed for it
on the way is given up again.
-/
import TxRelay.Pool.Holdings
import TxRelay.Pool.SubPool

set_option autoImplicit false

namespace TxRelay

/-- The limits of a nonce-ordered sub-pool (`NoncePoolConfig`). -/
structure NonceLimits where
  /-- How many transactions it holds. -/
  maxTransactions : Nat
  /-- How many transactions it holds of one account. -/
  maxPerAccount : Nat
  /-- By how many percent a replacement has to pay more. -/
  priceBump : Nat
deriving DecidableEq, Inhabited

/-- What a node uses (`NoncePoolConfig::default`). -/
def NonceLimits.standard : NonceLimits := ⟨5120, 64, 10⟩

/-- Limits that are soon reached (`NoncePoolConfig::for_testing`). -/
def NonceLimits.small : NonceLimits := ⟨8, 4, 10⟩

/-- The least price that replaces a given one: so many percent more, and more in
any case (`replacement_threshold`). -/
def replacementPrice (old : Amount) (bump : Nat) : Amount :=
  let bumped := (old.mul (Amount.ofNat (100 + bump))).div 100
  if old < bumped then bumped else old.add (Amount.ofNat 1)

/-- A nonce-ordered sub-pool (`NoncePool`). -/
structure NoncePool where
  name : String
  limits : NonceLimits
  /-- Which transactions are its own. -/
  claims : Transaction → Bool
  holdings : Holdings
  /-- Its seat at the table of claimed accounts, while it is attached. -/
  seat : Option Nat
  /-- The head that it was last reset to. -/
  head : Option Header
  /-- What it failed to give up, oldest first. -/
  unreleased : List ReservationError

namespace NoncePool

/-- A sub-pool that holds nothing and has no seat (`NoncePool::new`). -/
def new (name : String) (limits : NonceLimits) (claims : Transaction → Bool) : NoncePool :=
  ⟨name, limits, claims, Holdings.empty, none, none, []⟩

/-- A sub-pool for given kinds of transaction. -/
def ofKinds (name : String) (limits : NonceLimits) (kinds : List TxKind) : NoncePool :=
  new name limits fun tx => kinds.contains tx.kind

/-! ## Letting in -/

/-- The transactions that a sub-pool holds together with the table of claimed
accounts: what a newcomer changes. -/
structure Space where
  holdings : Holdings
  /-- The table of claimed accounts. -/
  reservations : Reservations
  /-- What the sub-pool failed to give up, oldest first. -/
  unreleased : List ReservationError

/-- What a sub-pool changes when it works under a table of claimed accounts. -/
def space (p : NoncePool) (r : Reservations) : Space := ⟨p.holdings, r, p.unreleased⟩

/-- The sub-pool with the transactions of a space. -/
def settled (p : NoncePool) (s : Space) : NoncePool :=
  { p with holdings := s.holdings, unreleased := s.unreleased }

/-- Gives up an account if it is not the one to keep and nothing of it is held
(`NoncePool::release`). An account that cannot be given up is left alone, and
noted. -/
def Space.settle (s : Space) (seat : Nat) (keep : Option Address) (sender : Address) : Space :=
  if s.holdings.senderCount sender = 0 && keep != some sender then
    let (reservations, errors) := s.reservations.releaseAll seat [sender]
    { s with reservations, unreleased := s.unreleased ++ errors }
  else s

/-- Drops a transaction, and with the last one of its sender the account, unless
it is the account to keep (`NoncePool::drop_tx_keeping`). -/
def Space.drop (s : Space) (seat : Nat) (keep : Option Address) (hash : Digest) : Space :=
  match s.holdings.remove hash with
  | (_, none) => s
  | (holdings, some p) => { s with holdings }.settle seat keep p.tx.sender

/-- What has to make way for a newcomer in a full pool. -/
def victim? (h : Holdings) (tx : Transaction) (isLocal : Bool) : Option Digest :=
  match h.cheapest? with
  | some key => if isLocal || key.price < tx.gasPrice then some key.hash else none
  | none => none

/-- Makes room for a newcomer whose account is claimed, if the pool is full
(`NoncePool::make_room`). -/
def makeRoom (limits : NonceLimits) (seat : Nat) (s : Space) (tx : Transaction) (isLocal : Bool) :
    Except PoolError Space :=
  if s.holdings.size < limits.maxTransactions then .ok s
  else
    match victim? s.holdings tx isLocal with
    | some hash => .ok (s.drop seat (some tx.sender) hash)
    | none => .error .full

/-- Claims the sender of a newcomer, unless it has transactions here. -/
def claimSender (seat : Nat) (s : Space) (sender : Address) : Except PoolError Space :=
  if s.holdings.senderCount sender = 0 then
    match s.reservations.acquire seat sender with
    | .ok reservations => .ok { s with reservations }
    | .error e => .error (.reservation e)
  else .ok s

/-- **One transaction** (`NoncePool::add_one`). The space after it, with it or
without, and whether it was let in or why not. -/
def letIn (limits : NonceLimits) (seat : Nat) (b : Backend) (s : Space) (tx : Transaction)
    (isLocal : Bool) : Space × Outcome :=
  if s.holdings.contains tx.hash then (s, .error .alreadyKnown)
  else
    match b.validate tx with
    | .error reason => (s, .error (.invalid reason))
    | .ok () =>
      if tx.nonce < b.nonce tx.sender then (s, .error (.nonceTooLow (b.nonce tx.sender) tx.nonce))
      else
        match s.holdings.atNonce? tx.sender tx.nonce with
        | some old =>
          if tx.gasPrice < replacementPrice old.tx.gasPrice limits.priceBump then
            (s, .error .underpriced)
          else ({ s with holdings := (s.holdings.remove old.hash).1.insert tx isLocal }, .ok ())
        | none =>
          if limits.maxPerAccount ≤ s.holdings.senderCount tx.sender then
            (s, .error (.accountLimit limits.maxPerAccount))
          else
            match claimSender seat s tx.sender with
            | .error e => (s, .error e)
            | .ok claimed =>
              match makeRoom limits seat claimed tx isLocal with
              | .error e => (claimed.settle seat none tx.sender, .error e)
              | .ok roomy => ({ roomy with holdings := roomy.holdings.insert tx isLocal }, .ok ())

/-- A batch: the space after it, and each transaction's outcome. -/
def letInAll (limits : NonceLimits) (seat : Nat) (b : Backend) (isLocal : Bool) :
    Space → List Transaction → Space × List (Transaction × Outcome)
  | s, [] => (s, [])
  | s, tx :: rest =>
    let (s, outcome) := letIn limits seat b s tx isLocal
    let (s, outcomes) := letInAll limits seat b isLocal s rest
    (s, (tx, outcome) :: outcomes)

/-- The transactions of a batch that were let in. -/
def accepted (outcomes : List (Transaction × Outcome)) : List Transaction :=
  outcomes.filterMap fun o => if o.2.isOk then some o.1 else none

/-- Takes in a batch and announces what was let in (`NoncePool::add`). -/
def add (p : NoncePool) (b : Backend) (c : Commons) (txs : List Transaction) (isLocal : Bool) :
    NoncePool × Commons × List Outcome :=
  match p.seat with
  | none => (p, c, txs.map fun _ => .error .closed)
  | some seat =>
    let (s, outcomes) := letInAll p.limits seat b isLocal (p.space c.reservations) txs
    let new := accepted outcomes
    let bus := if new.isEmpty then c.bus else (c.bus.publish (.transactions new isLocal)).1
    (p.settled s, ⟨s.reservations, bus⟩, outcomes.map Prod.snd)

/-! ## Life of the sub-pool -/

/-- Takes a seat, unless it has one (`NoncePool::init`). -/
def attach (p : NoncePool) (seat : Nat) (head : Header) : NoncePool × Outcome :=
  match p.seat with
  | some _ => (p, .error (.attachFailed p.name "already initialised"))
  | none => ({ p with seat := some seat, head := some head }, .ok ())

/-- Gives up every account, drops everything and leaves its seat
(`NoncePool::close`). -/
def detach (p : NoncePool) (c : Commons) : NoncePool × Commons × Outcome :=
  match p.seat with
  | none => (p, c, .ok ())
  | some seat =>
    let (reservations, errors) := c.reservations.releaseAll seat p.holdings.senders
    ({ p with
        holdings := p.holdings.clear, seat := none, unreleased := p.unreleased ++ errors },
      { c with reservations },
      match errors with
      | [] => .ok ()
      | e :: rest => .error (.detachFailed ((e :: rest).map .reservation)))

/-- Whether a transaction is behind its sender or no longer acceptable. -/
def isStale (b : Backend) (next : UInt64) (tx : Transaction) : Bool :=
  tx.nonce < next || !(b.validate tx).isOk

/-- The transactions to drop. -/
def stale (b : Backend) (h : Holdings) : List Digest :=
  h.senders.flatMap fun sender =>
    ((h.ofSender sender).filter fun p => isStale b (b.nonce sender) p.tx).map Pooled.hash

/-- Drops what is stale on a new head (`NoncePool::reset`). -/
def reset (p : NoncePool) (b : Backend) (c : Commons) (new : Header) : NoncePool × Commons :=
  match p.seat with
  | none => (p, c)
  | some seat =>
    let s := (stale b p.holdings).foldl (fun s hash => s.drop seat none hash)
      (p.space c.reservations)
    ({ p.settled s with head := some new }, { c with reservations := s.reservations })

/-! ## Queries -/

/-- Executable and waiting transactions of a sender. -/
def split (p : NoncePool) (b : Backend) (sender : Address) : List Pooled × List Pooled :=
  p.holdings.split sender (b.nonce sender)

/-- The digests of the executable transactions (`NoncePool::pending_hashes`). -/
def pendingHashes (p : NoncePool) (b : Backend) : List Digest :=
  p.holdings.senders.flatMap fun sender => (p.split b sender).1.map Pooled.hash

/-- A map with the transactions of an account, if there are any. -/
def withAccount (m : AccountTxs) (sender : Address) (ps : List Pooled) : AccountTxs :=
  if ps.isEmpty then m else m.insert sender (ps.map Pooled.tx)

/-- What is held of given accounts (`NoncePool::collect`). -/
def collect (p : NoncePool) (b : Backend) (accounts : List Address) : PoolContent :=
  accounts.foldl (fun content sender =>
    let (pending, queued) := p.split b sender
    ⟨withAccount content.pending sender pending, withAccount content.queued sender queued⟩)
    PoolContent.empty

/-- The executable transactions, newest first (`NoncePool::iterate_pending`). -/
def executable (p : NoncePool) (b : Backend) : List Transaction :=
  let pending := p.pendingHashes b
  (p.holdings.newestFirst.filter fun q => pending.contains q.hash).map Pooled.tx

/-- How many transactions are executable and how many wait (`NoncePool::stats`). -/
def stats (p : NoncePool) (b : Backend) : PoolStats :=
  let pending := (p.pendingHashes b).length
  ⟨pending, p.holdings.size - pending⟩

/-- Where a transaction is (`NoncePool::status`). -/
def status (p : NoncePool) (b : Backend) (hash : Digest) : TxStatus :=
  match p.holdings.get? hash with
  | none => .unknown
  | some q =>
    if (p.split b q.tx.sender).1.any fun r => r.hash == hash then .pending else .queued

/-- What is held of one account (`NoncePool::content_from`). -/
def contentOf (p : NoncePool) (b : Backend) (account : Address) : AccountContent :=
  let (pending, queued) := p.split b account
  ⟨pending.map Pooled.tx, queued.map Pooled.tx⟩

instance : SubPool NoncePool where
  name := name
  claims := claims
  attach := attach
  detach := detach
  reset p b c _ new := some (p.reset b c new)
  add p b c txs isLocal _ := p.add b c txs isLocal
  get? p hash := (p.holdings.get? hash).map Pooled.tx
  hasLocal p hash := ((p.holdings.get? hash).map Pooled.isLocal).getD false
  status := status
  pending p b accounts := (p.collect b (accounts.getD p.holdings.senders)).pending
  content p b := p.collect b p.holdings.senders
  contentOf := contentOf
  executable := executable
  nonce p b account := p.holdings.nextNonce account (b.nonce account)
  stats := stats
  locals p := p.holdings.localSenders

end NoncePool

end TxRelay
