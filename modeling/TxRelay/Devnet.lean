/-
A development network: some validators of equal weight on one hub, each
connected to every other, with both protocols running.

Everything is submitted to the first node, and the others are watched until
they hold it too.
-/
import TxRelay.Cluster

set_option autoImplicit false

namespace TxRelay.Devnet

/-- The register with the given nodes at weight one (`Devnet::validators`). -/
def validators (subnet : SubnetId) (ids : List NodeId) : ValidatorRegister :=
  ids.foldl (fun r id => r.setWeight id 1) (ValidatorRegister.new subnet)

/-- Connects a node to every id. -/
def connectAll (ids : List NodeId) (n : Node) : Node :=
  { n with network := ids.foldl Network.connect n.network }

/-- **A network of nodes with the given ids**, up and running (`Devnet::spawn`). -/
def spawn (ids : List NodeId) (s : NodeSettings) (salts : Nat → Nat → Salt) :
    Except NodeError Cluster :=
  match (Cluster.new (validators s.subnet ids) s.subnet).build s salts 0 ids with
  | .error e => .error e
  | .ok c =>
    let c := { c with nodes := c.nodes.map (connectAll ids) }
    .ok ((List.range c.nodes.length).foldl Cluster.start c)

/-- Gives an account something on every node (`Devnet::fund`). -/
def fund (c : Cluster) (a : Address) (amount : Amount) : Cluster :=
  { c with nodes := c.nodes.map fun n => n.fund a amount }

/-- Hands items to the first node, one after the other, and says what became of
each. -/
def submitAll {α : Type} (submit : Node → α → Node × Except NodeError Digest) :
    List α → Cluster → Cluster × List (Except NodeError Digest)
  | [], c => (c, [])
  | x :: rest, c =>
    match c.ask 0 fun n => submit n x with
    | none => submitAll submit rest c
    | some (c, r) =>
      let (c, rs) := submitAll submit rest c
      (c, r :: rs)

/-- Whether a node holds given transactions and transfers. -/
def holds (txs transfers : List Digest) (n : Node) : Bool :=
  txs.all n.pool.has && transfers.all n.mempool.has

/-- How much time passes between two looks. -/
def lookEvery : Nat := 10

/-- Looks at a network again and again, up to so many times more, until a
condition holds; also says whether it does. -/
def watch (condition : Cluster → Bool) : Nat → Cluster → Cluster × Bool
  | 0, c => (c, condition c)
  | n + 1, c => if condition c then (c, true) else watch condition n (c.wait lookEvery)

/-- Waits until every node holds what is given, but no longer than a limit. -/
def spread (txs transfers : List Digest) (limit : Nat) (c : Cluster) : Cluster × Bool :=
  watch (fun c => c.nodes.all (holds txs transfers)) ((limit + lookEvery - 1) / lookEvery) c

/-- Shuts every node down; the first failure counts (`Devnet::shutdown`). -/
def shutdown (c : Cluster) : Cluster × Except NodeError Unit :=
  (List.range c.nodes.length).foldl (fun (c, r) i =>
    let (c, s) := c.shutdown i
    (c, r >>= fun () => s)) (c, .ok ())

end TxRelay.Devnet
