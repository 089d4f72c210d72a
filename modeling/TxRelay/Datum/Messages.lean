/-
What messages hold: by name, for programs that make them or look into them.
-/
import TxRelay.Datum.Errors
import TxRelay.Datum.Status
import TxRelay.Gossip.Item

set_option autoImplicit false

namespace TxRelay

/-- A filter by its dimensions, for a number of elements at a rate, or by its
bytes. -/
def filterOf? (d : Datum) : Option (Except Bloom.FilterError Bloom.BloomFilter) := do
  match d.get? "new", d.get? "sized" with
  | some x, _ =>
    let (m, k) ← read? x
    some (.ok (.new m k))
  | none, some x =>
    let (n, rate) ← read? x
    some (.ok (.sized n rate))
  | none, none => some (Bloom.BloomFilter.parse (← d.fieldOrBlank? "parse") (d.fieldOr "max" (1024 * 1024)))

/-- The report of what bytes spell, under a name for it. -/
def reportDecoded {α β : Type} [Wire.Layout α] [Reported β] (b : Bytes) (view : α → β) : Datum :=
  report ((Wire.decode b : Except Wire.Fault α).map fun x => Datum.row "ok" [view x])

/-- What bytes spell, taken for a kind of message or item. -/
def decodedAs? (kind : String) (b : Bytes) : Option Datum :=
  match kind with
  | "eth" => some (reportDecoded b fun (t : Transaction) => Datum.row "tx hash" [t, t.hash])
  | "atomic" => some (reportDecoded b fun (t : Transfer) => Datum.row "tx id" [t, t.id])
  | "pull_request" =>
    some (reportDecoded b fun (m : Wire.PullRequest) => Datum.row "filter salt" [m.filter, m.salt])
  | "pull_response" => some (reportDecoded b Wire.PullResponse.items)
  | "push" => some (reportDecoded b Wire.PushMessage.items)
  | _ => none

/-- The bytes of a message of a kind with given fields. -/
def encodedAs? (kind : String) (d : Datum) : Option (Except Wire.Fault Bytes) := do
  match kind with
  | "pull_request" =>
    some (Wire.encode (⟨← d.fieldOrBlank? "filter", ← d.fieldOrBlank? "salt"⟩ : Wire.PullRequest))
  | "pull_response" => some (Wire.encode (⟨← d.fieldOrBlank? "gossip"⟩ : Wire.PullResponse))
  | "push" => some (Wire.encode (⟨← d.fieldOrBlank? "gossip"⟩ : Wire.PushMessage))
  | _ => none

/-- A request for what a filter misses. The filter is given by its bytes, or is
made and holds some ids under the salt of the request. -/
def inquiryOf? (known : List Digest) (d : Datum) : Option Bytes := do
  let salt : Bytes ← d.fieldOrBlank? "salt"
  let filter ← d.field? "filter_hex" <|> do
    let f ← (← filterOf? (← d.field? "filter")).toOption
    pure (known.foldl (fun f id => f.insert id.toList salt) f).toBytes
  (Wire.encode (⟨filter, salt⟩ : Wire.PullRequest)).toOption

/-- The bytes of items, each given by itself or by the position of what it
spells. -/
def itemsOf? {ι : Type} [GossipItem ι] (txs : List ι) (items : List Datum) : Option (List Bytes) :=
  items.mapM fun d => read? d <|> do marshal? (← txs[(← read? d : Nat)]?)

section
variable (ι : Type) [GossipItem ι]

/-- The ids of the items that byte strings spell. -/
def idsIn (items : List Bytes) : List Digest :=
  items.filterMap fun b =>
    (Wire.decode b : Except Wire.Fault ι).toOption.map GossipItem.gossipId

/-- The ids of the items in an answer. -/
def idsInAnswer (payload : Bytes) : List Digest :=
  match (Wire.decode payload : Except Wire.Fault Wire.PullResponse) with
  | .ok m => idsIn ι m.items
  | .error _ => []

/-- An announcement with its protocol and the ids of its items. -/
def reportAnnouncement (message : Bytes) : Datum :=
  let items := match (Wire.decode message.tail : Except Wire.Fault Wire.PushMessage) with
    | .ok m => m.items
    | .error _ => []
  .row "protocol len items" [message.head?, message.length, idsIn ι items]

end

/-- A request to a node with its protocol and the shape of its filter. -/
def reportInquiry (node : NodeId) (message : Bytes) : Datum :=
  match (Wire.decode message.tail : Except Wire.Fault Wire.PullRequest) with
  | .error fault => fault
  | .ok m => .row "node protocol salt_len filter"
    [NodeId.display node, message.head?, m.salt.length,
      (Bloom.BloomFilter.parse m.filter m.filter.length).toOption]

/-- A filter, and whether it covers given ids under its salt. -/
def reportCover (ids : List Digest) (filter : Bytes × Salt) : Datum :=
  match Bloom.BloomFilter.parse filter.1 filter.1.length with
  | .error e => e
  | .ok f => .row "filter len covers"
    [f, filter.1.length, ids.all fun id => f.contains id.toList filter.2.toList]

end TxRelay
