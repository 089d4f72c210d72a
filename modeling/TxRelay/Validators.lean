/-
Who may ask: the validators of a subnet.

A provider answers which height the chain has and who the validators of a
subnet are at a height; a lookup asks for the current height. A register knows
the weights of the nodes and the height of the chain. It answers for its own
subnet and for heights that it has reached. A node is a validator if its weight
is not zero. A lookup that fails admits nobody and offers nobody to ask.

Which of the eligible peers are asked is left to chance; the draw is an
argument.
-/
import Std.Data.ExtTreeMap
import TxRelay.Identity

set_option autoImplicit false

namespace TxRelay

/-- Nodes with their weights. -/
abbrev ValidatorSet := Std.ExtTreeMap NodeId UInt64

/-- Why there is no validator set (`ValidatorStateError`). -/
inductive ValidatorError where
  /-- The subnet is another one. -/
  | unknownChain (name : String)
  /-- The height has not been reached. -/
  | heightUnavailable (height : UInt64)
  | provider (reason : String)
deriving DecidableEq

namespace ValidatorError

/-- One word for the cause. -/
def label : ValidatorError → String
  | unknownChain _ => "UnknownChain"
  | heightUnavailable _ => "HeightUnavailable"
  | provider _ => "Provider"

/-- The error in words. -/
def message : ValidatorError → String
  | unknownChain name => "unknown chain: " ++ name
  | heightUnavailable height =>
    "validator set unavailable at height " ++ toString height.toNat
  | provider reason => "validator state error: " ++ reason

end ValidatorError

/-! ## Lookups -/

/-- What a lookup at the current height answered (`ValidatorGate`). -/
abbrev ValidatorLookup := Except ValidatorError ValidatorSet

/-- What a provider of validator sets answers at a time (`ValidatorState`). -/
structure ValidatorProvider where
  /-- The current height. -/
  height : Except ValidatorError UInt64
  /-- The validator set of a subnet at a height. -/
  validatorsAt : UInt64 → SubnetId → Except ValidatorError ValidatorSet

/-- The lookup of a subnet's validators at the current height
(`ValidatorGate::validators`). -/
def ValidatorProvider.lookup (p : ValidatorProvider) (subnet : SubnetId) : ValidatorLookup :=
  match p.height with
  | .error e => .error e
  | .ok height => p.validatorsAt height subnet

/-! ## The register -/

/-- The weights of one subnet (`StaticValidatorState`). -/
structure ValidatorRegister where
  subnet : SubnetId
  /-- The highest height that was reached. -/
  height : UInt64
  weights : ValidatorSet

namespace ValidatorRegister

/-- A register without nodes. -/
def new (subnet : SubnetId) : ValidatorRegister := ⟨subnet, 0, ∅⟩

/-- Sets the weight of a node (`StaticValidatorState::set_weight`). -/
def setWeight (r : ValidatorRegister) (node : NodeId) (weight : UInt64) : ValidatorRegister :=
  { r with weights := r.weights.insert node weight }

/-- Strikes a node (`StaticValidatorState::remove`). -/
def remove (r : ValidatorRegister) (node : NodeId) : ValidatorRegister :=
  { r with weights := r.weights.erase node }

/-- A height is reached; heights never go down
(`StaticValidatorState::set_height`). -/
def reach (r : ValidatorRegister) (height : UInt64) : ValidatorRegister :=
  { r with height := max r.height height }

/-- The validator set of a subnet at a height
(`StaticValidatorState::validator_set`). -/
def validatorsAt (r : ValidatorRegister) (height : UInt64) (subnet : SubnetId) :
    Except ValidatorError ValidatorSet :=
  if subnet ≠ r.subnet then .error (.unknownChain (shortId subnet))
  else if r.height < height then .error (.heightUnavailable height)
  else .ok r.weights

/-- The register as a provider. -/
def provider (r : ValidatorRegister) : ValidatorProvider := ⟨.ok r.height, r.validatorsAt⟩

/-- The validator set of a subnet at the current height. -/
def validators (r : ValidatorRegister) (subnet : SubnetId) : ValidatorLookup :=
  r.provider.lookup subnet

end ValidatorRegister

/-! ## The gate -/

namespace ValidatorLookup

/-- Whether a node is a validator (`ValidatorGate::is_validator`). -/
def admits (lookup : ValidatorLookup) (node : NodeId) : Bool :=
  match lookup with
  | .ok set => 0 < set.getD node 0
  | .error _ => false

/-- The peers that a node may ask. -/
def eligible (lookup : ValidatorLookup) (self : NodeId) (peers : List NodeId) : List NodeId :=
  peers.filter fun peer => peer != self && lookup.admits peer

/-- Up to `limit` of the peers that a node may ask, in the order of the draw
(`ValidatorGate::sample`). -/
def sample (lookup : ValidatorLookup) (self : NodeId) (draw : List NodeId → List NodeId)
    (peers : List NodeId) (limit : Nat) : List NodeId :=
  (draw (lookup.eligible self peers)).take limit

end ValidatorLookup

end TxRelay
