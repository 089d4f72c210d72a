/-
What can be wrong with a filter.

An error is a cause with what is needed to explain it; its label and its words
are two views of the cause. The modules after this one report their errors in
the same way.
-/
import TxRelay.Text.Decimal

set_option autoImplicit false

namespace TxRelay.Bloom

/-- Why a filter is not built, written or read (`FilterError`). -/
inductive FilterError where
  /-- More bytes than the reader accepts. -/
  | tooLarge (size max : Nat)
  /-- A rate of false positives that is not between zero and one. -/
  | invalidRate (rate : Float)
  /-- Settings or dimensions that make no filter. -/
  | invalidParameters (reason : String)
  /-- Bytes that spell no filter, or a filter that cannot be spelled. -/
  | unreadable (reason : String)

/-- One word for the cause, for programs that read the error. -/
def FilterError.label : FilterError → String
  | .tooLarge _ _ => "FilterTooLarge"
  | .invalidRate _ => "InvalidFPR"
  | .invalidParameters _ => "InvalidParameters"
  | .unreadable _ => "SerializationError"

/-- The error in words. -/
def FilterError.message : FilterError → String
  | .tooLarge size max =>
    "Filter size exceeds maximum: " ++ toString size ++ " > " ++ toString max
  | .invalidRate rate => "Invalid false positive rate: " ++ Decimal.shortest rate
  | .invalidParameters reason => "Invalid filter parameters: " ++ reason
  | .unreadable reason => "Serialization error: " ++ reason

end TxRelay.Bloom
