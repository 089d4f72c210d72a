/-
How the filter over a pool is sized and when it is rebuilt.
-/
import TxRelay.Bloom.Error

set_option autoImplicit false

namespace TxRelay.Bloom

/-- The policy of a rolling filter (`BloomSettings`). -/
structure Settings where
  /-- A filter is never sized for fewer elements. -/
  minElements : Nat
  /-- The rate of false positives that a fresh filter is sized for. -/
  targetRate : Float
  /-- The rate beyond which the filter is rebuilt. -/
  resetRate : Float
  /-- A rebuild leaves room for so many times the live elements. -/
  churn : Nat
deriving Inhabited

namespace Settings

/-- What a node uses (`BloomSettings::default`). -/
def standard : Settings := ⟨8192, 0.01, 0.05, 3⟩

/-- Small filters that are rebuilt early (`BloomSettings::for_testing`). -/
def small : Settings := { standard with minElements := 64 }

/-- Whether a rate lies strictly between zero and one. -/
def isRate (x : Float) : Bool := 0 < x && x < 1

/-- Refuses settings that make no filter; the first fault counts
(`BloomSettings::validate`). -/
def validate (s : Settings) : Except FilterError Unit :=
  if s.minElements = 0 then .error (.invalidParameters "min_target_elements cannot be 0")
  else if !isRate s.targetRate then .error (.invalidRate s.targetRate)
  else if !isRate s.resetRate then .error (.invalidRate s.resetRate)
  else if s.resetRate < s.targetRate then
    .error (.invalidParameters ("reset_fpr " ++ Decimal.shortest s.resetRate ++
      " below target_fpr " ++ Decimal.shortest s.targetRate))
  else if s.churn = 0 then .error (.invalidParameters "churn_multiplier cannot be 0")
  else .ok ()

end Settings

end TxRelay.Bloom
