/-
Following the head of the chain, one reset at a time.

Heads arrive faster than sub-pools can be reset. While a reset is under way
only the last head that arrived is remembered; the next reset goes from where
the last one ended straight to it. A request to stop lets a reset that is
under way finish and starts no other.

The loop reacts to three signals and does nothing by itself but start a reset;
the reset is carried out elsewhere and its end is one of the signals.
-/
import TxRelay.Header

set_option autoImplicit false

namespace TxRelay

/-- What the loop knows (`ResetState`). -/
structure ResetLoop where
  /-- The head that the last reset ended on. -/
  applied : Header
  /-- The last head that arrived. -/
  latest : Header
  /-- The reset under way: from which head to which. -/
  running : Option (Header × Header)
  /-- Whether the loop was asked to stop. -/
  stopping : Bool
deriving DecidableEq

/-- What the loop reacts to. -/
inductive ResetSignal where
  | head (h : Header)
  /-- The reset under way has ended. -/
  | done
  | stop
deriving DecidableEq

namespace ResetLoop

/-- A loop on the head that the sub-pools were attached on. -/
def start (head : Header) : ResetLoop := ⟨head, head, none, false⟩

/-- Whether the loop has ended. -/
def ended (l : ResetLoop) : Bool := l.stopping && l.running.isNone

/-- Starts a reset if none is under way and a new head has arrived
(`ResetLoop::spawn_reset`). -/
def launch (l : ResetLoop) : ResetLoop :=
  if l.running.isNone && !l.stopping && l.latest.hash != l.applied.hash then
    { l with running := some (l.applied, l.latest) }
  else l

/-- The loop after a signal (`ResetLoop::run`). Heads that arrive after the
request to stop are not looked at. -/
def step (l : ResetLoop) : ResetSignal → ResetLoop
  | .head h => if l.stopping then l else { l with latest := h }.launch
  | .done =>
    match l.running with
    | some (_, target) => { l with applied := target, running := none }.launch
    | none => l
  | .stop => { l with stopping := true }

end ResetLoop

end TxRelay
