/-
Taking turns, and the passage of time.

Workers work one at a time, in the order in which they became ready. A worker
whose turn is over is not ready any more, until somebody wakes it or its alarm
rings. Time does not run by itself: it passes only when nobody is ready, and
jumps from one alarm to the next.

Beside the workers stands a caller, who waits for something. It looks before
they work, and again each time a round of turns is over: when nobody is ready,
or after a number of turns. A caller that has what it waits for waits no
longer, whoever is ready then.
-/
set_option autoImplicit false

namespace TxRelay

/-- Who is to work, and when. -/
structure Agenda (τ : Type) where
  now : Nat
  /-- Who is ready, in the order in which they became so. -/
  ready : List τ
  /-- Whose alarm rings when, in the order in which they were set. -/
  alarms : List (Nat × τ)

namespace Agenda

variable {τ : Type}

/-- Nothing is to be done. -/
def empty : Agenda τ := ⟨0, [], []⟩

/-- Somebody new is ready. -/
def join (a : Agenda τ) (t : τ) : Agenda τ := { a with ready := a.ready ++ [t] }

/-- Whether nobody is ready. -/
def isQuiet (a : Agenda τ) : Bool := a.ready.isEmpty

/-- When the next alarm rings. -/
def next? (a : Agenda τ) : Option Nat := (a.alarms.map Prod.fst).min?

variable [BEq τ]

/-- Somebody is woken; nothing if they are ready already. -/
def wake (a : Agenda τ) (t : τ) : Agenda τ := if a.ready.contains t then a else a.join t

/-- Somebody's alarm is off. -/
def dropAlarm (a : Agenda τ) (t : τ) : Agenda τ :=
  { a with alarms := a.alarms.filter fun e => e.2 != t }

/-- Somebody's alarm is set; each has one. -/
def setAlarm (a : Agenda τ) (t : τ) (due : Nat) : Agenda τ :=
  let a := a.dropAlarm t
  { a with alarms := a.alarms ++ [(due, t)] }

/-- It is a certain time: the alarms that are due ring, in the order in which
they were set. -/
def passTo (a : Agenda τ) (now : Nat) : Agenda τ :=
  let (due, later) := a.alarms.partition fun e => e.1 ≤ now
  due.foldl (fun a e => a.wake e.2) { a with now, alarms := later }

end Agenda

/-- A place where workers take turns. -/
structure Workplace (σ τ : Type) where
  agenda : σ → Agenda τ
  /-- The place with another agenda. -/
  withAgenda : σ → Agenda τ → σ
  turn : τ → σ → σ

namespace Workplace

variable {σ τ : Type}

/-- At most so many turns, one after the other. -/
def turns (w : Workplace σ τ) : Nat → σ → σ
  | 0, s => s
  | n + 1, s =>
    match (w.agenda s).ready with
    | [] => s
    | t :: rest => w.turns n (w.turn t (w.withAgenda s { w.agenda s with ready := rest }))

/-- After how many turns the caller looks at the latest. -/
def turnsPerRound : Nat := 61

/-- Whom a caller waits for. -/
structure Caller (σ : Type) where
  /-- It looks. -/
  look : σ → σ
  /-- Whether it has what it waits for. -/
  done : σ → Bool

/-- Round after round, until the caller is done or nobody is ready, but no more
than so many. -/
def rounds (w : Workplace σ τ) (c : Caller σ) : Nat → σ → σ
  | 0, s => s
  | n + 1, s =>
    let s := c.look s
    if c.done s || (w.agenda s).isQuiet then s else w.rounds c n (w.turns turnsPerRound s)

/-- How many rounds there may be at one moment: far more than workers need who
run out of things to do. -/
def roundsPerMoment : Nat := 1000

/-- Waits until the caller is done, but not beyond a limit. -/
def await [BEq τ] (w : Workplace σ τ) (c : Caller σ) (limit : Nat) (s : σ) : σ :=
  go (w.agenda s).now s
where
  /-- Waits, from a certain time on. -/
  go (now : Nat) (s : σ) : σ :=
    let s := w.rounds c roundsPerMoment s
    if c.done s then s
    else if now < limit then
      let next := min limit (max (now + 1) (((w.agenda s).next?).getD limit))
      go next (w.withAgenda s ((w.agenda s).passTo next))
    else s
  termination_by limit - now

/-- Everybody who is ready works, until nobody is; no time passes. -/
def finish (w : Workplace σ τ) (s : σ) : σ :=
  w.rounds ⟨id, fun _ => false⟩ roundsPerMoment s

/-- Waits for some time to pass. Who is due then has not yet worked. -/
def wait [BEq τ] (w : Workplace σ τ) (duration : Nat) (s : σ) : σ :=
  let limit := (w.agenda s).now + duration
  w.await ⟨id, fun s => limit ≤ (w.agenda s).now⟩ limit s

/-- Lets some time pass, and everything happen that is due by then. -/
def sleep [BEq τ] (w : Workplace σ τ) (duration : Nat) (s : σ) : σ := w.finish (w.wait duration s)

end Workplace

end TxRelay
