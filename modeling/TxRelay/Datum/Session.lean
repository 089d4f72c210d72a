/-
Sessions: another program operates a part of a node step by step.

A step is a record that says what to do, and with what. It may look at the
state or change it, and it is answered by a datum. What a step does not say is
zero or empty. A step that makes no sense has no answer, and a session with
such a step has none either.
-/
import TxRelay.Datum
import TxRelay.Visit

set_option autoImplicit false

namespace TxRelay

/-- Something done in a step, which is at hand, on a state. -/
abbrev Step (σ α : Type) := ReaderT Datum (StateT σ Option) α

namespace Session

variable {σ τ α β γ ε : Type}

/-- Carries out steps on a state, one after the other: their answers, and the
state afterwards. -/
def carryOut (f : String → Step σ Datum) : σ → List Datum → Option (List Datum × σ)
  | s, [] => some ([], s)
  | s, d :: rest => do
    let (answer, s) ← f (← d.fieldOrBlank? "do") d s
    let (answers, s) ← carryOut f s rest
    some (answer :: answers, s)

/-- **A session.** The answers to its steps follow some that are there from the
start. -/
def run (s : σ) (first : List Datum) (d : Datum) (f : String → Step σ Datum) : Option Datum := do
  let (answers, _) ← carryOut f s (← d.fieldOrBlank? "steps")
  some (.row "steps" [first ++ answers])

/-- A session whose answers show the state beside the result. -/
def runView (s : σ) (names : String) (view : σ → List Datum) (d : Datum)
    (f : String → Step σ Datum) : Option Datum :=
  run s [] d fun name => do
    let r ← f name
    pure (.row ("r " ++ names) (r :: view (← get)))

/-! ## What a step says -/

/-- A field of the step; what nothing means if there is none. -/
def arg [Given α] (name : String) : Step σ α := do (← read).fieldOrBlank? name

/-- A field that the step need not have. -/
def argIf [Given α] (name : String) : Step σ α := do (← read).field? name

/-- A field of the step, or something else. -/
def argD [Given α] (name : String) (other : α) : Step σ α := do pure ((← read).fieldOr name other)

/-- The integers of a range, as eight bytes each. -/
def range : Step σ (List Bytes) := do
  let first : Nat ← argD "from" 0
  pure ((List.range ((← arg "to") - first)).map fun i => Bytes.ofNatLE 8 (first + i))

/-- The items at the positions that a field of the step lists. -/
def chosen (items : List α) (name : String) : Step σ (List α) := do
  let positions : List Nat ← arg name
  (positions.mapM fun i => items[i]? : Option (List α))

/-- The item at the position that the step says. -/
def chosenOne (items : List α) : Step σ α := do items[(← arg "tx" : Nat)]?

/-- The id that is meant by a text, or by the position of an item. -/
def idOf? (id : α → Digest) (items : List α) (d : Datum) : Option Digest :=
  read? d <|> ((read? d : Option Nat).bind fun i => (items[i]?).map id)

/-- The id that the step says. -/
def chosenId (id : α → Digest) (items : List α) : Step σ Digest := do
  idOf? id items (← arg "tx")

/-! ## What a step does -/

section
variable [Reported γ] [Reported ε]

/-- Looks at the state. -/
def look (f : σ → γ) : Step σ Datum := do pure (f (← get))

/-- Looks at the state, given what the step says. -/
def lookM (m : Step σ α) (f : σ → α → γ) : Step σ Datum := do
  let a ← m
  look fun s => f s a

/-- Looks at the state, given a field of the step. -/
def look1 [Given α] (name : String) (f : σ → α → γ) : Step σ Datum := lookM (arg name) f

/-- Changes the state. -/
def act (f : σ → σ × γ) : Step σ Datum := do
  let (s, a) := f (← get)
  set s
  pure a

/-- Changes the state, given what the step says. -/
def actM (m : Step σ α) (f : σ → α → σ × γ) : Step σ Datum := do
  let a ← m
  act fun s => f s a

/-- Changes the state, given a field of the step. -/
def act1 [Given α] (name : String) (f : σ → α → σ × γ) : Step σ Datum := actM (arg name) f

/-- Changes the state and has nothing to say. -/
def put (f : σ → σ) : Step σ Datum := act fun s => (f s, Datum.nothing)

/-- Changes the state, given what the step says. -/
def putM (m : Step σ α) (f : σ → α → σ) : Step σ Datum := do
  let a ← m
  put fun s => f s a

/-- Changes the state, given a field of the step. -/
def put1 [Given α] (name : String) (f : σ → α → σ) : Step σ Datum := putM (arg name) f

/-- Changes the state, given two fields of the step. -/
def put2 [Given α] [Given β] (one two : String) (f : σ → α → β → σ) : Step σ Datum := do
  let a ← arg one
  put1 two fun s b => f s a b

/-- Changes the state, or is refused and leaves it alone. -/
def attempt (f : σ → Except ε σ) : Step σ Datum := act fun s => match f s with
  | .ok s => (s, report ())
  | .error e => (s, report e)

end

/-- A step on a part of the state. -/
def on (part : σ → τ) (replace : σ → τ → σ) (m : Step τ α) : Step σ α := do
  let s ← get
  let (a, t) ← m (← read) (part s)
  set (replace s t)
  pure a

/-- What a visitor sees of some items, by their ids, and whether it was shown
all. The step may say how much it wants to see. -/
def visited (id : α → Digest) (items : σ → List α) : Step σ (List Digest × Bool) := do
  let limit : Option Nat ← argD "limit" none
  let (seen, whole) := visit (recorder limit) [] (items (← get))
  pure (seen.map id, whole)

end Session

end TxRelay
