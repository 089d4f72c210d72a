/-
Values with named fields: how settings and items are given to a node by other
programs, and how a node reports its state to them.

A datum is nothing, a truth value, a count, a fraction, a text, a list or a
record. It has no text of its own; whoever exchanges it chooses one. Two
classes connect it with the types of the library. A type that is reported has
one report; a type that is given is read from a datum, or refused. What is not
said is zero or empty: a count of 0, a text or list with nothing in it, a block
of zeros.

Bytes are given and reported as hexadecimal text. Long runs may be given as a
pattern and the number of its repetitions (`ab*300`), and a block of fixed
size by a single byte that fills it.
-/
import TxRelay.Amount
import TxRelay.Identity
import TxRelay.Text.Decimal

set_option autoImplicit false

namespace TxRelay

/-- A value with named fields. -/
inductive Datum where
  | nothing
  | flag (b : Bool)
  | count (n : Nat)
  | fraction (x : Float)
  | text (s : String)
  | list (items : List Datum)
  | fields (fs : List (String × Datum))
deriving Inhabited

/-- A type whose values are reported. -/
class Reported (α : Type) where
  report : α → Datum

/-- A type whose values are given. -/
class Given (α : Type) where
  /-- The value that is meant, if one is. -/
  read? : Datum → Option α

export Reported (report)
export Given (read?)

instance {α : Type} [Reported α] (a : α) : CoeDep α a Datum := ⟨report a⟩

namespace Datum

/-- A record: the names, separated by blanks, and the value of each. -/
def row (names : String) (values : List Datum) : Datum :=
  fields ((names.splitOn " ").zip values)

/-- The fields of two records. -/
def join (a b : Datum) : Datum :=
  match a, b with
  | fields fs, fields gs => fields (fs ++ gs)
  | _, _ => a

/-- A field of a record. -/
def get? (d : Datum) (name : String) : Option Datum :=
  match d with
  | fields fs => fs.lookup name
  | _ => none

/-- A field of a record, as a value. -/
def field? {α : Type} [Given α] (d : Datum) (name : String) : Option α :=
  (d.get? name).bind read?

/-- A field of a record, as a value; if it is not there or cannot be used, what
nothing means. -/
def fieldOrBlank? {α : Type} [Given α] (d : Datum) (name : String) : Option α :=
  d.field? name <|> read? nothing

/-- A field of a record, as a value; if it is not there or cannot be used,
another value. -/
def fieldOr {α : Type} [Given α] (d : Datum) (name : String) (other : α) : α :=
  match d.get? name with
  | some nothing | none => other
  | some x => (read? x).getD other

end Datum

/-! ## Bytes as text -/

/-- The value of a hexadecimal digit. -/
def hexValue? (c : Char) : Option Nat :=
  if c.isDigit then some (c.toNat - 48)
  else if 'a' ≤ c.toLower && c.toLower ≤ 'f' then some (c.toLower.toNat - 87)
  else none

/-- The bytes that pairs of digits spell, after those read before, which are
last first. -/
def bytesOfDigits? : List Char → Bytes → Option Bytes
  | [], read => some read.reverse
  | high :: low :: rest, read => do
    bytesOfDigits? rest (UInt8.ofNat ((← hexValue? high) * 16 + (← hexValue? low)) :: read)
  | [_], _ => none

/-- The bytes that a text spells: digits, or a pattern and its number of
repetitions. -/
def bytesOfText? (s : String) : Option Bytes := do
  match s.splitOn "*" with
  | [digits] => bytesOfDigits? digits.toList []
  | [pattern, times] =>
    some (List.replicate (← times.toNat?) (← bytesOfDigits? pattern.toList [])).flatten
  | _ => none

/-- A block of fixed size from its bytes, or from a byte that fills it. -/
def blockOfBytes? (n : Nat) : Bytes → Option (Vector UInt8 n)
  | [b] => some (Vector.replicate n b)
  | b => Bytes.toBlock? n b

/-! ## What is given -/

section
variable {α β : Type}

/-! Nothing is read as zero or empty by each type that has such a value. -/

instance : Given Datum := ⟨some⟩
instance : Given Bool := ⟨fun d => match d with
  | .nothing => some false
  | .flag b => some b
  | _ => none⟩
instance : Given Nat := ⟨fun d => match d with
  | .nothing => some 0
  | .count n => some n
  | _ => none⟩
instance : Given UInt64 := ⟨fun d => UInt64.ofNat <$> read? d⟩
instance : Given UInt32 := ⟨fun d => UInt32.ofNat <$> read? d⟩
instance : Given UInt8 := ⟨fun d => UInt8.ofNat <$> read? d⟩
instance : Given String := ⟨fun d => match d with
  | .nothing => some ""
  | .text s => some s
  | _ => none⟩
instance : Given Float := ⟨fun d => match d with
  | .nothing => some 0
  | .fraction x => some x
  | .count n => some (Float.ofNat n)
  | .text "nan" => some (0 / 0)
  | .text "inf" => some (1 / 0)
  | .text "-inf" => some (-1 / 0)
  | _ => none⟩
instance : Given Amount := ⟨fun d => match d with
  | .nothing => some (Amount.ofNat 0)
  | .count n => some (Amount.ofNat n)
  | .text s => Amount.ofNat <$> s.toNat?
  | _ => none⟩
instance [Given α] : Given (List α) := ⟨fun d => match d with
  | .nothing => some []
  | .list items => items.mapM read?
  | _ => none⟩
instance [Given α] : Given (Option α) := ⟨fun d => match d with
  | .nothing => some none
  | d => some <$> read? d⟩
instance [Given α] [Given β] : Given (α × β) := ⟨fun d => match d with
  | .list [a, b] => do some (← read? a, ← read? b)
  | _ => none⟩
instance : Given Bytes := ⟨fun d => read? d >>= bytesOfText?⟩
instance {n : Nat} : Given (Vector UInt8 n) := ⟨fun d => match d with
  | .nothing => some (Vector.replicate n 0)
  | d => read? d >>= blockOfBytes? n⟩

/-! ## What is reported -/

instance : Reported Datum := ⟨id⟩
instance : Reported Unit := ⟨fun _ => .text "ok"⟩
instance : Reported Bool := ⟨.flag⟩
instance : Reported Nat := ⟨.count⟩
instance : Reported UInt64 := ⟨fun n => .count n.toNat⟩
instance : Reported UInt32 := ⟨fun n => .count n.toNat⟩
instance : Reported UInt8 := ⟨fun n => .count n.toNat⟩
instance : Reported String := ⟨.text⟩
instance : Reported Float := ⟨fun x => .text (Decimal.scientific 9 x)⟩
instance : Reported Amount := ⟨fun a => .text (toString a.toNat)⟩
instance [Reported α] : Reported (List α) := ⟨fun l => .list (l.map report)⟩
instance [Reported α] : Reported (Option α) := ⟨fun o => (o.map report).getD .nothing⟩
instance [Reported α] [Reported β] : Reported (α × β) := ⟨fun p => .list [report p.1, report p.2]⟩
instance {γ : Type} [Reported α] [Reported β] [Reported γ] : Reported (α × β × γ) :=
  ⟨fun p => .list [report p.1, report p.2.1, report p.2.2]⟩
instance [Reported α] [Reported β] : Reported (Except α β) := ⟨fun r => match r with
  | .ok b => report b
  | .error a => report a⟩
instance : Reported Bytes := ⟨fun b => .text b.toHex⟩
instance {n : Nat} : Reported (Vector UInt8 n) := ⟨fun v => .text (Bytes.toHex v.toList)⟩

end

/-! ## Records by field -/

/-- A field of a record type, under the name that other programs know it by. -/
structure Field (α : Type) where
  name : String
  get : α → Datum
  /-- A record with another value. -/
  set? : α → Datum → Option α

/-- A field with a value that can be given and reported. It keeps its value if
nothing is given. -/
def Field.of {α β : Type} [Given β] [Reported β] (name : String) (get : α → β)
    (set : α → β → α) : Field α where
  name := name
  get a := report (get a)
  set? a d := match d with
    | .nothing => some a
    | d => (read? d).map (set a)

/-- A field that may be empty, and is if nothing is given. -/
def Field.ofOption {α β : Type} [Given β] [Reported β] (name : String) (get : α → Option β)
    (set : α → Option β → α) : Field α where
  name := name
  get a := report (get a)
  set? a d := (read? d).map (set a)

/-- The report of a record. -/
def Field.reportAll {α : Type} (fs : List (Field α)) (a : α) : Datum :=
  .fields (fs.map fun f => (f.name, f.get a))

/-- A record with the fields that a datum has; the others keep their values. -/
def Field.overrideAll? {α : Type} (fs : List (Field α)) (a : α) (d : Datum) : Option α :=
  fs.foldlM (fun a f => match d.get? f.name with
    | some x => f.set? a x
    | none => some a) a

end TxRelay
