/-
Visiting the items of a list until the visitor has seen enough.

Pools are not handed out as lists; they are walked by a visitor that keeps
notes and says after each item whether it wants another one. The notes and
whether the end was reached are the result.
-/
set_option autoImplicit false

namespace TxRelay

/-- Walks over the items, keeping notes, until the visitor declines to go on.
Also says whether every item was offered and none declined. -/
def visit {α β : Type} (step : β → α → β × Bool) : β → List α → β × Bool
  | notes, [] => (notes, true)
  | notes, x :: rest =>
    match step notes x with
    | (notes, true) => visit step notes rest
    | (notes, false) => (notes, false)

/-- A visitor that records what it sees, and stops once it has seen `limit`
items; without a limit it sees all. -/
def recorder {α : Type} (limit : Option Nat) (seen : List α) (x : α) : List α × Bool :=
  let seen := seen ++ [x]
  (seen, match limit with
    | none => true
    | some n => seen.length < n)

@[simp] theorem visit_nil {α β : Type} (step : β → α → β × Bool) (notes : β) :
    visit step notes [] = (notes, true) := rfl

/-- Visiting two lists in a row is visiting the first and then, if the visitor
still wants more, the second. -/
theorem visit_append {α β : Type} (step : β → α → β × Bool) (notes : β) (xs ys : List α) :
    visit step notes (xs ++ ys) =
      match visit step notes xs with
      | (notes, true) => visit step notes ys
      | (notes, false) => (notes, false) := by
  induction xs generalizing notes with
  | nil => simp
  | cons x rest ih =>
    simp only [List.cons_append, visit]
    rcases step notes x with ⟨notes, _ | _⟩ <;> simp [ih]

end TxRelay
