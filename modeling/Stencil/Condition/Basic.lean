import Stencil.Number.Basic
import Stencil.Text.Basic

/-!
# Conditions

What the expression of an `@if` block can say: a comparison of a path with an operand, or a path
whose value is tested alone.
-/

namespace Stencil

/-- A comparison operator. -/
inductive Comparison where
  | equal
  | unequal
  | greater
  | atLeast
  | less
  | atMost
deriving DecidableEq

namespace Comparison

/-- The symbol of an operator. -/
def symbol : Comparison → Text
  | equal => ['=', '=']
  | unequal => ['!', '=']
  | greater => ['>']
  | atLeast => ['>', '=']
  | less => ['<']
  | atMost => ['<', '=']

/-- The operators in the order in which they are looked for, longer symbols first. -/
def all : List Comparison := [equal, unequal, atLeast, atMost, greater, less]

/-- The operator with a symbol. -/
def ofSymbol? (t : Text) : Option Comparison := all.find? (·.symbol = t)

/-- Every operator is found from its symbol. -/
@[simp] theorem ofSymbol?_symbol (op : Comparison) : ofSymbol? op.symbol = some op := by
  cases op <;> rfl

/-- The operator that stands at the beginning of a text, and what follows it. -/
def atStart? (t : Text) : Option (Comparison × Text) :=
  all.findSome? fun op => (Text.after? op.symbol t).map (op, ·)

/-- Whether an order of two values answers to an operator. -/
def holdsFor : Comparison → Ordering → Bool
  | equal, o => o.isEq
  | unequal, o => o.isNe
  | greater, o => o.isGT
  | atLeast, o => o.isGE
  | less, o => o.isLT
  | atMost, o => o.isLE

end Comparison

/-- The right side of a comparison. -/
inductive Operand where
  | text (t : Text)
  | bool (b : Bool)
  | null
  | number (n : Number)
  | path (p : Text)
deriving DecidableEq

/-- A condition. -/
inductive Condition where
  /-- A blank expression. -/
  | empty
  /-- A path and an operand to compare its value with. -/
  | compare (left : Text) (op : Comparison) (right : Operand)
  /-- A path whose value is tested alone. -/
  | holds (path : Text)
  /-- An expression that has an operator but is no comparison; it is tested like a path. -/
  | malformed (expr : Text)
deriving DecidableEq

/-- How the operator of a condition is looked for. -/
inductive Detection where
  /-- The symbols of operators count everywhere. -/
  | legacy
  /-- The symbols of operators do not count between single quotes. -/
  | strict
deriving DecidableEq

end Stencil
