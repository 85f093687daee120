import Stencil.Condition.Parser
import Stencil.Path
import Stencil.Value.Equality

/-!
# Truth of conditions

`Condition.eval` decides a condition in a context. Equality is loose; two numbers or two texts have
an order, and no other values have one. What is not found is a missing value, which only `null` and
another missing value are equal to.
-/

namespace Stencil

/-- The value of an operand in a context. -/
def Operand.value? (context : Value) : Operand → Option Value
  | .text t => some (.text t)
  | .bool b => some (.bool b)
  | .null => some .null
  | .number n => some (.number n)
  | .path p => context.resolve? p

/-- The order of two values, which only two numbers and two texts have. -/
def orderOf? : Option Value → Option Value → Option Ordering
  | some (.number a), some (.number b) => a.order? b
  | some (.text s), some (.text t) => some (Text.order s t)
  | _, _ => none

/-- Whether a comparison of two values, either of which may be missing, is true. -/
def Comparison.eval (op : Comparison) (left right : Option Value) : Bool :=
  match op with
  | .equal => looselyEqual left right
  | .unequal => !looselyEqual left right
  | _ => (orderOf? left right).any op.holdsFor

/-- Whether a condition is true in a context. -/
def Condition.eval (context : Value) : Condition → Bool
  | .empty => false
  | .holds path => (context.resolve? path).any Value.isTruthy
  | .malformed expr => (context.resolve? expr).any Value.isTruthy
  | .compare left op right => op.eval (context.resolve? left) (right.value? context)

end Stencil
