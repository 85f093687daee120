import Stencil.Number.Numeral
import Stencil.Value.Display

/-!
# Equality of values

`Value.equals` compares what values hold: it looks through cells everywhere, compares numbers
numerically, and does not see the order of an object's keys. `looselyEqual` is the equality of
conditions, in which a value may also be missing. It converts before it compares: a missing value is
`null`, a truth value is the number one or zero, and a container that is not compared with a
container is its text; a text that is compared with a number is the number that it stands for.
-/

namespace Stencil

namespace Value

mutual

/-- Whether two values hold the same. -/
def equals : Value → Value → Bool
  | cell c, w => c.equals w
  | null, w => match w.content with
    | null => true
    | _ => false
  | bool a, w => match w.content with
    | bool b => a == b
    | _ => false
  | number a, w => match w.content with
    | number b => a.equals b
    | _ => false
  | text a, w => match w.content with
    | text b => a == b
    | _ => false
  | array xs, w => match w.content with
    | array ys => itemsEqual xs ys
    | _ => false
  | object xs, w => match w.content with
    | object ys => xs.length == ys.length && entriesWithin xs ys
    | _ => false
termination_by structural v => v

/-- Whether two arrays hold the same items in the same places. -/
def itemsEqual : List Value → List Value → Bool
  | [], [] => true
  | x :: xs, y :: ys => x.equals y && itemsEqual xs ys
  | _, _ => false
termination_by structural xs => xs

/-- Whether every entry of one object has an equal in another. -/
def entriesWithin : List (Text × Value) → Entries Value → Bool
  | [], _ => true
  | (k, v) :: rest, ys =>
    (match Entries.get? k ys with
      | some w => v.equals w
      | none => false) && entriesWithin rest ys
termination_by structural xs => xs

end

/-- A cell compares as its content, on the left. -/
@[simp] theorem equals_cell_left (v w : Value) : (cell v).equals w = v.equals w := by
  simp only [equals]

end Value

/-- What a value is compared as when it is compared loosely and not as a container. -/
inductive Scalar where
  | number (n : Number)
  | text (t : Text)

namespace Scalar

/-- Equality of scalars; a text is converted when the other side is a number. -/
def equals : Scalar → Scalar → Bool
  | number a, number b => a.equals b
  | number a, text t => a.equals (.ofText t)
  | text t, number b => b.equals (.ofText t)
  | text s, text t => s == t

/-- Equality of scalars has no direction. -/
theorem equals_comm (a b : Scalar) : a.equals b = b.equals a := by
  have number_comm (x y : Number) : x.equals y = y.equals x := by
    rw [Bool.eq_iff_iff, Number.equals_iff, Number.equals_iff]
    simp only [and_comm]
  cases a <;> cases b <;> simp only [equals]
  · exact number_comm _ _
  · exact BEq.comm

end Scalar

namespace Value

/-- The scalar of a value; `null` has none. -/
def scalar? (v : Value) : Option Scalar :=
  match v.content with
  | null | cell _ => none
  | bool b => some (.number (.ofNat b.toNat))
  | number n => some (.number n)
  | text t => some (.text t)
  | array items => some (.text (array items).display)
  | object entries => some (.text (object entries).display)

end Value

/-- Loose equality of two values, either of which may be missing. -/
def looselyEqual (left right : Option Value) : Bool :=
  match left, right with
  | some v, some w =>
    -- Two containers are compared as they are, all else after conversion.
    if v.isContainer && w.isContainer then v.equals w
    else match v.scalar?, w.scalar? with
      | some a, some b => a.equals b
      | none, none => true
      | _, _ => false
  | some v, none | none, some v => v.scalar?.isNone
  | none, none => true

end Stencil
