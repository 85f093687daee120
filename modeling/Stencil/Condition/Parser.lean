import Stencil.Condition.Basic
import Stencil.Number.Numeral

/-!
# Reading conditions

`Condition.parse` reads an expression; it never fails. An expression without an operator is a path,
and one that has an operator but is no comparison is `malformed`. The two ways of looking for an
operator differ in where they split. `splitLegacy?` takes the first operator after the first
character that something follows on the same line. `splitStrict?` takes the first operator outside
single quotes, wherever it stands.
-/

namespace Stencil

namespace Operand

/-- The quote around a text operand. -/
def quote : Char := '\''

/-- The text between a quote at the beginning and another quote at the end. -/
def quoted? : Text → Option Text
  | [] => none
  | c :: t => if c = quote ∧ t.getLast? = some quote then some t.dropLast else none

/-- Whether a text is one or more digits and nothing else. -/
def isDigits (t : Text) : Bool := t ≠ [] && t.all Char.isDigit

/-- Whether a text is a plain decimal number: digits with a minus before them or not, and with a
point and digits after them or not. -/
def isPlainNumber (t : Text) : Bool :=
  let unsigned := (Text.after? ['-'] t).getD t
  match Text.cut? ['.'] unsigned with
  | none => isDigits unsigned
  | some (whole, fraction) => isDigits whole && isDigits fraction

/-- The number of a plain decimal number. -/
def number? (t : Text) : Option Number :=
  if isPlainNumber t then (Decimal.ofText? t).map Decimal.toNumber else none

/-- The operand that a text stands for: a quoted text, a word, a number or a path. -/
def parse (t : Text) : Operand :=
  match quoted? t with
  | some s => .text s
  | none =>
    if t = ['t', 'r', 'u', 'e'] then .bool true
    else if t = ['f', 'a', 'l', 's', 'e'] then .bool false
    else if t = ['n', 'u', 'l', 'l'] then .null
    else match number? t with
      | some n => .number n
      | none => .path t

end Operand

namespace Condition

/-! ## Operators anywhere -/

/-- Whether the symbol of an operator stands anywhere in a text. -/
def mentionsOperator (t : Text) : Bool := Comparison.all.any fun op => Text.contains op.symbol t

/-- An operator after any blanks, and the operand after it, which is not empty and stands on one
line. -/
def operatorAhead? (t : Text) : Option (Comparison × Text) :=
  let t := Text.trimStart t
  Comparison.all.findSome? fun op => do
    let rest ← Text.after? op.symbol t
    let operand := Text.trimStart rest
    -- A longer operator that nothing follows gives way to a shorter one.
    if rest = [] ∨ '\n' ∈ operand then none else some (op, operand)

/-- The first place where an operator with its operand is ahead, after one character or more on
one line. -/
def splitLegacy? : Text → Option (Text × Comparison × Text)
  | [] => none
  | c :: t =>
    if c = '\n' then none
    else match operatorAhead? t with
      | some (op, operand) => some ([c], op, operand)
      | none => (splitLegacy? t).map fun (left, split) => (c :: left, split)

/-- The condition of an expression in which operators count everywhere. -/
def parseLegacy (expr : Text) : Condition :=
  if mentionsOperator expr then
    match splitLegacy? expr with
    | some (left, op, right) => .compare (Text.trim left) op (Operand.parse (Text.trim right))
    | none => .malformed expr
  else .holds expr

/-! ## Operators outside quotes -/

/-- The first place outside single quotes where an operator stands. -/
def splitStrict? (inQuotes : Bool) : Text → Option (Text × Comparison × Text)
  | [] => none
  | c :: t =>
    let further (inQuotes : Bool) :=
      (splitStrict? inQuotes t).map fun (left, split) => (c :: left, split)
    -- A quote begins a quoted part or ends it; within it nothing else counts.
    if c = Operand.quote then further !inQuotes
    else if inQuotes then further inQuotes
    else match Comparison.atStart? (c :: t) with
      | some (op, rest) => some ([], op, rest)
      | none => further inQuotes

/-- The condition of an expression in which operators do not count between quotes. -/
def parseStrict (expr : Text) : Condition :=
  match splitStrict? false expr with
  | none => .holds expr
  | some (left, op, right) =>
    let left := Text.trim left
    let right := Text.trim right
    if left = [] ∨ right = [] then .malformed expr
    else .compare left op (Operand.parse right)

/-- The condition of an expression. -/
def parse (detection : Detection) (expr : Text) : Condition :=
  let expr := Text.trim expr
  if expr = [] then .empty
  else match detection with
    | .legacy => parseLegacy expr
    | .strict => parseStrict expr

end Condition

end Stencil
