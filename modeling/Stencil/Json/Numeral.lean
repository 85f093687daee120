import Stencil.Json.Basic
import Stencil.Json.Fault
import Stencil.Number.Numeral

/-!
# Numbers of a document

`JsonNumeral.read` takes a numeral apart into its digits, and `JsonNumeral.value?` says which number
it is. Integers of 64 bits are kept as they are. All other numerals are computed: the leading digits
that fit into 64 bits are rounded to a number, and the number is multiplied with or divided by a
power of ten, which rounds again. Numerals too large for a number have no value.
-/

namespace Stencil

/-- The parts of a numeral. -/
structure JsonNumeral where
  negative : Bool
  whole : Text
  fraction : Option Text
  exponent : Option Int
deriving DecidableEq

namespace JsonNumeral

/-- The fault where another character was needed than what follows. -/
def faultAt : Text → Fault
  | [] => .cutShort
  | _ :: _ => .malformed

/-- Reads one or more digits. -/
def readDigits (t : Text) : Except Fault (Text × Text) :=
  let (digits, rest) := Text.spanDigits t
  if digits = [] then .error (faultAt rest) else .ok (digits, rest)

/-- Reads the digits before the point; a zero stands alone. -/
def readWhole (t : Text) : Except Fault (Text × Text) := do
  let (digits, rest) ← readDigits t
  match digits with
  | '0' :: _ :: _ => .error .malformed
  | _ => .ok (digits, rest)

/-- Reads a point and the digits after it, if there is a point. -/
def readFraction : Text → Except Fault (Option Text × Text)
  | '.' :: t => do
    let (digits, rest) ← readDigits t
    return (some digits, rest)
  | t => .ok (none, t)

/-- Reads an `e` and an exponent, if there is an `e`. -/
def readExponent : Text → Except Fault (Option Int × Text)
  | [] => .ok (none, [])
  | c :: t =>
    if c = 'e' ∨ c = 'E' then do
      let (negative, t) := Text.spanSign t
      let (digits, rest) ← readDigits t
      return (some (Number.signed negative (Text.digitsValue digits)), rest)
    else .ok (none, c :: t)

/-- Reads a numeral that begins with a minus or a digit. -/
def read (t : Text) : Except Fault (JsonNumeral × Text) := do
  let (negative, t) := match Text.after? ['-'] t with
    | some rest => (true, rest)
    | none => (false, t)
  let (whole, t) ← readWhole t
  let (fraction, t) ← readFraction t
  let (exponent, t) ← readExponent t
  return (⟨negative, whole, fraction, exponent⟩, t)

/-! ## Values -/

/-- The number of integers of 64 bits without sign. -/
def wordLimit : Nat := twoTo 64

/-- Appends digits to a number as long as it stays below `wordLimit`: the number, and how many
digits were appended. -/
def appendDigits (n : Nat) : Text → Nat × Nat
  | [] => (n, 0)
  | c :: t =>
    let next := 10 * n + (c.toNat - '0'.toNat)
    if next < wordLimit then
      let (value, count) := appendDigits next t
      (value, count + 1)
    else (n, 0)

/-- The greatest power of ten below all infinities. -/
def maxPower : Nat := 308

/-- The magnitude nearest to a power of ten up to `maxPower`. -/
def powerOfTen (exponent : Nat) : Magnitude :=
  (Magnitude.nearest? (tenTo exponent * Magnitude.unitsInOne) 1).getD .zero

/-- Divides by a power of ten. A power beyond `maxPower` is divided by in two steps, and one beyond
their sum leaves nothing. -/
def divideByPower (m : Magnitude) (exponent : Nat) : Magnitude :=
  let step (m : Magnitude) (e : Nat) := (m.div? (powerOfTen e)).getD .zero
  if exponent ≤ maxPower then step m exponent
  else if exponent ≤ maxPower + maxPower then step (step m maxPower) (exponent - maxPower)
  else .zero

/-- The magnitude of `significand * 10 ^ exponent`, computed in two steps. -/
def compute? (significand : Nat) (exponent : Int) : Option Magnitude := do
  let m ← Magnitude.nearest? (significand * Magnitude.unitsInOne) 1
  if exponent < 0 then some (divideByPower m (-exponent).toNat)
  else if significand = 0 then some .zero
  else if exponent ≤ maxPower then m.mul? (powerOfTen exponent.toNat)
  else none

/-- The number of a numeral; none if it is too large. -/
def value? (n : JsonNumeral) : Option Json :=
  let (significand, taken) := appendDigits 0 n.whole
  -- Digits before the point that do not fit count as zeros.
  let dropped := n.whole.length - taken
  if n.fraction = none ∧ n.exponent = none ∧ dropped = 0 then
    if n.negative then
      -- Minus zero is a real, and so is what is below all integers of 64 bits with sign.
      if 0 < significand ∧ significand ≤ twoTo 63 then some (.integer (-(significand : Int)))
      else some (.real (Number.ofNat significand).negate)
    else some (.integer significand)
  else
    let (significand, places) := appendDigits significand (n.fraction.getD [])
    (compute? significand (n.exponent.getD 0 + dropped - places)).map fun m =>
      .real (.finite n.negative m)

end JsonNumeral

end Stencil
