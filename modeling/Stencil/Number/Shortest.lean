import Stencil.Number.Decimal

/-!
# The shortest decimal of a number

Among the decimals that read back as a given magnitude, `Magnitude.shortest` is one of fewest
digits, and of those the nearest; a tie goes up. It looks at decimals of one digit, of two, and so
on. At each count only two decimals can read back: the ones on either side of the magnitude, which
`below` gives.
-/

namespace Stencil.Magnitude

/-- The number of digits before the point of a positive magnitude; not positive if there are zeros
after the point. The factor `10 ^ 400` lifts every positive magnitude above one. -/
def point (m : Magnitude) : Int :=
  (Nat.toDigits 10 (m.units * tenTo 400 / unitsInOne)).length - 400

/-- A magnitude over `10 ^ exponent`, as a ratio. -/
def ratioTo (m : Magnitude) (exponent : Int) : Nat × Nat :=
  if 0 ≤ exponent then (m.units, unitsInOne * tenTo exponent.toNat)
  else (m.units * tenTo (-exponent).toNat, unitsInOne)

/-- Whether a decimal reads back as a magnitude. -/
def isReadFrom (m : Magnitude) (digits : Nat) (exponent : Int) : Bool :=
  Decimal.toNumber ⟨false, digits, exponent⟩ == .finite false m

/-- The nearest multiple of `10 ^ exponent` that reads back as a magnitude. Only the two multiples
on either side of it come into question; of two that are equally near it is the upper one. -/
def nearestMultiple? (m : Magnitude) (exponent : Int) : Option Nat :=
  let (num, den) := m.ratioTo exponent
  let low := num / den
  match m.isReadFrom low exponent, m.isReadFrom (low + 1) exponent with
  | true, true => some (if 2 * (num % den) < den then low else low + 1)
  | true, false => some low
  | false, true => some (low + 1)
  | false, false => none

/-- The digits that every number can be read back from. -/
def maxDigits : Nat := 17

/-- The shortest decimal with more than `maxDigits - more` digits, where `point` digits stand before
the point. -/
def shortestFrom (m : Magnitude) (point : Int) : Nat → Decimal
  | 0 =>
    let exponent := point - maxDigits
    let (num, den) := m.ratioTo exponent
    ⟨false, num / den, exponent⟩
  | more + 1 =>
    let exponent := point - (maxDigits - more : Nat)
    match m.nearestMultiple? exponent with
    | some digits => ⟨false, digits, exponent⟩
    | none => m.shortestFrom point more

/-- The shortest decimal that reads back as a positive magnitude. -/
def shortest (m : Magnitude) : Decimal := m.shortestFrom m.point maxDigits

end Stencil.Magnitude
