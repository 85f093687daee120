import Stencil.Number.Round
import Stencil.Text.Basic

/-!
# Decimals

A `Decimal` is `digits * 10 ^ exponent`. `Decimal.toNumber` gives the number nearest to it. Decimals
of extreme size are decided by the place of their leading digit alone, so that an exponent of any
length costs nothing: from `10 ^ 309` on all are infinite, and below `10 ^ -324` all are zero.
-/

namespace Stencil

/-- A sign and `digits * 10 ^ exponent`. -/
structure Decimal where
  negative : Bool
  digits : Nat
  exponent : Int
deriving DecidableEq

namespace Decimal

/-- How many digits stand before the point when a decimal is written out; not positive if there are
zeros after the point. -/
def point (d : Decimal) : Int := d.exponent + (Nat.toDigits 10 d.digits).length

/-- The number nearest to a decimal. -/
def toNumber (d : Decimal) : Number :=
  if d.digits = 0 ∨ d.point ≤ -324 then .finite d.negative .zero
  else if 310 ≤ d.point then .infinity d.negative
  else if 0 ≤ d.exponent then .ofRatio d.negative (d.digits * tenTo d.exponent.toNat) 1
  else .ofRatio d.negative d.digits (tenTo (-d.exponent).toNat)

end Decimal

end Stencil
