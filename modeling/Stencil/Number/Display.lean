import Stencil.Number.Shortest

/-!
# Number text

How a number is written into the output. Integers below `10 ^ 21` are written with all their digits,
other numbers with the fewest digits that read back. Numbers from `10 ^ 21` on, and those below one
millionth, have an exponent with its sign: `1e+21`, `1.5e-7`. Zero has no sign.
-/

namespace Stencil

namespace Magnitude

/-- The least magnitude that is written with an exponent because of its size: `10 ^ 21`. -/
def huge : Nat := tenTo 21

/-- The number nearest to one millionth, below which magnitudes are written with an exponent. -/
def millionth : Number := Decimal.toNumber ⟨false, 1, -6⟩

/-- Whether a magnitude is written with an exponent. -/
def hasExponent (m : Magnitude) : Bool :=
  huge * unitsInOne ≤ m.units || (Number.finite false m).order? millionth == some .lt

/-- Whether a magnitude has no part after the point. -/
def isIntegral (m : Magnitude) : Bool := m.units % unitsInOne == 0

end Magnitude

namespace Number

/-- A run of zeros. -/
def zeros (n : Nat) : Text := List.replicate n '0'

/-- A text without the zeros at its end. -/
def dropZeros (t : Text) : Text := (t.reverse.dropWhile (· == '0')).reverse

/-- The exponent with its sign. -/
def exponentText (e : Int) : Text :=
  (if e < 0 then '-' else '+') :: Nat.toDigits 10 e.natAbs

/-- One digit, the others after a point if there are any, and the exponent. -/
def scientific (digits : Text) (point : Int) : Text :=
  let rest := digits.drop 1
  digits.take 1 ++ (if rest = [] then [] else '.' :: rest) ++ 'e' :: exponentText (point - 1)

/-- Digits with the point put after `point` of them, and zeros where there are no digits. -/
def positional (digits : Text) (point : Int) : Text :=
  if point ≤ 0 then '0' :: '.' :: zeros (-point).toNat ++ digits
  else
    let places := point.toNat
    if digits.length ≤ places then digits ++ zeros (places - digits.length)
    else digits.take places ++ '.' :: digits.drop places

end Number

/-- The text of a positive magnitude. -/
def Magnitude.display (m : Magnitude) : Text :=
  if m.isIntegral && !m.hasExponent then Nat.toDigits 10 (m.units / Magnitude.unitsInOne)
  else
    let d := m.shortest
    let digits := Number.dropZeros (Nat.toDigits 10 d.digits)
    if m.hasExponent then Number.scientific digits d.point
    else Number.positional digits d.point

/-- The text of a number. -/
def Number.display : Number → Text
  | .nan => ['N', 'a', 'N']
  | .infinity negative => (if negative then ['-'] else []) ++ infinityWord
  | .finite negative m =>
    if m.units = 0 then ['0'] else (if negative then ['-'] else []) ++ m.display

end Stencil
