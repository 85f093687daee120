import Stencil.Number.Decimal
import Stencil.Text.Blank

/-!
# Numbers in texts

What number a text stands for when a text is compared with a number (`Number.ofText`). Blanks around
it do not count. A text without anything else stands for zero; the three spellings of infinity, and
digits after a prefix of base 16, 8 or 2, stand for what they say; all else is a decimal numeral
(`Decimal.ofText?`) or `nan`.
-/

namespace Stencil

namespace Text

/-- The digits at the beginning of a text, and what follows them. -/
def spanDigits (t : Text) : Text × Text := (t.takeWhile Char.isDigit, t.dropWhile Char.isDigit)

/-- The digits and the rest make up the text. -/
theorem spanDigits_append (t : Text) : (spanDigits t).1 ++ (spanDigits t).2 = t :=
  List.takeWhile_append_dropWhile

/-- The value of a text of decimal digits. -/
def digitsValue (t : Text) : Nat := Nat.ofDigitChars 10 t 0

/-- A sign at the beginning of a text: whether it is a minus, and what follows. -/
def spanSign : Text → Bool × Text
  | '-' :: t => (true, t)
  | '+' :: t => (false, t)
  | t => (false, t)

/-- The value of a character as a digit: the letters follow the decimal digits, in either case. -/
def digitValue? (c : Char) : Option Nat :=
  if c.isDigit then some (c.toNat - '0'.toNat)
  else if c.isLower then some (c.toNat - 'a'.toNat + 10)
  else if c.isUpper then some (c.toNat - 'A'.toNat + 10)
  else none

/-- The value of one or more digits of a base, if all of them are digits of that base. -/
def valueInBase? (base : Nat) : Text → Option Nat
  | [] => none
  | t => t.foldlM (fun value c => do
      let d ← digitValue? c
      if d < base then some (base * value + d) else none) 0

end Text

namespace Decimal

/-- The digits of an exponent with its sign. -/
def exponentOfText? (t : Text) : Option Int :=
  let (negative, rest) := Text.spanSign t
  let (digits, rest) := Text.spanDigits rest
  if digits = [] ∨ rest ≠ [] then none else some (Number.signed negative (Text.digitsValue digits))

/-- What follows the digits of a numeral: nothing, or an `e` and an exponent. -/
def exponentPart? : Text → Option Int
  | [] => some 0
  | c :: t => if c = 'e' ∨ c = 'E' then exponentOfText? t else none

/-- The part after the point: its digits and what follows. Without a point there are none. -/
def fractionPart : Text → Text × Text
  | '.' :: t => Text.spanDigits t
  | t => ([], t)

/-- The decimal that a numeral stands for: a sign, digits with a point before, between or after
them, and an exponent, where only the digits are not optional. -/
def ofText? (t : Text) : Option Decimal :=
  let (negative, t) := Text.spanSign t
  let (whole, t) := Text.spanDigits t
  let (fraction, t) := fractionPart t
  if whole = [] ∧ fraction = [] then none
  else (exponentPart? t).map fun e =>
    ⟨negative, Text.digitsValue (whole ++ fraction), e - fraction.length⟩

end Decimal

namespace Number

/-- The prefixes of numerals that are not decimal, and their bases. -/
def basePrefixes : List (Text × Nat) :=
  [(['0', 'x'], 16), (['0', 'X'], 16), (['0', 'o'], 8), (['0', 'O'], 8), (['0', 'b'], 2),
    (['0', 'B'], 2)]

/-- What follows the first prefix of a base, and the base. -/
def afterBase? (t : Text) : Option (Text × Nat) :=
  basePrefixes.findSome? fun (mark, base) => (Text.after? mark t).map (·, base)

/-- The number of digits in a base. A plus may stand before them, and only integers of 64 bits are
numbers. -/
def ofBase (base : Nat) (t : Text) : Number :=
  match Text.valueInBase? base ((Text.after? ['+'] t).getD t) with
  | some n => if n < twoTo 64 then ofNat n else nan
  | none => nan

/-- The number that a text stands for. -/
def ofText (t : Text) : Number :=
  let t := Text.trim t
  if t = [] then zero
  else if t = infinityWord ∨ t = '+' :: infinityWord then infinity false
  else if t = '-' :: infinityWord then infinity true
  else match afterBase? t with
    | some (digits, base) => ofBase base digits
    | none => match Decimal.ofText? t with
      | some d => d.toNumber
      | none => nan

end Number

end Stencil
