import Stencil.Text.Basic

/-!
# Blank characters

The characters with the Unicode property `White_Space`, and texts without them at their ends.
-/

namespace Stencil.Text

/-- The code points with the Unicode property `White_Space`, as closed ranges. -/
def blankRanges : List (Nat × Nat) :=
  [(0x09, 0x0D), (0x20, 0x20), (0x85, 0x85), (0xA0, 0xA0), (0x1680, 0x1680), (0x2000, 0x200A),
    (0x2028, 0x2029), (0x202F, 0x202F), (0x205F, 0x205F), (0x3000, 0x3000)]

/-- Whether a character has the Unicode property `White_Space`. -/
def isBlank (c : Char) : Bool :=
  blankRanges.any fun (low, high) => low ≤ c.toNat && c.toNat ≤ high

/-- A text without the blanks at its beginning. -/
def trimStart (t : Text) : Text := t.dropWhile isBlank

/-- A text without the blanks at its end. -/
def trimEnd (t : Text) : Text := (t.reverse.dropWhile isBlank).reverse

/-- A text without the blanks at its ends. -/
def trim (t : Text) : Text := trimEnd (trimStart t)

/-- Trimming nothing leaves nothing. -/
@[simp] theorem trim_nil : trim [] = [] := rfl

/-- There are 25 blank code points. -/
example : (blankRanges.map fun (low, high) => high + 1 - low).sum = 25 := by decide

end Stencil.Text
