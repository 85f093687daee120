import Stencil.Number.Power
import Stencil.Text.Basic

/-!
# Numbers

The numbers of a context are the binary floating-point numbers of 64 bits. A finite one is a sign
and a `Magnitude`, which counts units of `2 ^ -1074`, the least positive number. Two magnitudes with
the same units are equal (`Magnitude.ext_units`), so the units are a faithful view.

Comparisons go through `Number.position`, which puts every number but `nan` at a place on the line
of integers, the infinities beyond all finite numbers.
-/

namespace Stencil

/-- The greatest scale of a finite number. -/
def maxScale : Nat := 2045

/-- The size of a finite number: `significand * 2 ^ scale` units of `2 ^ -1074`. Only the least
scale holds significands of fewer than 53 bits. -/
structure Magnitude where
  significand : Nat
  scale : Nat
  significand_lt : significand < twoTo 53
  scale_le : scale ≤ maxScale
  scale_eq_zero_or_le : scale = 0 ∨ twoTo 52 ≤ significand
deriving DecidableEq

namespace Magnitude

/-- How many units of `2 ^ -1074` make up a magnitude. -/
def units (m : Magnitude) : Nat := m.significand * twoTo m.scale

/-- The number of units in one. -/
def unitsInOne : Nat := twoTo 1074

/-- The magnitude of zero. -/
def zero : Magnitude := ⟨0, 0, by decide, by decide, .inl rfl⟩

/-- Zero has no units. -/
@[simp] theorem units_zero : zero.units = 0 := by simp [units, zero]

/-- Of two magnitudes with the same units neither has the greater scale. -/
theorem scale_le_of_units_eq {a b : Magnitude} (h : a.units = b.units) : b.scale ≤ a.scale := by
  rcases Nat.lt_or_ge a.scale b.scale with hlt | hge
  · -- A significand of 53 bits at a greater scale would be too large at the lesser one.
    exfalso
    have hb : twoTo 52 ≤ b.significand := b.scale_eq_zero_or_le.resolve_left (by omega)
    obtain ⟨d, hd⟩ := Nat.exists_eq_add_of_lt hlt
    have hab : a.significand = b.significand * twoTo (d + 1) := by
      refine Nat.eq_of_mul_eq_mul_right (twoTo_pos a.scale) ?_
      rw [Nat.mul_assoc, ← twoTo_add, Nat.add_comm (d + 1), ← Nat.add_assoc, ← hd]
      exact h
    have hle : twoTo 52 * 2 ≤ b.significand * twoTo (d + 1) :=
      Nat.mul_le_mul hb (twoTo_le (Nat.succ_le_succ (Nat.zero_le d)))
    exact Nat.lt_irrefl _ (Nat.lt_of_lt_of_le a.significand_lt (hab ▸ hle))
  · exact hge

/-- A magnitude is determined by its units. -/
theorem ext_units {a b : Magnitude} (h : a.units = b.units) : a = b := by
  have hs : a.scale = b.scale :=
    Nat.le_antisymm (scale_le_of_units_eq h.symm) (scale_le_of_units_eq h)
  have hm : a.significand = b.significand := by
    refine Nat.eq_of_mul_eq_mul_right (twoTo_pos b.scale) ?_
    simpa [units, hs] using h
  cases a; cases b; simp_all

/-- A number of units beyond all magnitudes. -/
def beyond : Nat := twoTo 53 * twoTo maxScale

/-- No magnitude reaches `beyond`. -/
theorem units_lt_beyond (m : Magnitude) : m.units < beyond :=
  Nat.lt_of_lt_of_le (Nat.mul_lt_mul_of_pos_right m.significand_lt (twoTo_pos m.scale))
    (Nat.mul_le_mul_left _ (twoTo_le m.scale_le))

end Magnitude

/-- A number of a context. -/
inductive Number where
  /-- What is not a number. -/
  | nan
  /-- Beyond all finite numbers, on one side of zero. -/
  | infinity (negative : Bool)
  /-- A finite number; zero has both signs. -/
  | finite (negative : Bool) (magnitude : Magnitude)
deriving DecidableEq

namespace Number

/-- Zero. -/
def zero : Number := .finite false .zero

/-- The word for an infinity, which follows its sign. -/
def infinityWord : Text := ['I', 'n', 'f', 'i', 'n', 'i', 't', 'y']

/-- The integer with a sign and an absolute value. -/
def signed (negative : Bool) (n : Nat) : Int := if negative then -(n : Int) else n

/-- The place of a number on the line of integers, in units; `nan` has none. -/
def position : Number → Option Int
  | nan => none
  | infinity negative => some (signed negative Magnitude.beyond)
  | finite negative m => some (signed negative m.units)

/-- The order of two numbers; `nan` stands in no order. -/
def order? (a b : Number) : Option Ordering :=
  match a.position, b.position with
  | some x, some y => some (compare x y)
  | _, _ => none

/-- Numeric equality: both zeros are equal, and `nan` equals nothing. -/
def equals (a b : Number) : Bool := a.order? b == some .eq

/-- Two numbers are equal when they stand at the same place. -/
theorem equals_iff {a b : Number} :
    a.equals b = true ↔ ∃ x, a.position = some x ∧ b.position = some x := by
  unfold equals order?
  cases a.position with
  | none => simp
  | some x =>
    cases b.position with
    | none => simp
    | some y => simpa using eq_comm

/-- Whether a number is zero, of either sign. -/
def isZero : Number → Bool
  | finite _ m => m.significand == 0
  | _ => false

/-- The number with the opposite sign. -/
def negate : Number → Number
  | nan => nan
  | infinity s => infinity !s
  | finite s m => finite (!s) m

end Number

end Stencil
