import Stencil.Number.Basic

/-!
# Rounding a ratio

`roundHalfEven` takes a ratio of natural numbers to the nearest integer. `Magnitude.nearest?` takes
it to the nearest magnitude in the same way: it keeps 53 leading bits of the ratio, or those down to
the last unit where there are fewer, and rounds there. Ties go to the even significand. There is no
nearest magnitude when the significand would need a scale beyond `maxScale`.

Every number that is read or computed is rounded here and nowhere else.
-/

namespace Stencil

/-- The integer nearest to `num / den`, the even one of two that are equally near. -/
def roundHalfEven (num den : Nat) : Nat :=
  let q := num / den
  let r := num % den
  if 2 * r < den then q
  else if den < 2 * r then q + 1
  else if q % 2 = 0 then q else q + 1

/-- Rounding never goes below the quotient. -/
theorem div_le_roundHalfEven (num den : Nat) : num / den ≤ roundHalfEven num den := by
  unfold roundHalfEven
  dsimp only
  split
  · exact Nat.le_refl _
  · split
    · exact Nat.le_succ _
    · split
      · exact Nat.le_refl _
      · exact Nat.le_succ _

/-- Rounding goes at most to the integer after the quotient. -/
theorem roundHalfEven_le (num den : Nat) : roundHalfEven num den ≤ num / den + 1 := by
  unfold roundHalfEven
  dsimp only
  split
  · exact Nat.le_succ _
  · split
    · exact Nat.le_refl _
    · split
      · exact Nat.le_succ _
      · exact Nat.le_refl _

/-- A multiple of the denominator is rounded to its quotient. -/
theorem roundHalfEven_mul (n : Nat) {den : Nat} (h : 0 < den) :
    roundHalfEven (n * den) den = n := by
  simp [roundHalfEven, Nat.mul_div_cancel _ h, h]

namespace Magnitude

/-- The scale at which `num / den` units have 53 bits before the point, zero if they have fewer. -/
def scaleOf (num den : Nat) : Nat := (num / den).log2 - 52

/-- At a positive scale there are at least 53 bits before the point. -/
theorem le_div_of_scaleOf_pos {num den : Nat} (h : 0 < scaleOf num den) :
    twoTo 52 ≤ num / (den * twoTo (scaleOf num den)) := by
  have hlog : scaleOf num den + 52 = (num / den).log2 := by unfold scaleOf at *; omega
  have hne : num / den ≠ 0 := by
    intro h0
    rw [h0, Nat.log2_zero] at hlog
    omega
  rw [← Nat.div_div_eq_div_mul, Nat.le_div_iff_mul_le (twoTo_pos _), ← twoTo_add,
    Nat.add_comm, hlog]
  exact twoTo_log2_le hne

/-- The magnitude nearest to `num / den` units, if it is not beyond all magnitudes. -/
def nearest? (num den : Nat) : Option Magnitude :=
  let scale := scaleOf num den
  let significand := roundHalfEven num (den * twoTo scale)
  if h : significand < twoTo 53 then
    if hs : scale ≤ maxScale then
      some ⟨significand, scale, h, hs, by
        rcases Nat.eq_zero_or_pos scale with h0 | h0
        · exact .inl h0
        · exact .inr (Nat.le_trans (le_div_of_scaleOf_pos h0) (div_le_roundHalfEven _ _))⟩
    else none
  else if hs : scale + 1 ≤ maxScale then
    some ⟨twoTo 52, scale + 1, by decide, hs, .inr (Nat.le_refl _)⟩
  else none

/-- The product of two magnitudes, rounded. -/
def mul? (a b : Magnitude) : Option Magnitude := nearest? (a.units * b.units) unitsInOne

/-- The quotient of two magnitudes, rounded; the divisor is not zero. -/
def div? (a b : Magnitude) : Option Magnitude := nearest? (a.units * unitsInOne) b.units

end Magnitude

namespace Number

/-- The number nearest to `num / den`, infinite if it is beyond all magnitudes. -/
def ofRatio (negative : Bool) (num den : Nat) : Number :=
  match Magnitude.nearest? (num * Magnitude.unitsInOne) den with
  | some m => .finite negative m
  | none => .infinity negative

/-- The number nearest to an integer. -/
def ofInt (i : Int) : Number := ofRatio (decide (i < 0)) i.natAbs 1

/-- The number nearest to a natural number. -/
def ofNat (n : Nat) : Number := ofRatio false n 1

end Number

end Stencil
