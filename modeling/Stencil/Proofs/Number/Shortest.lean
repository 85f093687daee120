import Stencil.Number.Shortest
import Stencil.Proofs.Number.Finite

/-!
# Seventeen digits are enough

Every magnitude that is not zero is read back from its shortest decimal
(`Magnitude.exists_shortest_eq`), because there is always one of at most 17 digits. A magnitude has
17 digits before the point when it is counted in `10 ^ (point - 17)` (`Magnitude.ratioTo_bounds`),
so that one of the integers on either side is at most half of a unit away. This is less than one
part in `2 ^ 54`, since `2 ^ 53 < 10 ^ 16`, and it is read back (`Magnitude.Close.nearest?_eq`).
-/

namespace Stencil.Magnitude

open Decimal (powerOfTen powerOfTen_pos)

variable {m : Magnitude} {d : Nat} {e : Int}

/-- A magnitude over a power of ten. -/
theorem ratioTo_eq (m : Magnitude) (e : Int) :
    m.ratioTo e = (m.units * (powerOfTen e).2, unitsInOne * (powerOfTen e).1) := by
  unfold ratioTo powerOfTen
  split
  · rw [Nat.mul_one]
  · rw [Nat.mul_one]

/-- The quotient is by a positive number. -/
theorem ratioTo_pos (m : Magnitude) (e : Int) : 0 < (m.ratioTo e).2 := by
  rw [ratioTo_eq]
  exact Nat.mul_pos unitsInOne_pos (powerOfTen_pos e).1

/-- What is found at an exponent reads back. -/
theorem isReadFrom_of_nearestMultiple? (h : m.nearestMultiple? e = some d) :
    m.isReadFrom d e = true := by
  unfold nearestMultiple? at h
  dsimp only at h
  split at h
  · next hlow hhigh =>
    obtain rfl := Option.some.inj h
    split
    · exact hlow
    · exact hhigh
  · next hlow _ =>
    obtain rfl := Option.some.inj h
    exact hlow
  · next _ hhigh =>
    obtain rfl := Option.some.inj h
    exact hhigh
  · cases h

/-- Nothing is found at an exponent only if neither of the integers around a magnitude reads
back. -/
theorem not_isReadFrom_of_nearestMultiple? (h : m.nearestMultiple? e = none) :
    m.isReadFrom ((m.ratioTo e).1 / (m.ratioTo e).2) e = false ∧
      m.isReadFrom ((m.ratioTo e).1 / (m.ratioTo e).2 + 1) e = false := by
  unfold nearestMultiple? at h
  dsimp only at h
  split at h
  · cases h
  · cases h
  · cases h
  · next hlow hhigh => exact ⟨hlow, hhigh⟩

/-! ## Places of digits -/

/-- The place of the 17th digit of a magnitude, counted from `10 ^ -400`. -/
theorem exists_place (hm : m.units ≠ 0) :
    ∃ j : Nat, m.point - 17 = -400 + j ∧ 60 ≤ j ∧ j ≤ 692 ∧
      tenTo (16 + j) * unitsInOne ≤ m.units * tenTo 400 ∧
      m.units * tenTo 400 < tenTo (17 + j) * unitsInOne := by
  have hlow : tenTo 76 ≤ m.units * tenTo 400 / unitsInOne := by
    have hleast : tenTo 76 * unitsInOne ≤ tenTo 400 := by decide +kernel
    rw [Nat.le_div_iff_mul_le unitsInOne_pos]
    exact Nat.le_trans hleast (Nat.le_mul_of_pos_left _ (Nat.pos_of_ne_zero hm))
  have hhigh : m.units * tenTo 400 / unitsInOne < tenTo 709 := by
    have hbeyond : beyond * tenTo 400 ≤ tenTo 709 * unitsInOne := by decide +kernel
    rw [Nat.div_lt_iff_lt_mul unitsInOne_pos]
    exact Nat.lt_of_lt_of_le (Nat.mul_lt_mul_of_pos_right m.units_lt_beyond (tenTo_pos 400)) hbeyond
  have hdigits := length_toDigits_bounds (Nat.ne_of_gt (Nat.lt_of_lt_of_le (tenTo_pos 76) hlow))
  rw [Nat.le_div_iff_mul_le unitsInOne_pos, Nat.div_lt_iff_lt_mul unitsInOne_pos] at hdigits
  have hmost := (length_toDigits_le_iff (by decide)).2 hhigh
  have hleast : 76 < (Nat.toDigits 10 (m.units * tenTo 400 / unitsInOne)).length :=
    Nat.lt_of_not_le fun hle => Nat.not_lt.2 hlow ((length_toDigits_le_iff (by decide)).1 hle)
  unfold point
  generalize (Nat.toDigits 10 (m.units * tenTo 400 / unitsInOne)).length = places at *
  obtain ⟨j, rfl⟩ : ∃ j, places = 17 + j := Nat.exists_eq_add_of_le (by omega)
  have hplaces : 17 + j - 1 = 16 + j := by omega
  rw [hplaces] at hdigits
  exact ⟨j, by omega, by omega, by omega, hdigits.1, hdigits.2⟩

/-- The point of a magnitude is one at which numbers are held. -/
theorem point_bounds (hm : m.units ≠ 0) : -323 ≤ m.point ∧ m.point ≤ 309 := by
  obtain ⟨j, hj, hleast, hmost, -⟩ := exists_place hm
  omega

/-- A magnitude has 17 digits before the point when it is counted in `10 ^ (point - 17)`. -/
theorem ratioTo_bounds (hm : m.units ≠ 0) :
    tenTo 16 * (m.ratioTo (m.point - 17)).2 ≤ (m.ratioTo (m.point - 17)).1 ∧
      (m.ratioTo (m.point - 17)).1 < tenTo 17 * (m.ratioTo (m.point - 17)).2 := by
  obtain ⟨j, hj, -, -, hlow, hhigh⟩ := exists_place hm
  have hlift : powerOfTen (-400) = (1, tenTo 400) := if_neg (by decide)
  have hpower := Decimal.powerOfTen_add (-400) j
  have hpos := (powerOfTen_pos (-400 + j)).2
  rw [hlift, Nat.mul_one] at hpower
  dsimp only at hpower
  rw [ratioTo_eq, hj]
  generalize powerOfTen (-400 + j) = power at *
  generalize unitsInOne = one at *
  rw [tenTo_add] at hlow hhigh
  dsimp only
  -- The bounds are those of the lifted magnitude, multiplied by the same power on both sides.
  have hmul (n : Nat) : n * tenTo j * one * power.2 = n * (one * power.1) * tenTo 400 := by
    calc
      n * tenTo j * one * power.2 = n * one * (tenTo j * power.2) := by ac_rfl
      _ = n * one * (power.1 * tenTo 400) := by rw [hpower]
      _ = n * (one * power.1) * tenTo 400 := by ac_rfl
  constructor
  · refine Nat.le_of_mul_le_mul_right ?_ (tenTo_pos 400)
    rw [← hmul, Nat.mul_right_comm m.units]
    exact Nat.mul_le_mul_right power.2 hlow
  · refine Nat.lt_of_mul_lt_mul_right (a := tenTo 400) ?_
    rw [← hmul, Nat.mul_right_comm m.units]
    exact Nat.mul_lt_mul_of_pos_right hhigh hpos

/-- Where the point is the last one, no number of 17 digits is carried into an 18th. -/
theorem point_lt_of_carry (hm : m.units ≠ 0)
    (h : tenTo 17 * (m.ratioTo (m.point - 17)).2 ≤
      (m.ratioTo (m.point - 17)).1 + (m.ratioTo (m.point - 17)).2) : m.point < 309 := by
  have hlast : beyond + unitsInOne * tenTo 292 < tenTo 17 * (unitsInOne * tenTo 292) := by
    decide +kernel
  obtain ⟨-, hpoint⟩ := point_bounds hm
  refine Int.lt_iff_le_and_ne.2 ⟨hpoint, fun heq => ?_⟩
  have hpower : powerOfTen 292 = (tenTo 292, 1) := if_pos (by decide)
  rw [heq, show (309 : Int) - 17 = 292 from rfl, ratioTo_eq, hpower, Nat.mul_one] at h
  dsimp only at h
  have hunits := m.units_lt_beyond
  omega

/-! ## Reading back -/

section Half

-- An integer that is at most half away from a ratio with 17 digits before the point.
variable {num den : Nat} (hden : 0 < den) (hleast : tenTo 16 * den ≤ num)
  (hlow : 2 * num ≤ 2 * (d * den) + den) (hhigh : 2 * (d * den) ≤ 2 * num + den)

include hden hleast hlow in
/-- The integer has 17 digits at least. -/
theorem tenTo_le_of_half : tenTo 16 ≤ d := by
  have hle : 2 * tenTo 16 ≤ 2 * d + 1 := by
    refine Nat.le_of_mul_le_mul_right ?_ hden
    rw [Nat.add_mul, Nat.mul_assoc, Nat.mul_assoc, Nat.one_mul]
    omega
  omega

include hhigh in
/-- The integer has at most 17 digits, or it is the least one with 18. -/
theorem le_tenTo_of_half (hmost : num < tenTo 17 * den) : d ≤ tenTo 17 := by
  have hlt : 2 * d < 2 * tenTo 17 + 1 := by
    refine Nat.lt_of_mul_lt_mul_right (a := den) ?_
    rw [Nat.add_mul, Nat.mul_assoc, Nat.mul_assoc, Nat.one_mul]
    omega
  omega

include hden hleast hlow hhigh in
/-- The integer is close to the ratio. -/
theorem close_of_half {units c : Nat} (hnum : units * c = num) : Close (d * den) c units := by
  have h16 : tenTo 16 = 10000000000000000 := by decide
  have h54 : twoTo 54 = 18014398509481984 := by decide
  rw [h16] at hleast
  constructor
  · rw [h54, hnum]
    omega
  · rw [h54, hnum]
    omega

end Half

/-- An integer at most half away from a magnitude with 17 digits reads back. -/
theorem isReadFrom_of_half (hm : m.units ≠ 0)
    (hlow : 2 * (m.ratioTo (m.point - 17)).1 ≤
      2 * (d * (m.ratioTo (m.point - 17)).2) + (m.ratioTo (m.point - 17)).2)
    (hhigh : 2 * (d * (m.ratioTo (m.point - 17)).2) ≤
      2 * (m.ratioTo (m.point - 17)).1 + (m.ratioTo (m.point - 17)).2) :
    m.isReadFrom d (m.point - 17) = true := by
  obtain ⟨hleast, hmost⟩ := ratioTo_bounds hm
  have hden := m.ratioTo_pos (m.point - 17)
  have hd := tenTo_le_of_half hden hleast hlow
  have hd' := le_tenTo_of_half hhigh hmost
  have hlength : 16 < (Nat.toDigits 10 d).length :=
    Nat.lt_of_not_le fun h => Nat.not_lt.2 hd ((length_toDigits_le_iff (by decide)).1 h)
  obtain ⟨hfirst, hlast⟩ := point_bounds hm
  -- The first digit moves only where the digits are carried into an 18th.
  have hplace : m.point - 17 + (Nat.toDigits 10 d).length < 310 := by
    rcases Nat.lt_or_ge d (tenTo 17) with hlt | hge
    · have hle := (length_toDigits_le_iff (by decide)).2 hlt
      omega
    · obtain rfl : d = tenTo 17 := Nat.le_antisymm hd' hge
      have hpoint := point_lt_of_carry hm (by omega)
      have hle : (Nat.toDigits 10 (tenTo 17)).length ≤ 18 :=
        (length_toDigits_le_iff (by decide)).2 (by decide)
      omega
  have hratio := ratioTo_eq m (m.point - 17)
  have hclose := close_of_half hden hleast hlow hhigh (congrArg Prod.fst hratio).symm
  rw [hratio] at hclose
  have hread : Decimal.toNumber ⟨false, d, m.point - 17⟩ = .finite false m := by
    rw [Decimal.toNumber_eq_finite_iff hm]
    refine ⟨Nat.ne_of_gt (Nat.lt_of_lt_of_le (tenTo_pos 16) hd), by omega, hplace, ?_⟩
    rw [Nat.mul_assoc, Nat.mul_comm _ unitsInOne]
    exact hclose.nearest?_eq
  exact beq_iff_eq.2 hread

/-- There is a multiple of the 17th digit that reads back. -/
theorem exists_nearestMultiple? (hm : m.units ≠ 0) :
    ∃ d, m.nearestMultiple? (m.point - 17) = some d := by
  refine Option.ne_none_iff_exists'.1 fun hnone => ?_
  obtain ⟨hbelow, habove⟩ := not_isReadFrom_of_nearestMultiple? hnone
  have hhalf := @isReadFrom_of_half m
  have hden := m.ratioTo_pos (m.point - 17)
  generalize m.ratioTo (m.point - 17) = ratio at *
  have hquotient := Nat.div_add_mod ratio.1 ratio.2
  have hrest := Nat.mod_lt ratio.1 hden
  rw [Nat.mul_comm] at hquotient
  -- The integer on the side of the smaller part of the unit is at most half away.
  rcases Nat.le_total (2 * (ratio.1 % ratio.2)) ratio.2 with hle | hge
  · rw [hhalf hm (by omega) (by omega)] at hbelow
    cases hbelow
  · have hsucc : (ratio.1 / ratio.2 + 1) * ratio.2 = ratio.1 / ratio.2 * ratio.2 + ratio.2 :=
      Nat.succ_mul _ _
    rw [hhalf hm (by omega) (by omega)] at habove
    cases habove

/-- What is found with a number of digits, or with more, reads back. -/
theorem exists_shortestFrom_eq (hm : m.units ≠ 0) (more : Nat) :
    ∃ n e, m.shortestFrom m.point (more + 1) = ⟨false, n, e⟩ ∧
      Decimal.toNumber ⟨false, n, e⟩ = .finite false m := by
  have hread {d : Nat} {e : Int} (h : m.nearestMultiple? e = some d) :
      Decimal.toNumber ⟨false, d, e⟩ = .finite false m :=
    beq_iff_eq.1 (isReadFrom_of_nearestMultiple? h)
  induction more with
  | zero =>
    obtain ⟨d, hd⟩ := exists_nearestMultiple? hm
    have hexponent : m.point - ((maxDigits - 0 : Nat) : Int) = m.point - 17 := rfl
    rw [shortestFrom, hexponent]
    simp only [hd]
    exact ⟨d, _, rfl, hread hd⟩
  | succ more ih =>
    rw [shortestFrom]
    split
    · next d hd => exact ⟨d, _, rfl, hread hd⟩
    · exact ih

/-- The shortest decimal of a magnitude that is not zero reads back. -/
theorem exists_shortest_eq (hm : m.units ≠ 0) :
    ∃ n e, m.shortest = ⟨false, n, e⟩ ∧ Decimal.toNumber ⟨false, n, e⟩ = .finite false m :=
  exists_shortestFrom_eq hm 16

end Stencil.Magnitude
