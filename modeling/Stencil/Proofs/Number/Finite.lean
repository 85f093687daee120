import Stencil.Proofs.Number.Digits
import Stencil.Proofs.Number.Nearest

/-!
# Decimals of finite size

When a decimal is taken to a number that is neither zero nor infinite, the number is the nearest
magnitude to its value (`Decimal.toNumber_eq_finite_iff`), and the places of its first digit that
are decided without arithmetic do not come into it. So the sign of the decimal is the sign of the
number, and zeros may be moved from the end of its digits into its exponent
(`Decimal.toNumber_shift_iff`).
-/

namespace Stencil

/-- A factor of ten more puts one more zero behind the digits. -/
theorem toDigits_mul_tenTo {n : Nat} (hn : n ≠ 0) (j : Nat) :
    Nat.toDigits 10 (n * tenTo j) = Nat.toDigits 10 n ++ List.replicate j '0' := by
  induction j with
  | zero => simp [tenTo]
  | succ j ih =>
    have hpos : 0 < n * tenTo j := Nat.mul_pos (Nat.pos_of_ne_zero hn) (tenTo_pos j)
    have hsucc : n * tenTo (j + 1) = 10 * (n * tenTo j) := by
      rw [Nat.mul_left_comm]
      exact congrArg (n * ·) Nat.pow_succ'
    rw [hsucc, Nat.toDigits_of_base_le (by decide) (Nat.le_mul_of_pos_right 10 hpos),
      Nat.mul_div_cancel_left _ (by decide), Nat.mul_mod_right, ih, List.replicate_succ',
      List.append_assoc]
    rfl

/-- The exponents of factors add up. -/
theorem tenTo_add (m n : Nat) : tenTo (m + n) = tenTo m * tenTo n := Nat.pow_add 10 m n

/-- There are units in one. -/
theorem Magnitude.unitsInOne_pos : 0 < unitsInOne := by decide +kernel

namespace Decimal

open Magnitude (unitsInOne nearest?)

/-! ## Powers of ten -/

/-- The power of ten with an exponent of either sign, as a ratio. -/
def powerOfTen (e : Int) : Nat × Nat :=
  if 0 ≤ e then (tenTo e.toNat, 1) else (1, tenTo (-e).toNat)

/-- The terms of a power are positive. -/
theorem powerOfTen_pos (e : Int) : 0 < (powerOfTen e).1 ∧ 0 < (powerOfTen e).2 := by
  unfold powerOfTen
  split
  · exact ⟨tenTo_pos _, Nat.one_pos⟩
  · exact ⟨Nat.one_pos, tenTo_pos _⟩

/-- More in the exponent is a further factor. -/
theorem powerOfTen_add (e : Int) (j : Nat) :
    tenTo j * (powerOfTen e).1 * (powerOfTen (e + j)).2 =
      (powerOfTen (e + j)).1 * (powerOfTen e).2 := by
  unfold powerOfTen
  by_cases hsum : 0 ≤ e + j
  · rw [if_pos hsum]
    by_cases he : 0 ≤ e
    · have hpower : (e + j).toNat = j + e.toNat := by omega
      rw [if_pos he, hpower, tenTo_add]
    · have hpower : tenTo j = tenTo ((e + j).toNat + (-e).toNat) := by
        congr 1
        omega
      rw [if_neg he, hpower, tenTo_add, Nat.mul_one, Nat.mul_one]
  · have hpower : (-e).toNat = j + (-(e + j)).toNat := by omega
    rw [if_neg hsum, if_neg (by omega), hpower, tenTo_add, Nat.mul_one, Nat.one_mul]

/-! ## Values -/

variable {negative : Bool} {n : Nat} {e : Int} {m : Magnitude}

/-- A decimal is taken to a number that is not zero if its value is nearest to it and its first
digit has one of the places at which numbers are held. -/
theorem toNumber_eq_finite_iff (hm : m.units ≠ 0) :
    toNumber ⟨negative, n, e⟩ = .finite negative m ↔
      n ≠ 0 ∧ -324 < e + (Nat.toDigits 10 n).length ∧ e + (Nat.toDigits 10 n).length < 310 ∧
        nearest? (n * (powerOfTen e).1 * unitsInOne) (powerOfTen e).2 = some m := by
  have hratio (num den : Nat) : Number.ofRatio negative num den = .finite negative m ↔
      nearest? (num * unitsInOne) den = some m := by
    rw [Number.ofRatio_eq]
    dsimp only
    cases nearest? (num * unitsInOne) den <;> simp
  generalize unitsInOne = one at hratio ⊢
  unfold toNumber powerOfTen point
  dsimp only
  split
  · next h =>
    -- What is too small is taken to zero, which has no units.
    refine iff_of_false (fun heq => hm ?_) fun ⟨hn, hlow, _⟩ => by omega
    injection heq with _ hzero
    rw [← hzero, Magnitude.units_zero]
  · split
    · exact iff_of_false (fun heq => by cases heq) fun ⟨_, _, hhigh, _⟩ => by omega
    · have hrange : n ≠ 0 ∧ -324 < e + ((Nat.toDigits 10 n).length : Int) ∧
          e + ((Nat.toDigits 10 n).length : Int) < 310 := by omega
      split
      · rw [hratio]
        exact ⟨fun h => ⟨hrange.1, hrange.2.1, hrange.2.2, h⟩, fun h => h.2.2.2⟩
      · rw [hratio, Nat.mul_one]
        exact ⟨fun h => ⟨hrange.1, hrange.2.1, hrange.2.2, h⟩, fun h => h.2.2.2⟩

/-- Zeros may be moved from the digits into the exponent, whatever the sign is. -/
theorem toNumber_shift_iff (hm : m.units ≠ 0) (negative' : Bool) (j : Nat) :
    toNumber ⟨negative, n * tenTo j, e⟩ = .finite negative m ↔
      toNumber ⟨negative', n, e + j⟩ = .finite negative' m := by
  rw [toNumber_eq_finite_iff hm, toNumber_eq_finite_iff hm]
  generalize unitsInOne = one
  by_cases hn : n = 0
  · simp [hn]
  · have hne : n * tenTo j ≠ 0 := Nat.mul_ne_zero hn (Nat.ne_of_gt (tenTo_pos j))
    have hvalue : nearest? (n * tenTo j * (powerOfTen e).1 * one) (powerOfTen e).2 =
        nearest? (n * (powerOfTen (e + j)).1 * one) (powerOfTen (e + j)).2 := by
      refine Magnitude.nearest?_congr (powerOfTen_pos e).2 (powerOfTen_pos _).2 ?_
      calc
        n * tenTo j * (powerOfTen e).1 * one * (powerOfTen (e + j)).2 =
            n * one * (tenTo j * (powerOfTen e).1 * (powerOfTen (e + j)).2) := by ac_rfl
        _ = n * one * ((powerOfTen (e + j)).1 * (powerOfTen e).2) := by rw [powerOfTen_add]
        _ = n * (powerOfTen (e + j)).1 * one * (powerOfTen e).2 := by ac_rfl
    rw [toDigits_mul_tenTo hn, List.length_append, List.length_replicate, hvalue]
    simp only [ne_eq, hn, hne, not_false_eq_true, true_and]
    constructor
    · exact fun ⟨hlow, hhigh, h⟩ => ⟨by omega, by omega, h⟩
    · exact fun ⟨hlow, hhigh, h⟩ => ⟨by omega, by omega, h⟩

end Decimal

end Stencil
