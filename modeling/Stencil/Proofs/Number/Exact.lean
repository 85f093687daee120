import Stencil.Number.Round

/-!
# Ratios that need no rounding

A ratio that is a magnitude is taken to that magnitude (`Magnitude.nearest?_mul`), so what can be
held is read as it is (`Number.ofRatio_eq_finite`, `Number.ofInt_eq_finite`). Every integer of up to
53 bits can be held (`Number.position_ofNat`).
-/

namespace Stencil

namespace Magnitude

/-- The scale of a magnitude is the one at which its units have 53 bits, or the least one. -/
theorem log2_units_sub (m : Magnitude) : m.units.log2 - 52 = m.scale := by
  rcases m.scale_eq_zero_or_le with hscale | hle
  · -- At the least scale the units are the significand.
    have hunits : m.units < 2 ^ 53 := by
      have hlt := m.significand_lt
      simpa [units, hscale, twoTo] using hlt
    have hlog : m.units.log2 < 53 := by
      rcases Nat.eq_zero_or_pos m.units with h0 | hpos
      · rw [h0, Nat.log2_zero]
        omega
      · exact (Nat.log2_lt (Nat.ne_of_gt hpos)).2 hunits
    omega
  · have hlower : 2 ^ (52 + m.scale) ≤ m.units := by
      rw [Nat.pow_add]
      exact Nat.mul_le_mul_right _ hle
    have hupper : m.units < 2 ^ (52 + m.scale + 1) := by
      rw [show 52 + m.scale + 1 = 53 + m.scale by omega, Nat.pow_add]
      exact Nat.mul_lt_mul_of_pos_right m.significand_lt (twoTo_pos _)
    have hne : m.units ≠ 0 := Nat.ne_of_gt (Nat.lt_of_lt_of_le (Nat.two_pow_pos _) hlower)
    rw [(Nat.log2_eq_iff hne).2 ⟨hlower, hupper⟩]
    omega

/-- A ratio that is a magnitude is nearest to that magnitude. -/
theorem nearest?_mul (m : Magnitude) {den : Nat} (h : 0 < den) :
    nearest? (m.units * den) den = some m := by
  have hscale : scaleOf (m.units * den) den = m.scale := by
    rw [scaleOf, Nat.mul_div_cancel _ h, log2_units_sub]
  have hround : roundHalfEven (m.units * den) (den * twoTo m.scale) = m.significand := by
    have hunits : m.units * den = m.significand * (den * twoTo m.scale) := by
      rw [units, Nat.mul_assoc, Nat.mul_comm (twoTo m.scale)]
    rw [hunits, roundHalfEven_mul _ (Nat.mul_pos h (twoTo_pos _))]
  unfold nearest?
  simp only [hscale, hround, m.significand_lt, m.scale_le, dite_true]

/-- What has few enough bits above the last unit can be held. -/
theorem exists_units_eq {n : Nat} (scale : Nat) (hn : n < twoTo 53) (hscale : scale ≤ maxScale) :
    ∃ m : Magnitude, m.units = n * twoTo scale := by
  -- Bits are moved from the scale to the significand until one of them is used up.
  induction scale generalizing n with
  | zero => exact ⟨⟨n, 0, hn, Nat.zero_le _, .inl rfl⟩, rfl⟩
  | succ scale ih =>
    rcases Nat.lt_or_ge n (twoTo 52) with hlt | hge
    · have hdouble : 2 * n < twoTo 53 := by
        rw [twoTo_succ]
        omega
      obtain ⟨m, hm⟩ := ih hdouble (Nat.le_of_succ_le hscale)
      refine ⟨m, ?_⟩
      rw [hm, twoTo_succ, Nat.mul_comm 2 n, Nat.mul_assoc, Nat.mul_comm 2]
    · exact ⟨⟨n, scale + 1, hn, hscale, .inr hge⟩, rfl⟩

end Magnitude

namespace Number

/-- The number nearest to a ratio is the nearest magnitude with the sign. -/
theorem ofRatio_eq : ofRatio = fun negative num den =>
    match Magnitude.nearest? (num * Magnitude.unitsInOne) den with
    | some m => .finite negative m
    | none => .infinity negative :=
  -- This is an equation of functions so that nothing is computed: with arguments, the units in one
  -- would be counted out.
  (rfl)

/-- A ratio that is a magnitude is read as that magnitude. -/
theorem ofRatio_eq_finite {m : Magnitude} {num den : Nat} (hden : 0 < den)
    (h : num * Magnitude.unitsInOne = m.units * den) (negative : Bool) :
    ofRatio negative num den = .finite negative m := by
  have hnearest : Magnitude.nearest? (num * Magnitude.unitsInOne) den = some m := by
    rw [h, m.nearest?_mul hden]
  rw [ofRatio_eq]
  simp only [hnearest]

/-- A ratio is read as a number. -/
theorem ofRatio_ne_nan (negative : Bool) (num den : Nat) : ofRatio negative num den ≠ nan := by
  rw [ofRatio_eq]
  dsimp only
  cases Magnitude.nearest? (num * Magnitude.unitsInOne) den <;> exact fun h => by cases h

/-- A natural number is read as a number. -/
theorem ofNat_ne_nan (n : Nat) : ofNat n ≠ nan := ofRatio_ne_nan false n 1

/-- An integer that is a magnitude is read as that magnitude. -/
theorem ofInt_eq_finite {m : Magnitude} {i : Int}
    (h : m.units = i.natAbs * Magnitude.unitsInOne) : ofInt i = .finite (decide (i < 0)) m :=
  ofRatio_eq_finite Nat.one_pos (by rw [h, Nat.mul_one]) _

/-- A natural number of up to 53 bits, and the first with one more, stands at its place. -/
theorem position_ofNat {n : Nat} (h : n ≤ twoTo 53) :
    (ofNat n).position = some ((n * Magnitude.unitsInOne : Nat) : Int) := by
  obtain ⟨m, hm⟩ : ∃ m : Magnitude, m.units = n * Magnitude.unitsInOne := by
    rcases Nat.lt_or_eq_of_le h with hlt | rfl
    · exact Magnitude.exists_units_eq 1074 hlt (by decide)
    · obtain ⟨m, hm⟩ := Magnitude.exists_units_eq (n := 1) (53 + 1074) (by decide) (by decide)
      exact ⟨m, by rw [hm, twoTo_add, Nat.one_mul, Magnitude.unitsInOne]⟩
  have hof : ofNat n = .finite false m :=
    ofRatio_eq_finite Nat.one_pos (by rw [hm, Nat.mul_one]) _
  rw [hof, position, signed, if_neg Bool.false_ne_true, hm]

end Number

end Stencil
