import Stencil.Proofs.Number.Exact

/-!
# Ratios close to a magnitude

What a ratio is rounded to depends on its value and not on its terms (`Magnitude.nearest?_congr`). A
ratio that differs from a magnitude by less than one part in `2 ^ 54` is taken to that magnitude
(`Magnitude.Close.nearest?_eq`). This is half of the distance to the next magnitude below where that
distance is least in proportion, which is just below the powers of two.

The scale at which a close ratio is rounded may be less than the scale of the magnitude. It is never
greater, and the bits that the ratio then has below the magnitude are few enough to round up to it.
-/

namespace Stencil

variable {num den n : Nat}

/-- A common factor of its terms does not change what a ratio is rounded to. -/
theorem roundHalfEven_mul_right (num den : Nat) {k : Nat} (hk : 0 < k) :
    roundHalfEven (num * k) (den * k) = roundHalfEven num den := by
  unfold roundHalfEven
  dsimp only
  rw [Nat.mul_div_mul_right _ _ hk, Nat.mul_mod_mul_right, ← Nat.mul_assoc]
  simp only [Nat.mul_lt_mul_right hk]

/-- A ratio is rounded to an integer that is less than one half away. -/
theorem roundHalfEven_eq_of_lt (hlow : 2 * (n * den) < 2 * num + den)
    (hhigh : 2 * num < 2 * (n * den) + den) : roundHalfEven num den = n := by
  have hrest := Nat.div_add_mod num den
  unfold roundHalfEven
  dsimp only
  rcases Nat.lt_or_ge num (n * den) with hlt | hge
  · -- Below `n` the quotient is one less, and more than one half is left.
    obtain ⟨k, rfl⟩ : ∃ k, n = k + 1 := Nat.exists_eq_succ_of_ne_zero fun h => by simp [h] at hlt
    rw [Nat.succ_mul k] at hlow hhigh hlt
    have hquotient : num / den = k :=
      Nat.div_eq_of_lt_le (by omega) (by rw [Nat.succ_mul k]; omega)
    rw [hquotient, Nat.mul_comm] at hrest
    rw [hquotient, if_neg (by omega), if_pos (by omega)]
  · have hquotient : num / den = n :=
      Nat.div_eq_of_lt_le hge (by rw [Nat.succ_mul n]; omega)
    rw [hquotient, Nat.mul_comm] at hrest
    rw [hquotient, if_pos (by omega)]

namespace Magnitude

variable {m : Magnitude}

/-! ## Values of ratios -/

/-- A common factor of its terms does not change which magnitude is nearest to a ratio. -/
theorem nearest?_mul_right (num den : Nat) {k : Nat} (hk : 0 < k) :
    nearest? (num * k) (den * k) = nearest? num den := by
  have hscale : scaleOf (num * k) (den * k) = scaleOf num den := by
    rw [scaleOf, Nat.mul_div_mul_right _ _ hk, scaleOf]
  have hround : roundHalfEven (num * k) (den * k * twoTo (scaleOf num den)) =
      roundHalfEven num (den * twoTo (scaleOf num den)) := by
    rw [Nat.mul_right_comm, roundHalfEven_mul_right _ _ hk]
  unfold nearest?
  simp only [hscale, hround]

/-- Ratios with the same value have the same nearest magnitude. -/
theorem nearest?_congr {num' den' : Nat} (hden : 0 < den) (hden' : 0 < den')
    (h : num * den' = num' * den) : nearest? num den = nearest? num' den' := by
  rw [← nearest?_mul_right num den hden', h, Nat.mul_comm den, nearest?_mul_right num' den' hden]

/-! ## Scales -/

/-- Below the scale of a ratio there are at most 53 bits. -/
theorem lt_of_scaleOf (hden : 0 < den) : num < twoTo (53 + scaleOf num den) * den := by
  rw [← Nat.div_lt_iff_lt_mul hden]
  refine Nat.lt_of_lt_of_le Nat.lt_log2_self (twoTo_le ?_)
  unfold scaleOf
  omega

/-- At a positive scale there are at least 53 bits. -/
theorem le_of_scaleOf_pos (hden : 0 < den) (h : 0 < scaleOf num den) :
    twoTo (52 + scaleOf num den) * den ≤ num := by
  have hle := le_div_of_scaleOf_pos h
  rw [Nat.le_div_iff_mul_le (Nat.mul_pos hden (twoTo_pos _))] at hle
  rwa [twoTo_add, Nat.mul_assoc, Nat.mul_comm (twoTo (scaleOf num den))]

/-- A magnitude with 53 bits has a scale. -/
theorem le_maxScale_of_units {significand scale : Nat} (hsignificand : twoTo 52 ≤ significand)
    (h : significand * twoTo scale = m.units) : scale ≤ maxScale := by
  refine Nat.le_of_not_lt fun hscale => ?_
  have hbeyond : beyond ≤ significand * twoTo scale := by
    rw [beyond, twoTo_succ 52, Nat.mul_assoc, Nat.mul_comm 2, ← twoTo_succ maxScale]
    exact Nat.mul_le_mul hsignificand (twoTo_le hscale)
  rw [h] at hbeyond
  exact Nat.lt_irrefl _ (Nat.lt_of_lt_of_le m.units_lt_beyond hbeyond)

/-- The nearest magnitude is the one that has the rounded ratio as its units. -/
theorem nearest?_eq_some_of_units (hden : 0 < den)
    (h : roundHalfEven num (den * twoTo (scaleOf num den)) * twoTo (scaleOf num den) = m.units) :
    nearest? num den = some m := by
  have hpos : 0 < den * twoTo (scaleOf num den) := Nat.mul_pos hden (twoTo_pos _)
  have hlarge (hscale : 0 < scaleOf num den) :
      twoTo 52 ≤ roundHalfEven num (den * twoTo (scaleOf num den)) :=
    Nat.le_trans (le_div_of_scaleOf_pos hscale) (div_le_roundHalfEven _ _)
  have hsmall : roundHalfEven num (den * twoTo (scaleOf num den)) ≤ twoTo 53 := by
    refine Nat.le_trans (roundHalfEven_le _ _) ?_
    rw [Nat.succ_le_iff, Nat.div_lt_iff_lt_mul hpos]
    have hlt := @lt_of_scaleOf num den hden
    rwa [twoTo_add, Nat.mul_assoc, Nat.mul_comm (twoTo (scaleOf num den))] at hlt
  unfold nearest?
  dsimp only
  split
  · next hlt =>
    have hscale : scaleOf num den ≤ maxScale := by
      rcases Nat.eq_zero_or_pos (scaleOf num den) with h0 | h0
      · rw [h0]
        exact Nat.zero_le _
      · exact le_maxScale_of_units (hlarge h0) h
    rw [dif_pos hscale]
    exact congrArg some (ext_units h)
  · next hge =>
    -- Rounding up to one more bit leaves the least significand at the next scale.
    have hunits : twoTo 52 * twoTo (scaleOf num den + 1) = m.units := by
      rw [← h, Nat.le_antisymm hsmall (Nat.le_of_not_lt hge), twoTo_succ (scaleOf num den),
        twoTo_succ 52, Nat.mul_assoc, Nat.mul_comm 2]
    rw [dif_pos (le_maxScale_of_units (Nat.le_refl _) hunits)]
    exact congrArg some (ext_units hunits)

/-! ## Close ratios -/

/-- A ratio differs from a number of units by less than one part in `2 ^ 54`. -/
structure Close (num den units : Nat) : Prop where
  low : twoTo 54 * (units * den) < twoTo 54 * num + units * den
  high : twoTo 54 * num < twoTo 54 * (units * den) + units * den

/-- A ratio that is close to anything has a denominator. -/
theorem Close.den_pos {units : Nat} (h : Close num den units) : 0 < den := by
  rcases Nat.eq_zero_or_pos den with rfl | hpos
  · have hhigh := h.high
    omega
  · exact hpos

/-- A ratio close to a magnitude does not have a greater scale. -/
theorem Close.scaleOf_le (h : Close num den m.units) : scaleOf num den ≤ m.scale := by
  -- At a greater scale the ratio has `2 ^ 53` of the last bits of the magnitude, which has fewer.
  refine Nat.le_of_not_lt fun hscale => ?_
  have hnum : twoTo 53 * (twoTo m.scale * den) ≤ num := by
    refine Nat.le_trans ?_ (le_of_scaleOf_pos h.den_pos (by omega))
    rw [← Nat.mul_assoc, ← twoTo_add]
    exact Nat.mul_le_mul_right den (twoTo_le (by omega))
  have hunits : m.units * den = m.significand * (twoTo m.scale * den) := Nat.mul_assoc _ _ _
  have hpos : 0 < twoTo m.scale * den := Nat.mul_pos (twoTo_pos _) h.den_pos
  have hsignificand :=
    Nat.mul_le_mul_right (twoTo m.scale * den) (Nat.succ_le_of_lt m.significand_lt)
  have hhigh := h.high
  rw [Nat.succ_mul] at hsignificand
  rw [hunits] at hhigh
  have h53 : twoTo 53 = 9007199254740992 := by decide
  have h54 : twoTo 54 = 18014398509481984 := by decide
  rw [h53] at hnum hsignificand
  rw [h54] at hhigh
  omega

/-- A magnitude has at most 53 bits above the scale of a ratio close to it, or the first number with
one more. -/
theorem Close.units_le (h : Close num den m.units) : m.units ≤ twoTo (53 + scaleOf num den) := by
  refine Nat.le_of_not_lt fun hunits => ?_
  -- The units are a multiple of twice the last bit that the ratio keeps.
  have hscale : scaleOf num den < m.scale := by
    refine Nat.lt_of_not_le fun hge => Nat.not_lt.2 ?_ hunits
    rw [twoTo_add]
    exact Nat.mul_le_mul (Nat.le_of_lt m.significand_lt) (twoTo_le hge)
  obtain ⟨k, hk⟩ : ∃ k, m.units = k * (twoTo (scaleOf num den) * 2) := by
    obtain ⟨d, hd⟩ := Nat.exists_eq_add_of_lt hscale
    refine ⟨m.significand * twoTo d, ?_⟩
    rw [← twoTo_succ, Nat.mul_assoc, ← twoTo_add, units, hd]
    congr 2
    omega
  have hlarge : twoTo 52 + 1 ≤ k := by
    have h53 : twoTo 53 = twoTo 52 * 2 := twoTo_succ 52
    rw [hk, twoTo_add, h53, Nat.mul_assoc, Nat.mul_comm 2] at hunits
    exact Nat.lt_of_mul_lt_mul_right hunits
  have hproduct := Nat.mul_le_mul_right (twoTo (scaleOf num den) * den) hlarge
  have hnum := @lt_of_scaleOf num den h.den_pos
  have hlow := h.low
  have hunits' : m.units * den = 2 * (k * (twoTo (scaleOf num den) * den)) := by
    rw [hk]
    ac_rfl
  rw [twoTo_add, Nat.mul_assoc] at hnum
  rw [hunits'] at hlow
  have h52 : twoTo 52 = 4503599627370496 := by decide
  have h53 : twoTo 53 = 9007199254740992 := by decide
  have h54 : twoTo 54 = 18014398509481984 := by decide
  rw [h52] at hproduct
  rw [h53] at hnum
  rw [h54] at hlow
  omega

/-- The nearest magnitude of a ratio is the magnitude that it is close to. -/
theorem Close.nearest?_eq (h : Close num den m.units) : nearest? num den = some m := by
  obtain ⟨d, hd⟩ := Nat.exists_eq_add_of_le h.scaleOf_le
  have hunits : m.significand * twoTo d * twoTo (scaleOf num den) = m.units := by
    rw [units, hd, Nat.add_comm, twoTo_add, Nat.mul_assoc]
  refine nearest?_eq_some_of_units h.den_pos ?_
  -- The ratio differs from the units by less than half of the last bit that it keeps.
  have hle := Nat.mul_le_mul_right den h.units_le
  have hproduct : m.significand * twoTo d * (den * twoTo (scaleOf num den)) = m.units * den := by
    rw [← hunits]
    ac_rfl
  rw [twoTo_add, Nat.mul_assoc, Nat.mul_comm (twoTo (scaleOf num den))] at hle
  have hlow := h.low
  have hhigh := h.high
  have h53 : twoTo 53 = 9007199254740992 := by decide
  have h54 : twoTo 54 = 18014398509481984 := by decide
  rw [h53] at hle
  rw [h54] at hlow hhigh
  have hround : roundHalfEven num (den * twoTo (scaleOf num den)) = m.significand * twoTo d :=
    roundHalfEven_eq_of_lt (by omega) (by omega)
  rw [hround, hunits]

end Magnitude

end Stencil
