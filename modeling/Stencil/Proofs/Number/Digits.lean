import Stencil.Proofs.Number.Decimal

/-!
# Digits that are written

A natural number is written with its decimal digits. They are a run of digits (`digitRun_toDigits`)
that begins with a zero only if the number is zero (`head?_toDigits_ne_zero`), and they are read
back as the number.
-/

namespace Stencil

/-- The digits of a number are a run of digits. -/
theorem digitRun_toDigits (n : Nat) : Decimal.DigitRun (Nat.toDigits 10 n) :=
  ⟨Nat.toDigits_ne_nil, fun _ hc => Nat.isDigit_of_mem_toDigits (by decide) (by decide) hc⟩

/-- Only zero begins with a zero. -/
theorem head?_toDigits_ne_zero {n : Nat} (h : n ≠ 0) : (Nat.toDigits 10 n).head? ≠ some '0' := by
  have hdigit : ∀ d < 10, d ≠ 0 → some (Nat.digitChar d) ≠ some '0' := by decide
  induction n using Nat.strongRecOn with
  | ind n ih =>
    rcases Nat.lt_or_ge n 10 with hlt | hge
    · rw [Nat.toDigits_of_lt_base hlt]
      exact hdigit n hlt h
    · -- The first digit is that of the number without its last digit.
      have hfirst := ih (n / 10) (by omega) (by omega)
      obtain ⟨c, u, hu⟩ := List.exists_cons_of_ne_nil (Nat.toDigits_ne_nil (b := 10) (n := n / 10))
      rw [Nat.toDigits_of_base_le (by decide) hge, hu]
      rwa [hu] at hfirst

/-- A number of at most `k` digits is below `10 ^ k`. -/
theorem length_toDigits_le_iff {n k : Nat} (hk : 0 < k) :
    (Nat.toDigits 10 n).length ≤ k ↔ n < tenTo k :=
  Nat.length_toDigits_le_iff (by decide) hk

/-- The number of digits tells the size of a number. -/
theorem length_toDigits_bounds {n : Nat} (hn : n ≠ 0) :
    tenTo ((Nat.toDigits 10 n).length - 1) ≤ n ∧ n < tenTo (Nat.toDigits 10 n).length := by
  refine ⟨Nat.le_of_not_lt fun hlt => ?_, ?_⟩
  · rcases Nat.eq_zero_or_pos ((Nat.toDigits 10 n).length - 1) with hone | hmore
    · rw [hone] at hlt
      exact hn (Nat.lt_one_iff.1 hlt)
    · have hle := (length_toDigits_le_iff hmore).2 hlt
      omega
  · exact (length_toDigits_le_iff Nat.length_toDigits_pos).1 (Nat.le_refl _)

/-- The number that digits stand for is not below the number that they are appended to. -/
theorem le_ofDigitChars (t : Text) (n : Nat) : n ≤ Nat.ofDigitChars 10 t n := by
  rw [Nat.ofDigitChars_eq_ofDigitChars_zero]
  exact Nat.le_trans (Nat.le_mul_of_pos_left n (Nat.pow_pos (by decide))) (Nat.le_add_right _ _)

end Stencil
