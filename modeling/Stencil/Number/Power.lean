/-!
# Powers of two and of ten

Numbers are held in base two and written in base ten. The powers of both bases have names of their
own, with the few laws that the arithmetic of magnitudes needs.
-/

namespace Stencil

/-- The power of two with an exponent. -/
def twoTo (n : Nat) : Nat := Nat.pow 2 n

/-- The power of ten with an exponent. -/
def tenTo (n : Nat) : Nat := Nat.pow 10 n

/-- The exponents of factors add up. -/
theorem twoTo_add (m n : Nat) : twoTo (m + n) = twoTo m * twoTo n := Nat.pow_add 2 m n

/-- One more in the exponent is one more factor. -/
theorem twoTo_succ (n : Nat) : twoTo (n + 1) = twoTo n * 2 := rfl

/-- Powers of two are positive. -/
theorem twoTo_pos (n : Nat) : 0 < twoTo n := Nat.two_pow_pos n

/-- Powers of two grow with the exponent. -/
theorem twoTo_le {m n : Nat} (h : m ≤ n) : twoTo m ≤ twoTo n :=
  Nat.pow_le_pow_right Nat.two_pos h

/-- Powers of ten are positive. -/
theorem tenTo_pos (n : Nat) : 0 < tenTo n := Nat.pow_pos (Nat.zero_lt_succ 9)

/-- A positive number is at least the power of two of its binary logarithm. -/
theorem twoTo_log2_le {n : Nat} (h : n ≠ 0) : twoTo n.log2 ≤ n := Nat.log2_self_le h

end Stencil
