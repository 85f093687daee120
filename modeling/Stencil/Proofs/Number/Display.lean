import Stencil.Proofs.Number.Grammar
import Stencil.Proofs.Number.Shortest
import Stencil.Proofs.Text.Trim
import Stencil.Value.Equality

/-!
# Number text that is read back

Whatever number is written, its text stands for the number (`Number.ofText_display_equals_iff`), but
for `nan`, which equals nothing. Each of the layouts is a plain numeral, with an exponent behind it
or without one, and is read as the decimal whose digits it shows (`Number.ofText?_scientific`,
`Number.exists_positional`). The zeros that a layout drops or adds at the end of the digits are made
up for by the exponent, and the decimal reads back because it is the shortest one. Integers are
written as they are, digit for digit.
-/

namespace Stencil

/-! ## Digits -/

namespace Text

/-- Zeros behind digits are factors of ten. -/
theorem digitsValue_append_zeros (t : Text) (k : Nat) :
    digitsValue (t ++ Number.zeros k) = digitsValue t * tenTo k := by
  rw [digitsValue, Nat.ofDigitChars_append, Number.zeros, Nat.ofDigitChars_replicate_zero,
    Nat.mul_comm]
  rfl

/-- Zeros before digits do not count. -/
theorem digitsValue_zeros_append (k : Nat) (t : Text) :
    digitsValue (Number.zeros k ++ t) = digitsValue t := by
  rw [digitsValue, Nat.ofDigitChars_append, Number.zeros, Nat.ofDigitChars_replicate_zero,
    Nat.mul_zero, digitsValue]

/-- The digits of a number have its value. -/
theorem digitsValue_toDigits (n : Nat) : digitsValue (Nat.toDigits 10 n) = n :=
  Nat.ofDigitChars_ten_toDigits

end Text

namespace Number

open Decimal (DigitRun)
open Text (digitsValue)

/-- Zeros are digits. -/
theorem isDigit_of_mem_zeros {c : Char} {k : Nat} (h : c ∈ zeros k) : c.isDigit = true := by
  obtain rfl := (List.mem_replicate.1 h).2
  rfl

/-- Zeros are dropped from the end. -/
theorem exists_dropZeros_append (t : Text) : ∃ k, t = dropZeros t ++ zeros k := by
  have hzeros : t.rtakeWhile (· == '0') = zeros (t.rtakeWhile (· == '0')).length :=
    List.eq_replicate_of_mem fun c hc => by simpa using List.mem_rtakeWhile_imp hc
  refine ⟨(t.rtakeWhile (· == '0')).length, ?_⟩
  rw [← hzeros]
  exact List.rdropWhile_append_rtakeWhile.symm

/-- The digits of a number without the zeros at their end are digits, and the zeros are factors of
ten. -/
theorem exists_dropZeros_toDigits {n : Nat} (hn : n ≠ 0) :
    ∃ k, DigitRun (dropZeros (Nat.toDigits 10 n)) ∧
      (Nat.toDigits 10 n).length = (dropZeros (Nat.toDigits 10 n)).length + k ∧
      n = digitsValue (dropZeros (Nat.toDigits 10 n)) * tenTo k := by
  obtain ⟨k, hk⟩ := exists_dropZeros_append (Nat.toDigits 10 n)
  have hvalue : n = digitsValue (dropZeros (Nat.toDigits 10 n)) * tenTo k := by
    rw [← Text.digitsValue_append_zeros, ← hk, Text.digitsValue_toDigits]
  refine ⟨k, ⟨fun hnil => hn ?_, fun c hc => ?_⟩, ?_, hvalue⟩
  · rw [hnil] at hvalue
    rw [hvalue]
    exact Nat.zero_mul _
  · exact (digitRun_toDigits n).2 c (hk ▸ List.mem_append_left _ hc)
  · have hlength := congrArg List.length hk
    rwa [List.length_append, zeros, List.length_replicate] at hlength

/-! ## Numerals with exponents -/

/-- The sign before a number. -/
def signText (negative : Bool) : Text := if negative then ['-'] else []

end Number

namespace PlainNumeral

open Text (digitsValue)

/-- The sign stands before the numeral. -/
theorem text_eq_append (n : PlainNumeral) : n.text = Number.signText n.negative ++ n.unsigned := by
  unfold text Number.signText
  split <;> rfl

/-- A plain numeral with an exponent behind it is read as it is written. -/
theorem ofText?_text_append (n : PlainNumeral) {after : Text} {e : Int}
    (hafter : ∀ c ∈ after.head?, c.isDigit = false ∧ c ≠ '.')
    (he : Decimal.exponentPart? after = some e) :
    Decimal.ofText? (n.text ++ after) =
      some ⟨n.negative, digitsValue (n.whole ++ n.fraction), e - n.fraction.length⟩ := by
  have hsign : Text.spanSign (n.text ++ after) = (n.negative, n.unsigned ++ after) := by
    obtain ⟨c, t, ht, hc⟩ := n.exists_unsigned_eq_cons
    unfold text
    split
    · next h => rw [h]; rfl
    · next h => rw [ht, List.cons_append, Text.spanSign_cons hc, Bool.eq_false_iff.2 h]
  have hwhole : Text.spanDigits (n.unsigned ++ after) =
      (n.whole, pointed n.fraction ++ after) := by
    rw [unsigned, List.append_assoc]
    refine Text.spanDigits_append_of_forall n.isDigit_of_mem_whole fun c hc => ?_
    unfold pointed at hc
    split at hc
    · exact (hafter c hc).1
    · cases hc
      decide
  have hfraction : Decimal.fractionPart (pointed n.fraction ++ after) = (n.fraction, after) := by
    unfold pointed
    split
    · next h => rw [h]; exact Decimal.fractionPart_of_head fun c hc => (hafter c hc).2
    · exact Text.spanDigits_append_of_forall n.isDigit_of_mem_fraction fun c hc => (hafter c hc).1
  simp [Decimal.ofText?, hsign, hwhole, hfraction, n.whole_ne_nil, he]

end PlainNumeral

namespace Number

open Decimal (DigitRun)
open Text (digitsValue)

/-- An exponent is read as it is written. -/
theorem exponentPart?_exponentText (e : Int) :
    Decimal.exponentPart? ('e' :: exponentText e) = some e := by
  have hdigits : Text.spanDigits (Nat.toDigits 10 e.natAbs) = (Nat.toDigits 10 e.natAbs, []) := by
    have hspan :=
      Text.spanDigits_append_of_forall (r := []) (digitRun_toDigits e.natAbs).2 (by simp)
    rwa [List.append_nil] at hspan
  have hsign : Text.spanSign (exponentText e) = (decide (e < 0), Nat.toDigits 10 e.natAbs) := by
    unfold exponentText
    split
    · next h => rw [decide_eq_true h]; rfl
    · next h => rw [decide_eq_false h]; rfl
  have hvalue : signed (decide (e < 0)) e.natAbs = e := by
    unfold signed
    split
    · next h => have := of_decide_eq_true h; omega
    · next h => have := of_decide_eq_false (Bool.eq_false_iff.2 h); omega
  rw [Decimal.exponentPart?, if_pos (.inl rfl), Decimal.exponentOfText?, hsign]
  dsimp only
  rw [hdigits]
  dsimp only
  rw [if_neg (by simp [Nat.toDigits_ne_nil]), Text.digitsValue_toDigits, hvalue]

/-! ## Layouts -/

variable {digits : Text}

/-- Digits with an exponent are read as the decimal that they show. -/
theorem ofText?_scientific (hdigits : DigitRun digits) (negative : Bool) (point : Int) :
    Decimal.ofText? (signText negative ++ scientific digits point) =
      some ⟨negative, digitsValue digits, point - digits.length⟩ := by
  have hlength := List.length_pos_of_ne_nil hdigits.1
  have hne : digits.take 1 ≠ [] := by
    rw [← List.length_pos_iff, List.length_take]
    omega
  let n : PlainNumeral := ⟨negative, digits.take 1, digits.drop 1, hne,
    fun c hc => hdigits.2 c (List.mem_of_mem_take hc),
    fun c hc => hdigits.2 c (List.mem_of_mem_drop hc)⟩
  have htext : signText negative ++ scientific digits point =
      n.text ++ 'e' :: exponentText (point - 1) := by
    rw [n.text_eq_append, List.append_assoc]
    rfl
  have hexponent : point - 1 - (digits.drop 1).length = point - digits.length := by
    rw [List.length_drop]
    omega
  rw [htext, n.ofText?_text_append (by simp) (exponentPart?_exponentText _)]
  show some (Decimal.mk negative (digitsValue (digits.take 1 ++ digits.drop 1)) _) = _
  rw [List.take_append_drop, hexponent]

/-- Digits with a point among them, or zeros before or behind them, are a plain numeral. -/
theorem exists_positional (hdigits : DigitRun digits) (negative : Bool) (point : Int) :
    ∃ (n : PlainNumeral) (j : Nat), n.text = signText negative ++ positional digits point ∧
      n.value = ⟨negative, digitsValue digits * tenTo j, point - digits.length - j⟩ := by
  have hlength := List.length_pos_of_ne_nil hdigits.1
  unfold positional
  dsimp only
  split
  · next hpoint =>
    -- The first digit stands behind zeros.
    let n : PlainNumeral := ⟨negative, ['0'], zeros (-point).toNat ++ digits,
      List.cons_ne_nil _ _, List.forall_mem_singleton.2 rfl,
      fun c hc => (List.mem_append.1 hc).elim isDigit_of_mem_zeros (hdigits.2 c)⟩
    refine ⟨n, 0, ?_, ?_⟩
    · rw [n.text_eq_append, PlainNumeral.unsigned, PlainNumeral.pointed,
        if_neg (by simp [n, hdigits.1])]
      rfl
    · show Decimal.mk negative (digitsValue (zeros 1 ++ (zeros _ ++ digits))) _ = _
      rw [Text.digitsValue_zeros_append, Text.digitsValue_zeros_append]
      congr 1
      · exact (Nat.mul_one _).symm
      · show -((zeros _ ++ digits).length : Int) = _
        rw [List.length_append, zeros, List.length_replicate]
        omega
  · next hpoint =>
    split
    · next hplaces =>
      -- There are zeros behind the last digit.
      let n : PlainNumeral := ⟨negative, digits ++ zeros (point.toNat - digits.length), [],
        by simp [hdigits.1],
        fun c hc => (List.mem_append.1 hc).elim (hdigits.2 c) isDigit_of_mem_zeros, by simp⟩
      refine ⟨n, point.toNat - digits.length, ?_, ?_⟩
      · rw [n.text_eq_append, PlainNumeral.unsigned, PlainNumeral.pointed, if_pos rfl,
          List.append_nil]
      · show Decimal.mk negative (digitsValue (digits ++ zeros _ ++ [])) 0 = _
        rw [List.append_nil, Text.digitsValue_append_zeros]
        congr 1
        omega
    · next hplaces =>
      -- The point stands among the digits.
      let n : PlainNumeral := ⟨negative, digits.take point.toNat, digits.drop point.toNat,
        by simp [hdigits.1]; omega, fun c hc => hdigits.2 c (List.mem_of_mem_take hc),
        fun c hc => hdigits.2 c (List.mem_of_mem_drop hc)⟩
      refine ⟨n, 0, ?_, ?_⟩
      · rw [n.text_eq_append, PlainNumeral.unsigned, PlainNumeral.pointed,
          if_neg (by simp [n]; omega)]
      · show Decimal.mk negative (digitsValue (digits.take _ ++ digits.drop _)) _ = _
        rw [List.take_append_drop]
        congr 1
        · exact (Nat.mul_one _).symm
        · show -((digits.drop point.toNat).length : Int) = _
          rw [List.length_drop]
          omega

/-! ## Numbers -/

variable {m : Magnitude}

/-- No character of a decimal numeral is blank. -/
theorem isBlank_of_isNumeralChar {c : Char} (h : isNumeralChar c = true) :
    Text.isBlank c = false := by
  simp only [isNumeralChar, Bool.or_eq_true, beq_iff_eq] at h
  rcases h with ((((hdigit | rfl) | rfl) | rfl) | rfl) | rfl
  · rw [Text.isDigit_iff] at hdigit
    simp [Text.isBlank, Text.blankRanges]
    omega
  all_goals decide

/-- A decimal numeral stands for the number nearest to its value. -/
theorem ofText_of_ofText? {t : Text} {d : Decimal} (h : Decimal.ofText? t = some d) :
    ofText t = d.toNumber := by
  have hdecimal : Decimal.IsDecimal t := Decimal.isSome_ofText?_iff.1 (by rw [h]; rfl)
  have htrim : Text.trim t = t := by
    refine (Text.trimmed_of_any_eq_false (List.any_eq_false.2 fun c hc => ?_)).trim_eq
    rw [isBlank_of_isNumeralChar (List.all_eq_true.1 (all_isNumeralChar hdecimal) c hc)]
    exact Bool.false_ne_true
  have hread := readAs_ofText t
  rw [htrim] at hread
  generalize ofText t = x at hread
  cases hread with
  | blank => cases h
  | @infinity sign hsign => rcases hsign with rfl | rfl | rfl <;> cases h
  | @based mark digits base hmem =>
    have hbase := afterBase?_prefixed hmem digits
    rw [afterBase?_decimal hdecimal] at hbase
    cases hbase
  | decimal h' => rw [Option.some.inj (h.symm.trans h')]
  | other hnumeral _ => exact absurd (.decimal hdecimal) hnumeral

end Number

namespace Magnitude

open Number (signText)

variable {m : Magnitude}

/-- The least magnitude that is not too small to be written without an exponent is not above one. -/
theorem millionth_le_one : ∃ x, millionth.position = some x ∧ x ≤ (unitsInOne : Int) := by
  have hany : millionth.position.any (fun x => x ≤ (unitsInOne : Int)) = true := by decide +kernel
  obtain ⟨x, hx, hle⟩ := (Option.any_eq_true _ _).1 hany
  exact ⟨x, hx, of_decide_eq_true hle⟩

/-- The magnitudes that are written with all their digits and nothing else are the integers below
`10 ^ 21`. -/
theorem isIntegral_and_not_hasExponent_iff (hm : m.units ≠ 0) :
    (m.isIntegral && !m.hasExponent) = true ↔ ∃ k, k < tenTo 21 ∧ m.units = k * unitsInOne := by
  have hone := unitsInOne_pos
  obtain ⟨x, hx, hle⟩ := millionth_le_one
  have hsmall : (Number.finite false m).order? millionth = some (compare (m.units : Int) x) := by
    rw [Number.order?, hx]
    rfl
  unfold isIntegral hasExponent huge
  rw [hsmall]
  generalize unitsInOne = one at *
  simp only [Bool.and_eq_true, Bool.not_eq_true', Bool.or_eq_false_iff, decide_eq_false_iff_not,
    beq_iff_eq, beq_eq_false_iff_ne, Nat.not_le]
  constructor
  · rintro ⟨hintegral, hhuge, -⟩
    have hunits : m.units = m.units / one * one :=
      (Nat.div_mul_cancel (Nat.dvd_of_mod_eq_zero hintegral)).symm
    refine ⟨m.units / one, ?_, hunits⟩
    rw [hunits] at hhuge
    exact Nat.lt_of_mul_lt_mul_right hhuge
  · -- An integer other than zero is not below one, so it is not too small.
    rintro ⟨k, hk, hunits⟩
    have hpos : 1 * one ≤ k * one :=
      Nat.mul_le_mul_right one (Nat.pos_of_ne_zero fun h => hm (by rw [hunits, h, Nat.zero_mul]))
    refine ⟨?_, ?_, ?_⟩
    · rw [hunits, Nat.mul_mod_left]
    · rw [hunits]
      exact Nat.mul_lt_mul_of_pos_right hk hone
    · have hge : x ≤ (m.units : Int) := by omega
      simpa [Int.compare_eq_lt] using hge

/-- An integer below `10 ^ 21` is written as its digits. -/
theorem display_of_units {k : Nat} (hm : m.units ≠ 0) (hk : k < tenTo 21)
    (hunits : m.units = k * unitsInOne) : m.display = Nat.toDigits 10 k := by
  rw [display, if_pos ((isIntegral_and_not_hasExponent_iff hm).2 ⟨k, hk, hunits⟩), hunits,
    Nat.mul_div_cancel _ unitsInOne_pos]

/-- The digits of an integer read back. -/
theorem toNumber_of_units {k : Nat} (hm : m.units ≠ 0) (hk : k < tenTo 21)
    (hunits : m.units = k * unitsInOne) (negative : Bool) :
    Decimal.toNumber ⟨negative, k, 0⟩ = .finite negative m := by
  have hlength : (Nat.toDigits 10 k).length ≤ 21 := (length_toDigits_le_iff (by decide)).2 hk
  rw [Decimal.toNumber_eq_finite_iff hm]
  refine ⟨fun h => hm (by rw [hunits, h, Nat.zero_mul]), by omega, by omega, ?_⟩
  show nearest? (k * 1 * unitsInOne) 1 = some m
  rw [Nat.mul_one, ← hunits, ← Nat.mul_one m.units]
  exact m.nearest?_mul Nat.one_pos

/-- The text of a magnitude with a sign is read as a decimal that reads back. -/
theorem exists_ofText?_display (hm : m.units ≠ 0) (negative : Bool) :
    ∃ d, Decimal.ofText? (signText negative ++ m.display) = some d ∧
      d.toNumber = .finite negative m := by
  by_cases hplain : (m.isIntegral && !m.hasExponent) = true
  · obtain ⟨k, hk, hunits⟩ := (isIntegral_and_not_hasExponent_iff hm).1 hplain
    have hdigits := digitRun_toDigits k
    let n : PlainNumeral := ⟨negative, Nat.toDigits 10 k, [], hdigits.1, hdigits.2, by simp⟩
    have htext : signText negative ++ m.display = n.text := by
      rw [display_of_units hm hk hunits, n.text_eq_append, PlainNumeral.unsigned,
        PlainNumeral.pointed, if_pos rfl, List.append_nil]
    have hvalue : n.value = ⟨negative, k, 0⟩ := by
      show Decimal.mk negative (Text.digitsValue (Nat.toDigits 10 k ++ [])) 0 = _
      rw [List.append_nil, Text.digitsValue_toDigits]
    exact ⟨n.value, htext ▸ n.ofText?_text, hvalue ▸ toNumber_of_units hm hk hunits negative⟩
  · obtain ⟨n, e, hshortest, hread⟩ := exists_shortest_eq hm
    obtain ⟨k, hdigits, hlength, hvalue⟩ :=
      Number.exists_dropZeros_toDigits ((Decimal.toNumber_eq_finite_iff hm).1 hread).1
    have hpoint : Decimal.point ⟨false, n, e⟩ = e + (Nat.toDigits 10 n).length := rfl
    rw [display, if_neg hplain, hshortest]
    dsimp only
    rw [hpoint, hlength]
    generalize Number.dropZeros (Nat.toDigits 10 n) = digits at *
    -- The zeros that are dropped, and any that are added, are in the exponent.
    have hshown (j : Nat) : Decimal.toNumber ⟨negative, Text.digitsValue digits * tenTo j,
        e + (digits.length + k : Nat) - digits.length - j⟩ = .finite negative m := by
      have hexponent : e + (digits.length + k : Nat) - digits.length - j + j = e + k := by omega
      rw [Decimal.toNumber_shift_iff hm negative j, hexponent]
      rw [hvalue] at hread
      exact (Decimal.toNumber_shift_iff hm negative k).1 hread
    split
    · have hone : tenTo 0 = 1 := rfl
      have hzero := hshown 0
      rw [hone, Nat.mul_one, Int.natCast_zero, Int.sub_zero] at hzero
      exact ⟨_, Number.ofText?_scientific hdigits negative _, hzero⟩
    · obtain ⟨n, j, htext, hn⟩ := Number.exists_positional hdigits negative
        (e + (digits.length + k : Nat))
      exact ⟨n.value, htext ▸ n.ofText?_text, hn ▸ hshown j⟩

end Magnitude

namespace Number

/-- An integer as it is written: a minus if it is negative, and its digits. -/
def integerText (i : Int) : Text := signText (decide (i < 0)) ++ Nat.toDigits 10 i.natAbs

/-- A number is written with its sign, but for zero. -/
theorem display_finite {m : Magnitude} (hm : m.units ≠ 0) (negative : Bool) :
    display (.finite negative m) = signText negative ++ m.display := if_neg hm

/-- A number without units is written as zero. -/
theorem display_finite_zero {m : Magnitude} (hm : m.units = 0) (negative : Bool) :
    display (.finite negative m) = ['0'] := if_pos hm

/-- The text of a number stands for a number at the same place. -/
theorem position_ofText_display (n : Number) : (ofText n.display).position = n.position := by
  cases n with
  | nan => decide +kernel
  | infinity negative => cases negative <;> decide +kernel
  | finite negative m =>
    by_cases hm : m.units = 0
    · have hzero : (ofText ['0']).position = some 0 := by decide +kernel
      rw [display_finite_zero hm, hzero, position, hm]
      cases negative <;> rfl
    · obtain ⟨d, hd, hnumber⟩ := m.exists_ofText?_display hm negative
      rw [display_finite hm, ofText_of_ofText? hd, hnumber]

/-- Only `nan` has no place. -/
theorem exists_position_iff (n : Number) : (∃ x, n.position = some x) ↔ n ≠ nan := by
  cases n <;> simp [position]

/-- The size and the sign of what stands at the place of an integer. -/
theorem eq_natAbs_of_signed_eq {negative : Bool} {u one : Nat} {i : Int} (hone : 0 < one)
    (h : signed negative u = i * one) :
    u = i.natAbs * one ∧ (u ≠ 0 → decide (i < 0) = negative) := by
  have hsize : (signed negative u).natAbs = u := by cases negative <;> simp [signed]
  refine ⟨by rw [← hsize, h, Int.natAbs_mul, Int.natAbs_natCast], fun hu => ?_⟩
  rcases Int.lt_or_le i 0 with hneg | hnonneg
  · have hlt : i * one < 0 := Int.mul_neg_of_neg_of_pos hneg (Int.natCast_pos.2 hone)
    cases negative with
    | false =>
      rw [← h, signed, if_neg Bool.false_ne_true] at hlt
      omega
    | true => exact decide_eq_true hneg
  · have hle : 0 ≤ i * one := Int.mul_nonneg hnonneg (Int.natCast_nonneg one)
    cases negative with
    | false => exact decide_eq_false (Int.not_lt.2 hnonneg)
    | true =>
      rw [← h, signed, if_pos rfl] at hle
      omega

/-- An integer of less than 22 digits is written as it is. -/
theorem display_eq_integerText {n : Number} {i : Int}
    (h : n.position = some (i * (Magnitude.unitsInOne : Nat))) (hi : i.natAbs < tenTo 21) :
    n.display = integerText i := by
  have hone := Magnitude.unitsInOne_pos
  have hbeyond : tenTo 21 * Magnitude.unitsInOne ≤ Magnitude.beyond := by decide +kernel
  cases n with
  | nan => cases h
  | infinity negative =>
    obtain ⟨hplace, -⟩ := eq_natAbs_of_signed_eq hone (Option.some.inj h)
    have hlt := Nat.mul_lt_mul_of_pos_right hi hone
    omega
  | finite negative m =>
    obtain ⟨hplace, hsign⟩ := eq_natAbs_of_signed_eq hone (Option.some.inj h)
    by_cases hm : m.units = 0
    · have hzero : i.natAbs = 0 := by
        rw [hm] at hplace
        exact (Nat.mul_eq_zero.1 hplace.symm).resolve_right (Nat.ne_of_gt hone)
      obtain rfl : i = 0 := Int.natAbs_eq_zero.1 hzero
      rw [display_finite_zero hm]
      rfl
    · rw [display_finite hm, m.display_of_units hm hi hplace, integerText, hsign hm]

/-- What is written for a number stands for the number, so that the two are equal when they are
compared loosely; only `nan` is not equal to its text, or to anything. An integer below `10 ^ 21` is
written without an exponent and without a point. -/
theorem ofText_display_equals_iff (n : Number) :
    ((ofText n.display).equals n = true ↔ n ≠ nan) ∧
      (looselyEqual (some (.number n)) (some (.text (Value.number n).display)) = true ↔ n ≠ nan) ∧
      ∀ i : Int, n.position = some (i * (Magnitude.unitsInOne : Nat)) → i.natAbs < tenTo 21 →
        n.display = integerText i := by
  have hequals : (ofText n.display).equals n = true ↔ n ≠ nan := by
    rw [equals_iff, position_ofText_display, ← exists_position_iff]
    simp
  refine ⟨hequals, ?_, fun i => display_eq_integerText⟩
  have hloose : looselyEqual (some (.number n)) (some (.text (Value.number n).display)) =
      n.equals (ofText n.display) := by
    simp only [Value.display]
    rfl
  rw [hloose, ← hequals, equals_iff, equals_iff]
  simp only [and_comm]

/-- The least number above `-10 ^ 21`, which is an integer. -/
def aboveNegativeHuge : Int := -999999999999999868928

/-- It is written with all its digits, and the text is read back. -/
theorem ofText_display_aboveNegativeHuge :
    (ofInt aboveNegativeHuge).position =
        some (aboveNegativeHuge * (Magnitude.unitsInOne : Nat)) ∧
      aboveNegativeHuge.natAbs < tenTo 21 ∧
      (ofText (ofInt aboveNegativeHuge).display).equals (ofInt aboveNegativeHuge) = true ∧
      (ofInt aboveNegativeHuge).display = "-999999999999999868928".toList := by
  have hplace : (ofInt aboveNegativeHuge).position =
      some (aboveNegativeHuge * (Magnitude.unitsInOne : Nat)) := by decide +kernel
  have hsize : aboveNegativeHuge.natAbs < tenTo 21 := by decide
  have hdigits : integerText aboveNegativeHuge = "-999999999999999868928".toList := by
    decide +kernel
  obtain ⟨hequals, -, htext⟩ := ofText_display_equals_iff (ofInt aboveNegativeHuge)
  refine ⟨hplace, hsize, hequals.2 fun hnan => ?_, (htext _ hplace hsize).trans hdigits⟩
  rw [hnan] at hplace
  cases hplace

end Number

end Stencil
