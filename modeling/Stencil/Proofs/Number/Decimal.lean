import Mathlib.Data.List.TakeWhile
import Stencil.Proofs.Number.Exact
import Stencil.Proofs.Number.Numeral

/-!
# The grammar of decimal numerals

`Decimal.IsDecimal` is the grammar of decimal numerals: a sign, digits with a point before, between
or behind them, and an exponent. `Decimal.ofText?` reads the parts in this order, and each reader
has a lemma that says which texts it takes: `Decimal.isSome_exponentOfText?_iff` for the digits of
an exponent, `Decimal.isSome_exponentPart?_iff` for what stands behind the mantissa, and
`Decimal.isSome_ofText?_iff` for the whole.
-/

namespace Stencil

namespace Decimal

/-- One or more decimal digits. -/
def DigitRun (t : Text) : Prop := t ≠ [] ∧ ∀ c ∈ t, c.isDigit = true

/-- A sign, or none. -/
def IsSign (t : Text) : Prop := t = [] ∨ t = ['+'] ∨ t = ['-']

/-- Digits, with a point and further digits behind them or not, or a point with digits behind it. -/
inductive IsMantissa : Text → Prop
  | whole {digits : Text} (h : DigitRun digits) : IsMantissa digits
  | pointed {digits fraction : Text} (h : DigitRun digits)
    (hfraction : ∀ c ∈ fraction, c.isDigit = true) : IsMantissa (digits ++ '.' :: fraction)
  | fraction {fraction : Text} (h : DigitRun fraction) : IsMantissa ('.' :: fraction)

/-- An exponent with its mark, or none. -/
inductive IsExponent : Text → Prop
  | none : IsExponent []
  | marked {mark : Char} {sign digits : Text} (hmark : mark = 'e' ∨ mark = 'E')
    (hsign : IsSign sign) (h : DigitRun digits) : IsExponent (mark :: (sign ++ digits))

/-- A sign, a mantissa and an exponent. -/
inductive IsDecimal : Text → Prop
  | mk {sign mantissa exponent : Text} (hsign : IsSign sign) (hmantissa : IsMantissa mantissa)
    (hexponent : IsExponent exponent) : IsDecimal (sign ++ (mantissa ++ exponent))

variable {t u : Text}

/-- What is not empty and has only digits begins with a digit. -/
theorem DigitRun.head (h : DigitRun t) (u : Text) : ∃ c r, t ++ u = c :: r ∧ c.isDigit = true := by
  obtain ⟨c, r, rfl⟩ := List.exists_cons_of_ne_nil h.1
  exact ⟨c, r ++ u, rfl, h.2 c List.mem_cons_self⟩

/-- Before the rest of a text stands a sign or nothing. -/
theorem exists_sign_append (t : Text) : ∃ sign, IsSign sign ∧ t = sign ++ (Text.spanSign t).2 := by
  unfold Text.spanSign
  split
  · exact ⟨['-'], .inr (.inr rfl), rfl⟩
  · exact ⟨['+'], .inr (.inl rfl), rfl⟩
  · exact ⟨[], .inl rfl, rfl⟩

/-- The rest begins after the sign. -/
theorem spanSign_append {sign : Text} (hsign : IsSign sign)
    (hu : ∀ c ∈ u.head?, c ≠ '+' ∧ c ≠ '-') : (Text.spanSign (sign ++ u)).2 = u := by
  rcases hsign with rfl | rfl | rfl
  · rw [List.nil_append]
    unfold Text.spanSign
    split
    · exact absurd rfl (hu '-' rfl).2
    · exact absurd rfl (hu '+' rfl).1
    · rfl
  · rfl
  · rfl

/-- The digits at the beginning of a text are digits. -/
theorem isDigit_of_mem_spanDigits {c : Char} (h : c ∈ (Text.spanDigits t).1) : c.isDigit = true :=
  List.mem_takeWhile_imp h

/-- A text without a point at its beginning has no part after the point. -/
theorem fractionPart_of_head (h : ∀ c ∈ t.head?, c ≠ '.') : fractionPart t = ([], t) := by
  unfold fractionPart
  split
  · exact absurd rfl (h '.' rfl)
  · rfl

/-- An exponent is a sign and digits. -/
theorem isSome_exponentOfText?_iff :
    (exponentOfText? t).isSome = true ↔
      ∃ sign digits, IsSign sign ∧ DigitRun digits ∧ t = sign ++ digits := by
  have hsome : (exponentOfText? t).isSome = true ↔ (Text.spanDigits (Text.spanSign t).2).1 ≠ [] ∧
      (Text.spanDigits (Text.spanSign t).2).2 = [] := by
    unfold exponentOfText?
    dsimp only
    rw [← not_iff_not]
    split <;> simp_all [imp_iff_not_or]
  rw [hsome]
  constructor
  · rintro ⟨hne, hrest⟩
    obtain ⟨sign, hsign, ht⟩ := exists_sign_append t
    refine ⟨sign, _, hsign, ⟨hne, fun c => isDigit_of_mem_spanDigits⟩, ?_⟩
    have hall := Text.spanDigits_append (Text.spanSign t).2
    rw [hrest, List.append_nil] at hall
    rwa [hall]
  · rintro ⟨sign, digits, hsign, hdigits, rfl⟩
    have hhead : ∀ c ∈ digits.head?, c ≠ '+' ∧ c ≠ '-' := by
      intro c hc
      have hdigit := hdigits.2 c (List.mem_of_mem_head? hc)
      constructor <;> (rintro rfl; exact absurd hdigit (by decide))
    have hspan := Text.spanDigits_append_of_forall (r := []) hdigits.2 (by simp)
    rw [List.append_nil] at hspan
    rw [spanSign_append hsign hhead, hspan]
    exact ⟨hdigits.1, rfl⟩

/-- What may follow the mantissa is an exponent. -/
theorem isSome_exponentPart?_iff : (exponentPart? t).isSome = true ↔ IsExponent t := by
  cases t with
  | nil => exact iff_of_true rfl .none
  | cons c t =>
    rw [exponentPart?]
    constructor
    · intro h
      split at h
      · next hmark =>
        obtain ⟨sign, digits, hsign, hdigits, rfl⟩ := isSome_exponentOfText?_iff.1 h
        exact .marked hmark hsign hdigits
      · cases h
    · intro h
      cases h with
      | marked hmark hsign hdigits =>
        rw [if_pos hmark]
        exact isSome_exponentOfText?_iff.2 ⟨_, _, hsign, hdigits, rfl⟩

/-- An exponent begins with its mark. -/
theorem IsExponent.head (h : IsExponent t) : ∀ c ∈ t.head?, c = 'e' ∨ c = 'E' := by
  cases h with
  | none => exact fun c hc => by cases hc
  | marked hmark _ _ =>
    rintro c ⟨⟩
    exact hmark

/-- An exponent does not begin with a digit or a point. -/
theorem IsExponent.ends (h : IsExponent t) : ∀ c ∈ t.head?, c.isDigit = false ∧ c ≠ '.' := by
  intro c hc
  rcases h.head c hc with rfl | rfl <;> decide

/-- Digits with a part after the point, if there is a digit among them, are a mantissa. -/
theorem exists_mantissa_append {whole rest fraction after : Text}
    (hwhole : Text.spanDigits u = (whole, rest)) (hfraction : fractionPart rest = (fraction, after))
    (hne : ¬ (whole = [] ∧ fraction = [])) :
    ∃ mantissa, IsMantissa mantissa ∧ u = mantissa ++ after := by
  have hu : whole ++ rest = u := by
    have h := Text.spanDigits_append u
    rwa [hwhole] at h
  have hdigits : ∀ c ∈ whole, c.isDigit = true := fun c hc =>
    isDigit_of_mem_spanDigits (t := u) (by rwa [hwhole])
  unfold fractionPart at hfraction
  split at hfraction
  · next r =>
    have hr : fraction ++ after = r := by
      have h := Text.spanDigits_append r
      rwa [hfraction] at h
    have hdigits' : ∀ c ∈ fraction, c.isDigit = true := fun c hc =>
      isDigit_of_mem_spanDigits (t := r) (by rwa [hfraction])
    by_cases hw : whole = []
    · refine ⟨'.' :: fraction, .fraction ⟨fun h => hne ⟨hw, h⟩, hdigits'⟩, ?_⟩
      rw [← hu, hw, ← hr]
      rfl
    · refine ⟨whole ++ '.' :: fraction, .pointed ⟨hw, hdigits⟩ hdigits', ?_⟩
      rw [← hu, ← hr, List.append_assoc]
      rfl
  · obtain ⟨rfl, rfl⟩ := Prod.mk.inj hfraction
    exact ⟨whole, .whole ⟨fun h => hne ⟨h, rfl⟩, hdigits⟩, hu.symm⟩

/-- A mantissa is digits with a part after the point, and there is a digit among them. -/
theorem IsMantissa.exists_parts {mantissa exponent : Text} (h : IsMantissa mantissa)
    (hexponent : IsExponent exponent) :
    ∃ whole rest fraction, Text.spanDigits (mantissa ++ exponent) = (whole, rest) ∧
      fractionPart rest = (fraction, exponent) ∧ ¬ (whole = [] ∧ fraction = []) := by
  have hends := hexponent.ends
  have hdigits {s : Text} (hs : ∀ c ∈ s, c.isDigit = true) :
      Text.spanDigits (s ++ exponent) = (s, exponent) :=
    Text.spanDigits_append_of_forall hs fun c hc => (hends c hc).1
  have hpoint {s r : Text} (hs : ∀ c ∈ s, c.isDigit = true) :
      Text.spanDigits (s ++ '.' :: r) = (s, '.' :: r) :=
    Text.spanDigits_append_of_forall hs fun c hc => by
      cases hc
      decide
  cases h with
  | whole h =>
    exact ⟨_, _, [], hdigits h.2, fractionPart_of_head fun c hc => (hends c hc).2,
      fun hnil => h.1 hnil.1⟩
  | @pointed digits fraction h hfraction =>
    refine ⟨digits, '.' :: (fraction ++ exponent), fraction, ?_, hdigits hfraction,
      fun hnil => h.1 hnil.1⟩
    rw [List.append_assoc]
    exact hpoint h.2
  | @fraction fraction h =>
    exact ⟨[], '.' :: (fraction ++ exponent), fraction, hpoint (s := []) (by simp), hdigits h.2,
      fun hnil => h.1 hnil.2⟩

/-- A mantissa does not begin with a sign. -/
theorem IsMantissa.head {mantissa : Text} (h : IsMantissa mantissa) (after : Text) :
    ∀ c ∈ (mantissa ++ after).head?, c ≠ '+' ∧ c ≠ '-' := by
  have hdigits {digits r : Text} (hd : DigitRun digits) :
      ∀ c ∈ (digits ++ r).head?, c ≠ '+' ∧ c ≠ '-' := by
    obtain ⟨d, s, hs, hdigit⟩ := hd.head r
    rw [hs]
    rintro c ⟨⟩
    constructor <;> (rintro rfl; exact absurd hdigit (by decide))
  cases h with
  | whole h => exact hdigits h
  | pointed h _ =>
    rw [List.append_assoc]
    exact hdigits h
  | fraction h =>
    rintro c ⟨⟩
    decide

/-- A text is read as a numeral if there are digits behind its sign, before or after the point, and
what follows them is an exponent. -/
theorem isSome_ofText?_iff_parts :
    (ofText? t).isSome = true ↔ ∃ whole rest fraction after,
      Text.spanDigits (Text.spanSign t).2 = (whole, rest) ∧
      fractionPart rest = (fraction, after) ∧ ¬ (whole = [] ∧ fraction = []) ∧
      (exponentPart? after).isSome = true := by
  unfold ofText?
  dsimp only
  constructor
  · intro h
    split at h
    · cases h
    · next hne => exact ⟨_, _, _, _, rfl, rfl, hne, by rwa [Option.isSome_map] at h⟩
  · rintro ⟨whole, rest, fraction, after, hwhole, hfraction, hne, hexponent⟩
    rw [hwhole]
    dsimp only
    rw [hfraction, if_neg hne, Option.isSome_map]
    exact hexponent

/-- The texts that are read as numerals are the decimal numerals. -/
theorem isSome_ofText?_iff : (ofText? t).isSome = true ↔ IsDecimal t := by
  rw [isSome_ofText?_iff_parts]
  constructor
  · rintro ⟨whole, rest, fraction, after, hwhole, hfraction, hne, hexponent⟩
    obtain ⟨sign, hsign, ht⟩ := exists_sign_append t
    obtain ⟨mantissa, hmantissa, hu⟩ := exists_mantissa_append hwhole hfraction hne
    rw [ht, hu]
    exact .mk hsign hmantissa (isSome_exponentPart?_iff.1 hexponent)
  · rintro ⟨hsign, hmantissa, hexponent⟩
    rw [spanSign_append hsign (hmantissa.head _)]
    obtain ⟨whole, rest, fraction, hwhole, hfraction, hne⟩ := hmantissa.exists_parts hexponent
    exact ⟨whole, rest, fraction, _, hwhole, hfraction, hne, isSome_exponentPart?_iff.2 hexponent⟩

/-- The number nearest to a decimal is a number. -/
theorem toNumber_ne_nan (d : Decimal) : d.toNumber ≠ .nan := by
  unfold toNumber
  split_ifs
  · exact fun h => by cases h
  · exact fun h => by cases h
  · exact Number.ofRatio_ne_nan _ _ _
  · exact Number.ofRatio_ne_nan _ _ _

end Decimal

end Stencil
