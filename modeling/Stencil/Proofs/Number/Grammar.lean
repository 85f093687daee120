import Stencil.Number.Display
import Stencil.Proofs.Number.Decimal

/-!
# The grammar of numbers in texts

`Number.IsNumeral` is the grammar of the texts that stand for numbers: nothing at all, the spellings
of infinity, digits after the prefix of a base, and decimal numerals. `Number.ofText` keeps to it
but for the digits after a prefix, which are read as an integer of 64 bits: it takes a plus before
them, and it does not take what is too large (`Number.ofText_ne_nan_iff`).

`Number.readAs_ofText` says what a text is read as, one case for each kind of text, and the grammar
is compared with these cases. Words such as `inf` and `nan` are not of the grammar; to look at the
characters first keeps them out of decimal numerals and keeps nothing else out
(`Number.ofFilteredText_eq`).
-/

namespace Stencil

/-! ## Digits in bases -/

namespace Text

/-- The digits of a base of at most 16, in both cases. -/
def digitsOfBase (base : Nat) : Text :=
  ['0', '1', '2', '3', '4', '5', '6', '7', '8', '9', 'a', 'b', 'c', 'd', 'e', 'f'].take base ++
    ['A', 'B', 'C', 'D', 'E', 'F'].take (base - 10)

/-- One or more digits of a base. -/
def BaseDigits (base : Nat) (t : Text) : Prop := t ≠ [] ∧ ∀ c ∈ t, c ∈ digitsOfBase base

/-- The decimal digits by their code points. -/
theorem isDigit_iff {c : Char} : c.isDigit = true ↔ 48 ≤ c.toNat ∧ c.toNat ≤ 57 := by
  simp [Char.isDigit, UInt32.le_iff_toNat_le]

/-- The small letters by their code points. -/
theorem isLower_iff {c : Char} : c.isLower = true ↔ 97 ≤ c.toNat ∧ c.toNat ≤ 122 := by
  show (decide (c.val ≥ 'a'.val) && decide (c.val ≤ 'z'.val)) = true ↔ _
  simp [UInt32.le_iff_toNat_le]

/-- The capital letters by their code points. -/
theorem isUpper_iff {c : Char} : c.isUpper = true ↔ 65 ≤ c.toNat ∧ c.toNat ≤ 90 := by
  show decide (c.val ≥ 'A'.val ∧ c.val ≤ 'Z'.val) = true ↔ _
  simp [UInt32.le_iff_toNat_le]

/-- The value of a digit or a letter by its code point. -/
theorem digitValue?_eq_some_iff {c : Char} {d : Nat} :
    digitValue? c = some d ↔
      (48 ≤ c.toNat ∧ c.toNat ≤ 57 ∧ c.toNat = d + 48) ∨
        (97 ≤ c.toNat ∧ c.toNat ≤ 122 ∧ c.toNat = d + 87) ∨
        (65 ≤ c.toNat ∧ c.toNat ≤ 90 ∧ c.toNat = d + 55) := by
  have hcodes : '0'.toNat = 48 ∧ 'a'.toNat = 97 ∧ 'A'.toNat = 65 := by decide
  unfold digitValue?
  simp only [isDigit_iff, isLower_iff, isUpper_iff, hcodes]
  split_ifs <;> simp only [Option.some.injEq, false_iff] <;> omega

/-- The digits of a base are the characters with a value below it. -/
theorem mem_digitsOfBase_iff {base : Nat} (hbase : base = 16 ∨ base = 8 ∨ base = 2) (c : Char) :
    c ∈ digitsOfBase base ↔ ∃ d, digitValue? c = some d ∧ d < base := by
  constructor
  · have hall : (digitsOfBase base).all (fun c => (digitValue? c).any (· < base)) = true := by
      rcases hbase with rfl | rfl | rfl <;> decide
    intro hc
    obtain ⟨d, hd, hlt⟩ := (Option.any_eq_true _ _).1 (List.all_eq_true.1 hall c hc)
    exact ⟨d, hd, of_decide_eq_true hlt⟩
  · rintro ⟨d, hd, hlt⟩
    rw [digitValue?_eq_some_iff] at hd
    -- The code point of the character is that of one of the digits.
    rcases hbase with rfl | rfl | rfl <;> simp [digitsOfBase, ← Char.toNat_inj] <;> omega

/-- A run of digits in a base has a value if all characters are digits of the base. -/
theorem isSome_foldlM_iff {base : Nat} (t : Text) (value : Nat) :
    (t.foldlM (fun value c => do
      let d ← digitValue? c
      if d < base then some (base * value + d) else none) value).isSome = true ↔
        ∀ c ∈ t, ∃ d, digitValue? c = some d ∧ d < base := by
  induction t generalizing value with
  | nil => simp
  | cons c t ih =>
    rw [List.foldlM_cons, List.forall_mem_cons]
    cases hd : digitValue? c with
    | none => simp
    | some d =>
      by_cases hlt : d < base
      · simpa [hlt] using ih _
      · simp [hlt]

/-- A text has a value in a base if it is made of digits of the base. -/
theorem isSome_valueInBase?_iff {base : Nat} (hbase : base = 16 ∨ base = 8 ∨ base = 2) (t : Text) :
    (valueInBase? base t).isSome = true ↔ BaseDigits base t := by
  cases t with
  | nil => simp [valueInBase?, BaseDigits]
  | cons c t =>
    have hvalue : (valueInBase? base (c :: t)).isSome = true ↔ _ := isSome_foldlM_iff (c :: t) 0
    rw [hvalue, BaseDigits, and_iff_right (List.cons_ne_nil c t)]
    exact forall₂_congr fun c _ => (mem_digitsOfBase_iff hbase c).symm

end Text

namespace Number

variable {t u mark digits : Text} {base : Nat}

/-- The bases that have prefixes. -/
theorem base_of_mem_basePrefixes (h : (mark, base) ∈ basePrefixes) :
    base = 16 ∨ base = 8 ∨ base = 2 := by
  simp [basePrefixes] at h
  omega

/-- After the prefix of a base comes what is read in that base. -/
theorem afterBase?_prefixed (h : (mark, base) ∈ basePrefixes) (digits : Text) :
    afterBase? (mark ++ digits) = some (digits, base) := by
  simp only [basePrefixes, List.mem_cons, Prod.mk.injEq, List.not_mem_nil, or_false] at h
  rcases h with ⟨rfl, rfl⟩ | ⟨rfl, rfl⟩ | ⟨rfl, rfl⟩ | ⟨rfl, rfl⟩ | ⟨rfl, rfl⟩ | ⟨rfl, rfl⟩ <;> rfl

/-- What is read in a base comes after a prefix of it. -/
theorem exists_prefixed (h : afterBase? t = some (digits, base)) :
    ∃ mark, (mark, base) ∈ basePrefixes ∧ t = mark ++ digits := by
  obtain ⟨⟨mark, base'⟩, hmem, hmap⟩ := List.exists_of_findSome?_eq_some h
  obtain ⟨r, hr, heq⟩ := Option.map_eq_some_iff.1 hmap
  obtain ⟨rfl, rfl⟩ := Prod.mk.inj heq
  exact ⟨mark, hmem, Text.after?_eq_some_iff.1 hr⟩

/-- An infinity has no prefix of a base. -/
theorem afterBase?_infinity {sign : Text} (h : Decimal.IsSign sign) :
    afterBase? (sign ++ infinityWord) = none := by
  rcases h with rfl | rfl | rfl <;> rfl

/-- A decimal numeral has no prefix of a base, which has a letter behind its first digit. -/
theorem afterBase?_decimal (h : Decimal.IsDecimal t) : afterBase? t = none := by
  rcases hbase : afterBase? t with _ | ⟨digits, base⟩
  · rfl
  · obtain ⟨mark, hmem, rfl⟩ := exists_prefixed hbase
    rw [← Decimal.isSome_ofText?_iff] at h
    simp only [basePrefixes, List.mem_cons, Prod.mk.injEq, List.not_mem_nil, or_false] at hmem
    rcases hmem with ⟨rfl, -⟩ | ⟨rfl, -⟩ | ⟨rfl, -⟩ | ⟨rfl, -⟩ | ⟨rfl, -⟩ | ⟨rfl, -⟩ <;> cases h

/-- The prefix of a text tells the base and what follows. -/
theorem eq_of_prefixed {mark' digits' : Text} {base' : Nat} (h : (mark, base) ∈ basePrefixes)
    (h' : (mark', base') ∈ basePrefixes) (heq : mark ++ digits = mark' ++ digits') :
    base = base' ∧ digits = digits' := by
  have hafter : some (digits, base) = some (digits', base') := by
    rw [← afterBase?_prefixed h, ← afterBase?_prefixed h', heq]
  obtain ⟨hdigits, hbase⟩ := Prod.mk.inj (Option.some.inj hafter)
  exact ⟨hbase, hdigits⟩

/-- A plus is no digit of a base. -/
theorem valueInBase?_plus (base : Nat) (t : Text) : Text.valueInBase? base ('+' :: t) = none := rfl

/-- Digits in a base are read if their value without a plus before them has 64 bits. -/
theorem ofBase_ne_nan_iff_value :
    ofBase base t ≠ nan ↔
      ∃ n, Text.valueInBase? base ((Text.after? ['+'] t).getD t) = some n ∧ n < twoTo 64 := by
  unfold ofBase
  cases Text.valueInBase? base ((Text.after? ['+'] t).getD t) with
  | none => simp
  | some n =>
    by_cases hn : n < twoTo 64
    · simpa [hn] using ofNat_ne_nan n
    · simp [hn]

/-- Digits in a base are read if their value has 64 bits, with a plus before them or not. -/
theorem ofBase_ne_nan_iff :
    ofBase base t ≠ nan ↔
      (∃ n, Text.valueInBase? base t = some n ∧ n < twoTo 64) ∨
        ∃ digits n, t = '+' :: digits ∧ Text.valueInBase? base digits = some n ∧ n < twoTo 64 := by
  rw [ofBase_ne_nan_iff_value]
  rcases hplus : Text.after? ['+'] t with _ | digits
  · rw [Option.getD_none]
    refine (or_iff_left ?_).symm
    rintro ⟨digits, n, rfl, -⟩
    exact absurd (Text.after?_append ['+'] digits) (by simp [hplus])
  · obtain rfl : t = '+' :: digits := Text.after?_eq_some_iff.1 hplus
    rw [Option.getD_some, valueInBase?_plus]
    simp

/-! ## Numerals and words -/

/-- The number that a word stands for, in small letters or capitals, with a sign or without: there
are two words for infinity and one for what is no number. -/
def ofWord? (t : Text) : Option Number :=
  let (negative, rest) := Text.spanSign t
  let word := rest.map Char.toLower
  if word = ['i', 'n', 'f'] ∨ word = ['i', 'n', 'f', 'i', 'n', 'i', 't', 'y'] then
    some (infinity negative)
  else if word = ['n', 'a', 'n'] then some nan
  else none

/-- Whether a character can stand in a decimal numeral. -/
def isNumeralChar (c : Char) : Bool :=
  c.isDigit || c == '+' || c == '-' || c == '.' || c == 'e' || c == 'E'

/-- The number that a text stands for when words are read besides numerals, but only if all
characters of the text can stand in a numeral. -/
def ofFilteredText (t : Text) : Number :=
  let t := Text.trim t
  if t = [] then zero
  else if t = infinityWord ∨ t = '+' :: infinityWord then infinity false
  else if t = '-' :: infinityWord then infinity true
  else match afterBase? t with
    | some (digits, base) => ofBase base digits
    | none =>
      if t.all isNumeralChar then
        ((ofWord? t).or ((Decimal.ofText? t).map Decimal.toNumber)).getD nan
      else nan

/-- In all words there is the letter `n`, which stands in no numeral. -/
theorem ofWord?_eq_none (h : t.all isNumeralChar = true) : ofWord? t = none := by
  obtain ⟨sign, -, ht⟩ := Decimal.exists_sign_append t
  have hletter : 'n' ∉ (Text.spanSign t).2.map Char.toLower := by
    rw [List.mem_map]
    rintro ⟨c, hc, hn⟩
    have hchar : isNumeralChar c = true :=
      List.all_eq_true.1 h c (ht ▸ List.mem_append_right _ hc)
    simp only [isNumeralChar, Bool.or_eq_true, beq_iff_eq] at hchar
    rcases hchar with ((((hdigit | rfl) | rfl) | rfl) | rfl) | rfl
    · rw [Text.isDigit_iff] at hdigit
      unfold Char.toLower at hn
      split at hn
      · next hupper =>
        simp only [ge_iff_le, UInt32.le_iff_toNat_le, Char.toNat_val, Char.reduceVal,
          UInt32.reduceToNat] at hupper
        omega
      · subst hn
        revert hdigit
        decide
    all_goals exact absurd hn (by decide)
  unfold ofWord?
  dsimp only
  rw [if_neg, if_neg]
  · intro hword
    exact hletter (hword ▸ by decide)
  · rintro (hword | hword)
    · exact hletter (hword ▸ by decide)
    · exact hletter (hword ▸ by decide)

/-- All characters of a decimal numeral can stand in one. -/
theorem all_isNumeralChar (h : Decimal.IsDecimal t) : t.all isNumeralChar = true := by
  have hdigits {s : Text} (hs : ∀ c ∈ s, c.isDigit = true) : s.all isNumeralChar = true :=
    List.all_eq_true.2 fun c hc => by simp [isNumeralChar, hs c hc]
  have hsign {s : Text} (hs : Decimal.IsSign s) : s.all isNumeralChar = true := by
    rcases hs with rfl | rfl | rfl <;> decide
  obtain ⟨hs, hmantissa, hexponent⟩ := h
  rw [List.all_append, List.all_append, Bool.and_eq_true, Bool.and_eq_true]
  refine ⟨hsign hs, ?_, ?_⟩
  · cases hmantissa with
    | whole h => exact hdigits h.2
    | pointed h hfraction =>
      simp [hdigits h.2, hdigits hfraction, show isNumeralChar '.' = true by decide]
    | fraction h => simp [hdigits h.2, show isNumeralChar '.' = true by decide]
  · cases hexponent with
    | none => rfl
    | @marked mark _ _ hmark hs h =>
      have hmark' : isNumeralChar mark = true := by
        rcases hmark with rfl | rfl <;> decide
      rw [List.all_cons, List.all_append, hmark', hsign hs, hdigits h.2]
      rfl

/-- Among texts of these characters only numerals are read, and all of them are. -/
theorem ofFilteredText_eq (t : Text) : ofFilteredText t = ofText t := by
  unfold ofFilteredText ofText
  dsimp only
  generalize Text.trim t = u
  congr 3
  cases afterBase? u with
  | some rest => rfl
  | none =>
    dsimp only
    split_ifs with hall
    · rw [ofWord?_eq_none hall, Option.none_or]
      cases Decimal.ofText? u <;> rfl
    · cases hdecimal : Decimal.ofText? u with
      | none => rfl
      | some d =>
        exact absurd (all_isNumeralChar (Decimal.isSome_ofText?_iff.1 (by rw [hdecimal]; rfl))) hall

/-! ## Numbers -/

/-- The grammar of the texts that stand for numbers: nothing, an infinity with a sign or without,
digits of a base after one of its prefixes, and decimal numerals. -/
inductive IsNumeral : Text → Prop
  | blank : IsNumeral []
  | infinity {sign : Text} (hsign : Decimal.IsSign sign) : IsNumeral (sign ++ infinityWord)
  | based {mark digits : Text} {base : Nat} (h : (mark, base) ∈ basePrefixes)
    (hdigits : Text.BaseDigits base digits) : IsNumeral (mark ++ digits)
  | decimal {t : Text} (h : Decimal.IsDecimal t) : IsNumeral t

/-- What a text without blanks around it is read as. -/
inductive ReadAs : Text → Number → Prop
  | blank : ReadAs [] zero
  | infinity {sign : Text} (hsign : Decimal.IsSign sign) :
    ReadAs (sign ++ infinityWord) (infinity (sign == ['-']))
  | based {mark digits : Text} {base : Nat} (h : (mark, base) ∈ basePrefixes) :
    ReadAs (mark ++ digits) (ofBase base digits)
  | decimal {t : Text} {d : Decimal} (h : Decimal.ofText? t = some d) : ReadAs t d.toNumber
  | other {t : Text} (h : ¬ IsNumeral t) (hbase : afterBase? t = none) : ReadAs t nan

/-- A text is read as what is left of it when it is trimmed. -/
theorem readAs_ofText (t : Text) : ReadAs (Text.trim t) (ofText t) := by
  unfold ofText
  dsimp only
  generalize Text.trim t = u
  split_ifs with hblank hplus hminus
  · subst hblank
    exact .blank
  · rcases hplus with rfl | rfl
    · exact .infinity (.inl rfl)
    · exact @ReadAs.infinity ['+'] (.inr (.inl rfl))
  · subst hminus
    exact @ReadAs.infinity ['-'] (.inr (.inr rfl))
  · rcases hbase : afterBase? u with _ | ⟨digits, base⟩
    · rcases hdecimal : Decimal.ofText? u with _ | d
      · refine .other ?_ hbase
        intro h
        cases h with
        | blank => exact hblank rfl
        | infinity hsign =>
          rcases hsign with rfl | rfl | rfl
          · exact hplus (.inl rfl)
          · exact hplus (.inr rfl)
          · exact hminus rfl
        | based h _ =>
          rw [afterBase?_prefixed h] at hbase
          cases hbase
        | decimal h =>
          have hsome := Decimal.isSome_ofText?_iff.2 h
          rw [hdecimal] at hsome
          cases hsome
      · exact .decimal hdecimal
    · obtain ⟨mark, hmem, rfl⟩ := exists_prefixed hbase
      exact .based hmem

/-- Digits after the prefix of a base whose value has more than 64 bits. -/
def Oversized (t : Text) : Prop :=
  ∃ mark base digits n, (mark, base) ∈ basePrefixes ∧ t = mark ++ digits ∧
    Text.valueInBase? base digits = some n ∧ twoTo 64 ≤ n

/-- Digits after the prefix of a base with a plus before them, with a value of 64 bits. -/
def PlusInBase (t : Text) : Prop :=
  ∃ mark base digits n, (mark, base) ∈ basePrefixes ∧ t = mark ++ '+' :: digits ∧
    Text.valueInBase? base digits = some n ∧ n < twoTo 64

/-- What has the prefix of a base is of the grammar if digits follow. -/
theorem isNumeral_prefixed_iff (h : (mark, base) ∈ basePrefixes) :
    IsNumeral (mark ++ digits) ↔ ∃ n, Text.valueInBase? base digits = some n := by
  rw [← Option.isSome_iff_exists, Text.isSome_valueInBase?_iff (base_of_mem_basePrefixes h)]
  constructor
  · intro hnumeral
    have hafter := afterBase?_prefixed h digits
    generalize ht : mark ++ digits = t at hnumeral hafter
    cases hnumeral with
    | blank => cases hafter
    | infinity hsign =>
      rw [afterBase?_infinity hsign] at hafter
      cases hafter
    | based h' hdigits =>
      obtain ⟨rfl, rfl⟩ := eq_of_prefixed h h' ht
      exact hdigits
    | decimal hdecimal =>
      rw [afterBase?_decimal hdecimal] at hafter
      cases hafter
  · exact .based h

/-- What is too large is of the grammar. -/
theorem Oversized.isNumeral (h : Oversized t) : IsNumeral t := by
  obtain ⟨mark, base, digits, n, hmem, rfl, hn, -⟩ := h
  exact (isNumeral_prefixed_iff hmem).2 ⟨n, hn⟩

/-- What has a plus after the prefix of a base is not of the grammar. -/
theorem PlusInBase.not_isNumeral (h : PlusInBase t) : ¬ IsNumeral t := by
  obtain ⟨mark, base, digits, n, hmem, rfl, -⟩ := h
  rw [isNumeral_prefixed_iff hmem, valueInBase?_plus]
  rintro ⟨n, hn⟩
  cases hn

/-- After the prefix of a base exactly the digits of the base with a value of 64 bits are read, and
the same with a plus before them. -/
theorem ofBase_ne_nan_iff_of_prefixed (h : (mark, base) ∈ basePrefixes) :
    ofBase base digits ≠ nan ↔
      (IsNumeral (mark ++ digits) ∧ ¬ Oversized (mark ++ digits)) ∨
        PlusInBase (mark ++ digits) := by
  rw [ofBase_ne_nan_iff, isNumeral_prefixed_iff h]
  refine or_congr ?_ ?_
  · constructor
    · rintro ⟨n, hn, hlt⟩
      refine ⟨⟨n, hn⟩, ?_⟩
      rintro ⟨mark', base', digits', n', hmem', heq, hn', hle⟩
      obtain ⟨rfl, rfl⟩ := eq_of_prefixed h hmem' heq
      obtain rfl := Option.some.inj (hn.symm.trans hn')
      exact absurd hlt (Nat.not_lt.2 hle)
    · rintro ⟨⟨n, hn⟩, hsize⟩
      exact ⟨n, hn, Nat.lt_of_not_le fun hle => hsize ⟨mark, base, digits, n, h, rfl, hn, hle⟩⟩
  · constructor
    · rintro ⟨rest, n, rfl, hn, hlt⟩
      exact ⟨mark, base, rest, n, h, rfl, hn, hlt⟩
    · rintro ⟨mark', base', rest, n, hmem', heq, hn, hlt⟩
      obtain ⟨rfl, rfl⟩ := eq_of_prefixed h hmem' heq
      exact ⟨rest, n, rfl, hn, hlt⟩

/-- Without the prefix of a base a text is not too large and has no plus after a prefix. -/
theorem not_oversized_of_afterBase? (h : afterBase? t = none) : ¬ Oversized t ∧ ¬ PlusInBase t := by
  constructor
  · rintro ⟨mark, base, digits, n, hmem, rfl, -⟩
    rw [afterBase?_prefixed hmem] at h
    cases h
  · rintro ⟨mark, base, digits, n, hmem, rfl, -⟩
    rw [afterBase?_prefixed hmem] at h
    cases h

/-- What a text is read as is a number if the text is of the grammar and not too large, or if it has
a plus after the prefix of a base. -/
theorem ReadAs.ne_nan_iff {x : Number} (h : ReadAs t x) :
    x ≠ nan ↔ (IsNumeral t ∧ ¬ Oversized t) ∨ PlusInBase t := by
  cases h with
  | blank =>
    obtain ⟨hsize, -⟩ := not_oversized_of_afterBase? (t := []) rfl
    exact iff_of_true (fun h => by cases h) (.inl ⟨.blank, hsize⟩)
  | infinity hsign =>
    obtain ⟨hsize, -⟩ := not_oversized_of_afterBase? (afterBase?_infinity hsign)
    exact iff_of_true (fun h => by cases h) (.inl ⟨.infinity hsign, hsize⟩)
  | based h => exact ofBase_ne_nan_iff_of_prefixed h
  | @decimal _ d h =>
    have hdecimal : Decimal.IsDecimal t := Decimal.isSome_ofText?_iff.1 (by rw [h]; rfl)
    obtain ⟨hsize, -⟩ := not_oversized_of_afterBase? (afterBase?_decimal hdecimal)
    exact iff_of_true d.toNumber_ne_nan (.inl ⟨.decimal hdecimal, hsize⟩)
  | other h hbase =>
    obtain ⟨-, hplus⟩ := not_oversized_of_afterBase? hbase
    refine iff_of_false (fun hne => hne rfl) ?_
    rintro (⟨hnumeral, -⟩ | hplus')
    · exact h hnumeral
    · exact hplus hplus'

/-- A text stands for a number if what is left of it when it is trimmed is of the grammar and not
too large, or if it has a plus after the prefix of a base. So it keeps to the grammar exactly where
the text is neither too large nor has such a plus. -/
theorem ofText_ne_nan_iff (t : Text) :
    (ofText t ≠ nan ↔ (IsNumeral (Text.trim t) ∧ ¬ Oversized (Text.trim t)) ∨
      PlusInBase (Text.trim t)) ∧
      ((ofText t ≠ nan ↔ IsNumeral (Text.trim t)) ↔
        ¬ Oversized (Text.trim t) ∧ ¬ PlusInBase (Text.trim t)) := by
  have hread := (readAs_ofText t).ne_nan_iff
  refine ⟨hread, ?_⟩
  rw [hread]
  generalize Text.trim t = u
  constructor
  · intro h
    refine ⟨fun hsize => ?_, fun hplus => hplus.not_isNumeral (h.1 (.inr hplus))⟩
    rcases h.2 hsize.isNumeral with ⟨-, hnot⟩ | hplus
    · exact hnot hsize
    · exact hplus.not_isNumeral hsize.isNumeral
  · rintro ⟨hsize, hplus⟩
    rw [or_iff_left hplus, and_iff_left hsize]

/-- `0x+1` is read, though it is not of the grammar, and `0x10000000000000000`, which is of the
grammar, is not read. -/
theorem ofText_in_base_mismatch :
    (ofText ['0', 'x', '+', '1'] ≠ nan ∧ ¬ IsNumeral (Text.trim ['0', 'x', '+', '1'])) ∧
      ofText ('0' :: 'x' :: '1' :: zeros 16) = nan ∧
      IsNumeral (Text.trim ('0' :: 'x' :: '1' :: zeros 16)) := by
  have hplus : PlusInBase (Text.trim ['0', 'x', '+', '1']) :=
    ⟨['0', 'x'], 16, ['1'], 1, by decide, by decide, by decide, by decide⟩
  have hsize : Oversized (Text.trim ('0' :: 'x' :: '1' :: zeros 16)) :=
    ⟨['0', 'x'], 16, '1' :: zeros 16, 16 ^ 16, by decide, by decide, by decide, by decide⟩
  exact ⟨⟨by decide +kernel, hplus.not_isNumeral⟩, by decide +kernel, hsize.isNumeral⟩

end Number

end Stencil
