import Stencil.Condition.Parser
import Stencil.Proofs.Scan.Opener

/-!
# Plain numerals

A `PlainNumeral` is what a number looks like in a condition: digits with a minus before them or not,
and with a point and digits after them or not. These are the texts that `isPlainNumber` accepts
(`isPlainNumber_iff`), and `Decimal.ofText?` reads them as written (`PlainNumeral.ofText?_text`).
-/

namespace Stencil

namespace Text

/-- The digits at the beginning of a text end where something else follows. -/
theorem spanDigits_append_of_forall {s r : Text} (hs : ∀ c ∈ s, c.isDigit = true)
    (hr : ∀ c ∈ r.head?, c.isDigit = false) : spanDigits (s ++ r) = (s, r) := by
  unfold spanDigits
  rw [List.takeWhile_append_of_pos hs, List.dropWhile_append_of_pos hs]
  cases r with
  | nil => simp
  | cons c r =>
    have hc : c.isDigit = false := hr c rfl
    simp [hc]

/-- A digit is no sign. -/
theorem spanSign_cons {c : Char} (hc : c.isDigit = true) (t : Text) :
    spanSign (c :: t) = (false, c :: t) := by
  unfold spanSign
  split
  · next h =>
    cases h
    exact absurd hc (by decide)
  · next h =>
    cases h
    exact absurd hc (by decide)
  · rfl

/-- A text is split at the first place where a character stands. -/
theorem cut?_singleton {c : Char} {a : Text} (h : c ∉ a) (b : Text) :
    cut? [c] (a ++ c :: b) = some (a, b) := by
  rw [cut?_append _ (avoids_of_notMem h)]
  simp [cut?, after?]

end Text

/-- A plain decimal numeral: a sign, at least one digit, and the digits after the point; without
these there is no point. -/
structure PlainNumeral where
  negative : Bool
  whole : Text
  fraction : Text
  whole_ne_nil : whole ≠ []
  isDigit_of_mem_whole : ∀ c ∈ whole, c.isDigit = true
  isDigit_of_mem_fraction : ∀ c ∈ fraction, c.isDigit = true

namespace PlainNumeral

/-- The point and the digits after it. -/
def pointed (fraction : Text) : Text := if fraction = [] then [] else '.' :: fraction

/-- The numeral without its sign. -/
def unsigned (n : PlainNumeral) : Text := n.whole ++ pointed n.fraction

/-- The numeral as it is written. -/
def text (n : PlainNumeral) : Text := if n.negative then '-' :: n.unsigned else n.unsigned

/-- The decimal that is written. -/
def value (n : PlainNumeral) : Decimal :=
  ⟨n.negative, Text.digitsValue (n.whole ++ n.fraction), -n.fraction.length⟩

/-- A numeral begins with a digit after its sign. -/
theorem exists_unsigned_eq_cons (n : PlainNumeral) :
    ∃ c t, n.unsigned = c :: t ∧ c.isDigit = true := by
  obtain ⟨c, t, ht⟩ := List.exists_cons_of_ne_nil n.whole_ne_nil
  refine ⟨c, t ++ pointed n.fraction, by rw [unsigned, ht]; rfl, ?_⟩
  exact n.isDigit_of_mem_whole c (ht ▸ List.mem_cons_self)

/-- A numeral is not empty. -/
theorem text_ne_nil (n : PlainNumeral) : n.text ≠ [] := by
  obtain ⟨c, t, ht, -⟩ := n.exists_unsigned_eq_cons
  unfold text
  split
  · exact List.cons_ne_nil _ _
  · rw [ht]
    exact List.cons_ne_nil _ _

/-- A numeral is made of digits, a sign and a point. -/
theorem notMem_text {c : Char} (hdigit : c.isDigit = false) (hsign : c ≠ '-') (hpoint : c ≠ '.')
    (n : PlainNumeral) : c ∉ n.text := by
  have hwhole : c ∉ n.whole := fun h => by simp [n.isDigit_of_mem_whole c h] at hdigit
  have hfraction : c ∉ pointed n.fraction := by
    unfold pointed
    split
    · exact List.not_mem_nil
    · rw [List.mem_cons, not_or]
      exact ⟨hpoint, fun h => by simp [n.isDigit_of_mem_fraction c h] at hdigit⟩
  have hunsigned : c ∉ n.unsigned := by simp [unsigned, hwhole, hfraction]
  unfold text
  split
  · rw [List.mem_cons, not_or]
    exact ⟨hsign, hunsigned⟩
  · exact hunsigned

/-- The sign of a numeral and the rest. -/
theorem spanSign_text (n : PlainNumeral) : Text.spanSign n.text = (n.negative, n.unsigned) := by
  unfold text
  split
  · next h => rw [h]; rfl
  · next h =>
    obtain ⟨c, t, ht, hc⟩ := n.exists_unsigned_eq_cons
    rw [ht, Text.spanSign_cons hc, Bool.eq_false_iff.2 h]

/-- The digits before the point and the rest. -/
theorem spanDigits_unsigned (n : PlainNumeral) :
    Text.spanDigits n.unsigned = (n.whole, pointed n.fraction) := by
  refine Text.spanDigits_append_of_forall n.isDigit_of_mem_whole fun c hc => ?_
  unfold pointed at hc
  split at hc
  · cases hc
  · cases hc
    decide

/-- The digits after the point; nothing follows them. -/
theorem fractionPart_pointed (n : PlainNumeral) :
    Decimal.fractionPart (pointed n.fraction) = (n.fraction, []) := by
  unfold pointed
  split
  · next h => rw [h]; rfl
  · have hspan := Text.spanDigits_append_of_forall (r := []) n.isDigit_of_mem_fraction (by simp)
    rwa [List.append_nil] at hspan

/-- A plain numeral is read as it is written. -/
theorem ofText?_text (n : PlainNumeral) : Decimal.ofText? n.text = some n.value := by
  simp [Decimal.ofText?, spanSign_text, spanDigits_unsigned, fractionPart_pointed,
    n.whole_ne_nil, Decimal.exponentPart?, value]

end PlainNumeral

namespace Operand

/-- One or more digits. -/
theorem isDigits_iff {t : Text} : isDigits t = true ↔ t ≠ [] ∧ ∀ c ∈ t, c.isDigit = true := by
  simp [isDigits]

/-- A plain numeral is a plain number. -/
theorem isPlainNumber_text (n : PlainNumeral) : isPlainNumber n.text = true := by
  have hunsigned : (Text.after? ['-'] n.text).getD n.text = n.unsigned := by
    unfold PlainNumeral.text
    split
    · rfl
    · obtain ⟨c, t, ht, hc⟩ := n.exists_unsigned_eq_cons
      have hne : '-' ≠ c := by
        rintro rfl
        exact absurd hc (by decide)
      simp [ht, Text.after?, hne]
  have hwhole : isDigits n.whole = true := isDigits_iff.2 ⟨n.whole_ne_nil, n.isDigit_of_mem_whole⟩
  have hpoint : '.' ∉ n.whole := fun h => absurd (n.isDigit_of_mem_whole _ h) (by decide)
  unfold isPlainNumber
  rw [hunsigned, PlainNumeral.unsigned, PlainNumeral.pointed]
  split
  · have hcut : Text.cut? ['.'] n.whole = none := by
      rw [Text.cut?_eq_none_iff]
      exact fun h => hpoint (h.subset List.mem_cons_self)
    simp [hcut, hwhole]
  · next hne =>
    have hfraction : isDigits n.fraction = true :=
      isDigits_iff.2 ⟨hne, n.isDigit_of_mem_fraction⟩
    simp [Text.cut?_singleton hpoint, hwhole, hfraction]

/-- A plain number is a plain numeral. -/
theorem exists_text_of_isPlainNumber {t : Text} (h : isPlainNumber t = true) :
    ∃ n : PlainNumeral, t = n.text := by
  -- Without its sign it is one or two runs of digits.
  obtain ⟨whole, fraction, hu, ⟨hne, hwhole⟩, hfraction⟩ : ∃ whole fraction,
      (Text.after? ['-'] t).getD t = whole ++ PlainNumeral.pointed fraction ∧
      (whole ≠ [] ∧ ∀ c ∈ whole, c.isDigit = true) ∧ ∀ c ∈ fraction, c.isDigit = true := by
    unfold isPlainNumber at h
    rcases hcut : Text.cut? ['.'] ((Text.after? ['-'] t).getD t) with _ | ⟨whole, fraction⟩
    · simp only [hcut] at h
      exact ⟨_, [], (List.append_nil _).symm, isDigits_iff.1 h, by simp⟩
    · simp only [hcut, Bool.and_eq_true, isDigits_iff] at h
      refine ⟨whole, fraction, ?_, h.1, h.2.2⟩
      rw [Text.cut?_eq_append hcut, PlainNumeral.pointed, if_neg h.2.1]
      simp
  rcases hsign : Text.after? ['-'] t with _ | u
  · rw [hsign] at hu
    exact ⟨⟨false, whole, fraction, hne, hwhole, hfraction⟩, hu⟩
  · rw [hsign] at hu
    refine ⟨⟨true, whole, fraction, hne, hwhole, hfraction⟩, ?_⟩
    rw [Text.after?_eq_some_iff.1 hsign]
    exact congrArg _ hu

/-- The number of a plain numeral is the one nearest to its value. -/
theorem number?_text (n : PlainNumeral) : number? n.text = some n.value.toNumber := by
  rw [number?, if_pos (isPlainNumber_text n), n.ofText?_text]
  rfl

/-- Only plain numerals have a number. -/
theorem number?_eq_some_iff {t : Text} {x : Number} :
    number? t = some x ↔ ∃ n : PlainNumeral, t = n.text ∧ n.value.toNumber = x := by
  constructor
  · intro h
    by_cases hplain : isPlainNumber t = true
    · obtain ⟨n, rfl⟩ := exists_text_of_isPlainNumber hplain
      exact ⟨n, rfl, Option.some.inj ((number?_text n).symm.trans h)⟩
    · rw [number?, if_neg hplain] at h
      cases h
  · rintro ⟨n, rfl, rfl⟩
    exact number?_text n

end Operand

end Stencil
