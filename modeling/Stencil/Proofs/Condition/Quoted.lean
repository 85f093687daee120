import Stencil.Proofs.Condition.Split

/-!
# Quoted parts of a condition

Where operators do not count between quotes, a quoted part is passed over with all that it holds.
A search in a text up to a quote does not look behind the quote; where it finds nothing, it goes on
behind the text in the state that the quotes of the text leave (`splitStrict?_append_quote`). A
quoted part leaves that state as it was (`splitStrict?_quotedText_append`), so the search finds what
it finds before the part or behind it (`splitStrict?_around`), and what stands between the quotes
does not show in the shape of the condition (`parse_strict_quoted`).
-/

namespace Stencil

namespace Text

/-- A beginning without a character is not looked for behind that character. -/
theorem after?_append_cons {w : Text} {c : Char} (hw : c ∉ w) (t s : Text) :
    after? w (t ++ c :: s) = (after? w t).map (· ++ c :: s) := by
  induction w generalizing t with
  | nil => rfl
  | cons x w ih =>
    rw [List.mem_cons, not_or] at hw
    rcases t with _ | ⟨d, t⟩
    · exact if_neg (Ne.symm hw.1)
    · rw [List.cons_append, after?, after?, ih hw.2]
      split <;> rfl

/-- The blanks around a text with a trimmed part in it are those at its ends. -/
theorem Trimmed.trim_append {m : Text} (h : Trimmed m) (hne : m ≠ []) (a b : Text) :
    trim (a ++ m ++ b) = trimStart a ++ m ++ trimEnd b := by
  have hblank := h.not_blank hne
  have hstart : trimStart (a ++ m ++ b) = trimStart a ++ m ++ b := by
    rw [List.append_assoc]
    by_cases ha : Blank a
    · rw [trimStart_append_of_blank ha, trimStart_append_of_not_blank hblank, h.start,
        trimStart_eq_nil_iff.2 ha, List.nil_append]
    · rw [trimStart_append_of_not_blank ha, List.append_assoc]
  rw [trim, hstart]
  by_cases hb : Blank b
  · rw [trimEnd_append_of_blank hb, trimEnd_append_of_not_blank hblank, h.stop,
      trimEnd_eq_nil_iff.2 hb, List.append_nil]
  · rw [trimEnd_append_of_not_blank hb]

end Text

/-- A text between two quotes. -/
def Operand.quotedText (s : Text) : Text := quote :: (s ++ [quote])

namespace Condition

open Operand (quote quotedText)

/-! ## The search up to a quote and behind it -/

/-- No symbol reaches over a quote. -/
theorem atStart?_append_quote (t s : Text) :
    Comparison.atStart? (t ++ quote :: s) =
      (Comparison.atStart? t).map fun (op, right) => (op, right ++ quote :: s) := by
  unfold Comparison.atStart?
  rw [List.map_findSome?]
  congr 1
  funext op
  rw [Text.after?_append_cons op.quote_notMem_symbol]
  simp [Function.comp_def]

/-- Whether the end of a text is within quotes, by whether its beginning is. -/
def endsInQuotes (inQuotes : Bool) : Text → Bool
  | [] => inQuotes
  | c :: t => endsInQuotes (if c = quote then !inQuotes else inQuotes) t

/-- The end of a text is outside quotes exactly if an even number of them leads there. -/
theorem endsInQuotes_eq_false_iff {inQuotes : Bool} {t : Text} :
    endsInQuotes inQuotes t = false ↔ OutsideQuotes inQuotes t := by
  induction t generalizing inQuotes with
  | nil => cases inQuotes <;> simp [endsInQuotes, OutsideQuotes]
  | cons c t ih =>
    unfold endsInQuotes
    rw [ih]
    split
    · next hc =>
      rw [hc, outsideQuotes_quote_cons]
    · next hc => rw [outsideQuotes_cons hc]

/-- A text without quotes ends as it begins. -/
theorem endsInQuotes_of_notMem {t : Text} (h : quote ∉ t) (inQuotes : Bool) :
    endsInQuotes inQuotes t = inQuotes := by
  induction t with
  | nil => rfl
  | cons c t ih =>
    rw [List.mem_cons, not_or] at h
    rw [endsInQuotes, if_neg (Ne.symm h.1), ih h.2]

/-- What a search finds before a quote does not depend on what stands behind it; if it finds
nothing there, it goes on at the quote. -/
theorem splitStrict?_append_quote (inQuotes : Bool) (t s : Text) :
    splitStrict? inQuotes (t ++ quote :: s) =
      match splitStrict? inQuotes t with
      | some (before, op, after) => some (before, op, after ++ quote :: s)
      | none => (splitStrict? (endsInQuotes inQuotes t) (quote :: s)).map
          fun (left, split) => (t ++ left, split) := by
  induction t generalizing inQuotes with
  | nil => exact Option.map_id_apply.symm
  | cons c t ih =>
    have further (inQuotes : Bool) :
        ((splitStrict? inQuotes (t ++ quote :: s)).map fun (left, split) => (c :: left, split)) =
          match (splitStrict? inQuotes t).map fun (left, split) => (c :: left, split) with
          | some (before, op, after) => some (before, op, after ++ quote :: s)
          | none => (splitStrict? (endsInQuotes inQuotes t) (quote :: s)).map
              fun (left, split) => (c :: t ++ left, split) := by
      rw [ih]
      rcases splitStrict? inQuotes t with _ | ⟨before, op, after⟩
      · rw [Option.map_map]
        rfl
      · rfl
    rw [List.cons_append, splitStrict?, ← List.cons_append, atStart?_append_quote, splitStrict?,
      endsInQuotes]
    by_cases hc : c = quote
    · simp only [if_pos hc]
      exact further _
    · simp only [if_neg hc]
      by_cases hin : inQuotes = true
      · simp only [if_pos hin]
        exact further _
      · simp only [if_neg hin]
        rcases Comparison.atStart? (c :: t) with _ | ⟨op, right⟩
        · exact further _
        · rfl

/-- Between quotes nothing is found. -/
theorem splitStrict?_true_of_notMem {s : Text} (hs : quote ∉ s) : splitStrict? true s = none := by
  induction s with
  | nil => rfl
  | cons c s ih =>
    rw [List.mem_cons, not_or] at hs
    simp [splitStrict?, Ne.symm hs.1, ih hs.2]

/-- A quoted part is passed over with all that it holds. -/
theorem splitStrict?_quotedText_append {s : Text} (hs : quote ∉ s) (b : Text) :
    splitStrict? false (quotedText s ++ b) =
      (splitStrict? false b).map fun (left, split) => (quotedText s ++ left, split) := by
  have hquote (inQuotes : Bool) (t : Text) : splitStrict? inQuotes (quote :: t) =
      (splitStrict? (!inQuotes) t).map fun (left, split) => (quote :: left, split) := by
    rw [splitStrict?, if_pos rfl]
  have htext (t : Text) : quotedText s ++ t = quote :: (s ++ quote :: t) := by simp [quotedText]
  rw [htext, hquote, splitStrict?_append_quote, Bool.not_false, splitStrict?_true_of_notMem hs,
    endsInQuotes_of_notMem hs, hquote]
  simp only [Option.map_map, Bool.not_true]
  congr 1
  funext split
  simp [htext]

/-- Around a quoted part the search looks at what stands before it, and then at what stands
behind it. -/
theorem splitStrict?_around {a s : Text} (ha : OutsideQuotes false a) (hs : quote ∉ s) (b : Text) :
    splitStrict? false (a ++ quotedText s ++ b) =
      match splitStrict? false a with
      | some (before, op, after) => some (before, op, after ++ (quotedText s ++ b))
      | none =>
        (splitStrict? false b).map fun (left, split) => (a ++ quotedText s ++ left, split) := by
  have htext (t : Text) : quotedText s ++ t = quote :: (s ++ quote :: t) := by simp [quotedText]
  rw [List.append_assoc, htext, splitStrict?_append_quote, ← htext,
    endsInQuotes_eq_false_iff.2 ha, splitStrict?_quotedText_append hs, Option.map_map]
  rcases splitStrict? false a with _ | ⟨before, op, after⟩
  · simp only [List.append_assoc]
    rfl
  · rfl

/-! ## The shape of a condition -/

/-- What two expressions have in common that differ in a quoted part between `a` and `b`. They are
both paths or both malformed, or both are split at the same place of `a` or of `b`, at the same
operator. Split in `a` they have the same left side, and split in `b` the same right side. -/
inductive AlikeAround (a b t t' : Text) : Prop
  | holds (h : parse .strict t = .holds (Text.trim t))
      (h' : parse .strict t' = .holds (Text.trim t'))
  | malformed (h : parse .strict t = .malformed (Text.trim t))
      (h' : parse .strict t' = .malformed (Text.trim t'))
  | splitBefore {before after after' : Text} {op : Comparison} {right right' : Operand}
      (hin : before ++ op.symbol <+: Text.trimStart a)
      (hsplit : SplitsAt Detection.strict.Allows (Text.trim t) before op after)
      (hsplit' : SplitsAt Detection.strict.Allows (Text.trim t') before op after')
      (h : parse .strict t = .compare (Text.trim before) op right)
      (h' : parse .strict t' = .compare (Text.trim before) op right')
  | splitBehind {before before' after : Text} {op : Comparison} {left left' : Text}
      (hin : op.symbol ++ after <:+ Text.trimEnd b)
      (hsplit : SplitsAt Detection.strict.Allows (Text.trim t) before op after)
      (hsplit' : SplitsAt Detection.strict.Allows (Text.trim t') before' op after)
      (h : parse .strict t = .compare left op (Operand.parse (Text.trim after)))
      (h' : parse .strict t' = .compare left' op (Operand.parse (Text.trim after)))

/-- An expression without an operator outside quotes is a path. -/
theorem parse_strict_of_none {expr : Text} (hne : Text.trim expr ≠ [])
    (h : splitStrict? false (Text.trim expr) = none) :
    parse .strict expr = .holds (Text.trim expr) := by
  simp only [parse, if_neg hne, parseStrict, h]

/-- An expression with an operator outside quotes is a comparison if something stands on either
side. -/
theorem parse_strict_of_some {expr before after : Text} {op : Comparison}
    (h : splitStrict? false (Text.trim expr) = some (before, op, after)) :
    parse .strict expr =
      if Text.trim before = [] ∨ Text.trim after = [] then .malformed (Text.trim expr)
      else .compare (Text.trim before) op (Operand.parse (Text.trim after)) := by
  have hne : Text.trim expr ≠ [] := fun hnil => by
    rw [hnil] at h
    cases h
  simp only [parse, if_neg hne, parseStrict, h]

/-- The place that the search finds in an expression. -/
theorem splitsAt_of_splitStrict? {t before after : Text} {op : Comparison}
    (h : splitStrict? false t = some (before, op, after)) :
    SplitsAt Detection.strict.Allows t before op after := by
  have hfinds := finds_splitStrict? false t
  rw [h] at hfinds
  exact hfinds

/-- The ends of a quoted text are not blank. -/
theorem trimmed_quotedText (s : Text) : Text.Trimmed (quotedText s) := by
  have hquote : Text.Trimmed [quote] := Text.trimmed_of_any_eq_false (by decide)
  exact hquote.append (by decide) hquote (by decide) s

/-- Blanks in front of a text do not change whether its end is outside quotes. -/
theorem outsideQuotes_trimStart {inQuotes : Bool} {t : Text} (h : OutsideQuotes inQuotes t) :
    OutsideQuotes inQuotes (Text.trimStart t) := by
  obtain ⟨p, hp, htext⟩ := Text.exists_append_trimStart t
  have hcount : p.count quote = 0 :=
    List.count_eq_zero.2 fun hmem => absurd (hp quote hmem) (by decide)
  unfold OutsideQuotes at h ⊢
  rwa [htext, List.count_append, hcount, Nat.zero_add] at h

/-- There is something in what begins or ends with a quoted part. -/
theorem trim_quotedText_ne_nil (s p q : Text) : Text.trim (p ++ quotedText s ++ q) ≠ [] := by
  rw [ne_eq, Text.trim_eq_nil_iff]
  intro hblank
  exact absurd (hblank quote (by simp [quotedText])) (by decide)

/-- Where operators do not count between quotes, the content of a quoted part does not matter to the
shape of the condition. -/
theorem parse_strict_quoted (a b : Text) {s s' : Text} (ha : Even (a.count quote)) (hs : quote ∉ s)
    (hs' : quote ∉ s') :
    AlikeAround a b (a ++ quotedText s ++ b) (a ++ quotedText s' ++ b) := by
  have hout : OutsideQuotes false (Text.trimStart a) := outsideQuotes_trimStart (by simpa)
  have htrim (s : Text) : Text.trim (a ++ quotedText s ++ b) =
      Text.trimStart a ++ quotedText s ++ Text.trimEnd b :=
    (trimmed_quotedText s).trim_append (List.cons_ne_nil _ _) a b
  have hsearch {s : Text} (hs : quote ∉ s) := splitStrict?_around hout hs (Text.trimEnd b)
  simp only [← htrim] at hsearch
  rcases hbefore : splitStrict? false (Text.trimStart a) with _ | ⟨before, op, after⟩
  · rcases hbehind : splitStrict? false (Text.trimEnd b) with _ | ⟨before, op, after⟩
    · rw [hbefore, hbehind] at hsearch
      exact .holds (parse_strict_of_none (trim_quotedText_ne_nil s a b) (hsearch hs))
        (parse_strict_of_none (trim_quotedText_ne_nil s' a b) (hsearch hs'))
    · -- Split behind the quoted part, the left side holds it and the right side does not.
      rw [hbefore, hbehind] at hsearch
      have hparse {s : Text} (hs : quote ∉ s) := parse_strict_of_some (hsearch hs)
      simp only [trim_quotedText_ne_nil, false_or] at hparse
      by_cases hright : Text.trim after = []
      · simp only [if_pos hright] at hparse
        exact .malformed (hparse hs) (hparse hs')
      · simp only [if_neg hright] at hparse
        exact .splitBehind ⟨before, (splitStrict?_eq_append hbehind).symm⟩
          (splitsAt_of_splitStrict? (hsearch hs)) (splitsAt_of_splitStrict? (hsearch hs'))
          (hparse hs) (hparse hs')
  · -- Split before the quoted part, the right side holds it and the left side does not.
    rw [hbefore] at hsearch
    have hparse {s : Text} (hs : quote ∉ s) := parse_strict_of_some (hsearch hs)
    simp only [← List.append_assoc, trim_quotedText_ne_nil, or_false] at hparse
    by_cases hleft : Text.trim before = []
    · simp only [if_pos hleft] at hparse
      exact .malformed (hparse hs) (hparse hs')
    · simp only [if_neg hleft] at hparse
      exact .splitBefore ⟨after, by rw [List.append_assoc, ← splitStrict?_eq_append hbefore]⟩
        (splitsAt_of_splitStrict? (hsearch hs)) (splitsAt_of_splitStrict? (hsearch hs'))
        (hparse hs) (hparse hs')

/-- In `p '' '>=' < 'r` and `p '' 'é' < 'r` the second quoted part does not matter, although a
quote follows that no other one closes: both are split at `<`. -/
theorem parse_strict_quoted_unclosed :
    (Even (['p', ' ', '\'', '\'', ' '].count quote) ∧ quote ∉ ['>', '='] ∧ quote ∉ ['é']) ∧
      parse .strict
          (['p', ' ', '\'', '\'', ' '] ++ quotedText ['>', '='] ++ [' ', '<', ' ', '\'', 'r']) =
        .compare ['p', ' ', '\'', '\'', ' ', '\'', '>', '=', '\''] .less (.path ['\'', 'r']) ∧
      AlikeAround ['p', ' ', '\'', '\'', ' '] [' ', '<', ' ', '\'', 'r']
        (['p', ' ', '\'', '\'', ' '] ++ quotedText ['>', '='] ++ [' ', '<', ' ', '\'', 'r'])
        (['p', ' ', '\'', '\'', ' '] ++ quotedText ['é'] ++ [' ', '<', ' ', '\'', 'r']) := by
  have ha : Even (['p', ' ', '\'', '\'', ' '].count quote) := by decide
  have hs : quote ∉ ['>', '='] := by decide
  have hs' : quote ∉ ['é'] := by decide
  exact ⟨⟨ha, hs, hs'⟩, by decide, parse_strict_quoted _ _ ha hs hs'⟩

end Condition

end Stencil
