import Stencil.Proofs.Condition.Operator
import Stencil.Proofs.Number.Numeral

/-!
# Printed comparisons

`Operand.Written` says how an operand is written: a quoted text, a word, a plain numeral, or a path
that looks like none of these; `Operand.parse` reads it back (`Operand.Written.parse_eq`). A
comparison is written as its left side, its operator and its operand with blanks between them and
around them (`Spacing.write`). Both ways of looking for an operator read it back
(`parse_write`), although the operand may hold symbols and quotes, and the left side may end in a
part of a symbol.
-/

namespace Stencil

/-- A digit is not blank. -/
theorem Text.isBlank_of_isDigit {c : Char} (h : c.isDigit = true) : isBlank c = false := by
  obtain ⟨hlow, hhigh⟩ : 48 ≤ c.toNat ∧ c.toNat ≤ 57 := by
    simpa [Char.isDigit, UInt32.le_iff_toNat_le] using h
  simp [isBlank, blankRanges]
  omega

namespace Operand

/-! ## Operands -/

/-- A text stands for an operand that is not a path. -/
inductive Literal : Text → Operand → Prop where
  /-- A text between quotes; it may hold quotes itself. -/
  | text {s : Text} (hline : '\n' ∉ s) : Literal (quote :: (s ++ [quote])) (.text s)
  | wordTrue : Literal ['t', 'r', 'u', 'e'] (.bool true)
  | wordFalse : Literal ['f', 'a', 'l', 's', 'e'] (.bool false)
  | wordNull : Literal ['n', 'u', 'l', 'l'] .null
  | number (n : PlainNumeral) : Literal n.text (.number n.value.toNumber)

/-- A text stands for an operand. -/
inductive Written : Text → Operand → Prop where
  | literal {t : Text} {o : Operand} (h : Literal t o) : Written t o
  /-- A path is a trimmed text on one line that is no literal. -/
  | path {p : Text} (hne : p ≠ []) (htrim : Text.trim p = p) (hline : '\n' ∉ p)
      (hliteral : ∀ o, ¬ Literal p o) : Written p (.path p)

/-- The quoted texts. -/
theorem quoted?_eq_some_iff {t s : Text} :
    quoted? t = some s ↔ t = quote :: (s ++ [quote]) := by
  cases t with
  | nil => simp [quoted?]
  | cons c t =>
    rcases List.eq_nil_or_concat t with rfl | ⟨m, x, rfl⟩
    · simp [quoted?]
    · simp only [quoted?, List.concat_eq_append, List.getLast?_concat, Option.some.injEq,
        List.dropLast_concat, Option.ite_none_right_eq_some, List.cons.injEq]
      constructor
      · rintro ⟨⟨rfl, rfl⟩, rfl⟩
        exact ⟨rfl, rfl⟩
      · rintro ⟨rfl, h⟩
        obtain ⟨rfl, hx⟩ := List.append_inj' h rfl
        exact ⟨⟨rfl, List.singleton_inj.1 hx⟩, rfl⟩

/-- A literal is read back. -/
theorem Literal.parse_eq {t : Text} {o : Operand} (h : Literal t o) : parse t = o := by
  cases h with
  | text => simp [parse, quoted?_eq_some_iff.2 rfl]
  | wordTrue => rfl
  | wordFalse => rfl
  | wordNull => rfl
  | number n =>
    -- A numeral has neither a quote nor a letter.
    have hquoted : quoted? n.text = none := by
      rw [Option.eq_none_iff_forall_ne_some]
      intro s hs
      have hmem : quote ∈ n.text := by simp [quoted?_eq_some_iff.1 hs]
      exact n.notMem_text (by decide) (by decide) (by decide) hmem
    have hword (c : Char) (w : Text) (hdigit : c.isDigit = false) (hsign : c ≠ '-')
        (hpoint : c ≠ '.') : n.text ≠ c :: w := by
      intro h
      exact n.notMem_text hdigit hsign hpoint (h ▸ List.mem_cons_self)
    simp [parse, hquoted, hword, number?_text]

/-- A text on one line that is no literal is read as a path. -/
theorem literal_or_parse_eq_path {t : Text} (hline : '\n' ∉ t) :
    Literal t (parse t) ∨ parse t = .path t := by
  unfold parse
  split
  · next s hs =>
    obtain rfl := quoted?_eq_some_iff.1 hs
    exact .inl (.text fun h => hline (by simp [h]))
  · split_ifs with htrue hfalse hnull
    · exact .inl (htrue ▸ .wordTrue)
    · exact .inl (hfalse ▸ .wordFalse)
    · exact .inl (hnull ▸ .wordNull)
    · split
      · next x hx =>
        obtain ⟨n, rfl, rfl⟩ := number?_eq_some_iff.1 hx
        exact .inl (.number n)
      · exact .inr rfl

/-- A written operand is read back. -/
theorem Written.parse_eq {t : Text} {o : Operand} (h : Written t o) : parse t = o := by
  cases h with
  | literal h => exact h.parse_eq
  | path _ _ hline hliteral => exact (literal_or_parse_eq_path hline).resolve_left (hliteral _)

/-- A written operand is not empty. -/
theorem Written.ne_nil {t : Text} {o : Operand} (h : Written t o) : t ≠ [] := by
  cases h with
  | path hne => exact hne
  | literal h =>
    cases h with
    | number n => exact n.text_ne_nil
    | _ => exact List.cons_ne_nil _ _

/-- There are no blanks at the ends of a written operand. -/
theorem Written.trimmed {t : Text} {o : Operand} (h : Written t o) : Text.Trimmed t := by
  cases h with
  | path _ htrim => exact Text.trim_eq_self_iff.1 htrim
  | literal h =>
    cases h with
    | @text s _ =>
      have hquote : Text.Trimmed [quote] := Text.trimmed_of_any_eq_false (by decide)
      exact hquote.append (by decide) hquote (by decide) s
    | number n =>
      refine Text.trimmed_of_any_eq_false (List.any_eq_false.2 fun c hc hblank => ?_)
      refine n.notMem_text ?_ ?_ ?_ hc
      · rw [Bool.eq_false_iff]
        intro hdigit
        simp [Text.isBlank_of_isDigit hdigit] at hblank
      · rintro rfl
        exact absurd hblank (by decide)
      · rintro rfl
        exact absurd hblank (by decide)
    | _ => exact Text.trimmed_of_any_eq_false (by decide)

/-- A written operand stands on one line. -/
theorem Written.newline_notMem {t : Text} {o : Operand} (h : Written t o) : '\n' ∉ t := by
  cases h with
  | path _ _ hline => exact hline
  | literal h =>
    cases h with
    | text hline => simpa [quote] using hline
    | number n => exact n.notMem_text (by decide) (by decide) (by decide)
    | _ => decide

end Operand

namespace Condition

/-! ## Comparisons -/

/-- A left side that can be read back: a trimmed text on one line without quotes and symbols. -/
structure PlainLeft (left : Text) : Prop where
  ne_nil : left ≠ []
  trim_eq : Text.trim left = left
  newline_notMem : '\n' ∉ left
  quote_notMem : Operand.quote ∉ left
  symbol_not_infix : ∀ op : Comparison, ¬ op.symbol <:+: left

/-- The blanks around the parts of a comparison. On both sides of the operator there is one at
least. -/
structure Spacing where
  front : Text
  before : Text
  after : Text
  back : Text
  blank_front : Text.Blank front
  blank_before : Text.Blank before
  blank_after : Text.Blank after
  blank_back : Text.Blank back
  before_ne_nil : before ≠ []
  after_ne_nil : after ≠ []

/-- A comparison as it is written, with blanks around its parts. -/
def Spacing.write (s : Spacing) (left : Text) (op : Comparison) (operand : Text) : Text :=
  s.front ++ ((left ++ s.before) ++ (op.symbol ++ (s.after ++ operand))) ++ s.back

/-- A blank is no character of a symbol. -/
theorem notMem_symbol_of_isBlank {c : Char} (hc : Text.isBlank c = true) (op : Comparison) :
    c ∉ op.symbol := by
  have hnone : op.symbol.any Text.isBlank = false := by cases op <;> decide
  exact fun h => List.any_eq_false.1 hnone c h hc

/-- No symbol begins in a left side that a blank follows, nor in the blanks. -/
theorem PlainLeft.avoids {left before : Text} (h : PlainLeft left) (hblank : Text.Blank before)
    (hne : before ≠ []) (op : Comparison) (s : Text) :
    Text.Avoids op.symbol (left ++ before) s := by
  refine Text.avoids_append_iff.2 ⟨?_, ?_⟩
  · obtain ⟨x, before, rfl⟩ := List.exists_cons_of_ne_nil hne
    have hx := notMem_symbol_of_isBlank (Text.blank_cons.1 hblank).1 op
    have hinfix : ¬ op.symbol <:+: left ++ [x] := by
      rw [List.infix_concat_iff, not_or]
      refine ⟨fun hsuffix => hx ?_, h.symbol_not_infix op⟩
      obtain ⟨t, ht, -⟩ :=
        (List.suffix_concat_iff.1 hsuffix).resolve_left (Comparison.symbol_ne_nil op)
      rw [ht]
      exact List.mem_append_right t (List.mem_singleton_self x)
    have havoid := (Text.avoids_iff_not_infix (Comparison.symbol_ne_nil op)).2 hinfix
    have hany := (Text.avoids_append_iff.1 (havoid.congr hx (before ++ s))).1
    simpa using hany
  · obtain ⟨c, w, hw⟩ := List.exists_cons_of_ne_nil (Comparison.symbol_ne_nil op)
    rw [hw]
    refine Text.avoids_of_notMem fun hc => ?_
    exact notMem_symbol_of_isBlank (hblank c hc) op (hw ▸ List.mem_cons_self)

/-- A symbol that a blank follows is the longest that begins there. -/
theorem leads_append_of_blank {after t : Text} (hblank : Text.Blank after) (hne : after ≠ [])
    (op : Comparison) : op.Leads (op.symbol ++ (after ++ t)) := by
  obtain ⟨x, after, rfl⟩ := List.exists_cons_of_ne_nil hne
  refine ⟨List.prefix_append _ _, fun op' hop' => ?_⟩
  have hx := notMem_symbol_of_isBlank (Text.blank_cons.1 hblank).1 op'
  exact (Text.prefix_of_prefix_append_cons hx hop').length_le

/-- A printed comparison is read back in both ways. -/
theorem parse_write (detection : Detection) (s : Spacing) (op : Comparison) {left t : Text}
    {right : Operand} (hleft : PlainLeft left) (hright : Operand.Written t right) :
    parse detection (s.write left op t) = .compare left op right := by
  have htrimmed : Text.Trimmed left := Text.trim_eq_self_iff.1 hleft.trim_eq
  have htrim : Text.trim (s.write left op t) =
      (left ++ s.before) ++ (op.symbol ++ (s.after ++ t)) := by
    have hends := htrimmed.append hleft.ne_nil hright.trimmed hright.ne_nil
      (s.before ++ op.symbol ++ s.after)
    rw [Spacing.write, Text.trim_append s.blank_front s.blank_back]
    simpa using hends.trim_eq
  have hfirst : op.FirstIn (Text.trim (s.write left op t)) (left ++ s.before) (s.after ++ t) :=
    ⟨htrim, fun op' => hleft.avoids s.blank_before s.before_ne_nil op' _,
      leads_append_of_blank s.blank_after s.after_ne_nil op⟩
  have hbefore : Text.trimEnd (left ++ s.before) = left := by
    rw [Text.trimEnd_append_of_blank s.blank_before, htrimmed.stop]
  have hafter : Text.trimStart (s.after ++ t) = t := by
    rw [Text.trimStart_append_of_blank s.blank_after, hright.trimmed.start]
  have hquote : Operand.quote ∉ left ++ s.before := by
    rw [List.mem_append, not_or]
    exact ⟨hleft.quote_notMem, fun h => absurd (s.blank_before _ h) (by decide)⟩
  rw [parse_of_firstIn detection hfirst hquote]
  · rw [← Text.trim_trimEnd, hbefore, ← Text.trim_trimStart (s.after ++ t), hafter,
      hleft.trim_eq, hright.trimmed.trim_eq, hright.parse_eq]
  · rw [← Text.trimEnd_eq_nil_iff, hbefore]
    exact hleft.ne_nil
  · rw [hbefore]
    exact hleft.newline_notMem
  · rw [← Text.trimStart_eq_nil_iff, hafter]
    exact hright.ne_nil
  · rw [hafter]
    exact hright.newline_notMem

/-- The operand of `a! >= '>= b''` is a quoted text with a symbol and a quote in it. -/
theorem parse_write_symbolQuoted :
    parse .strict [' ', 'a', '!', ' ', '>', '=', ' ', ' ', '\'', '>', '=', ' ', 'b', '\'', '\''] =
      .compare ['a', '!'] .atLeast (.text ['>', '=', ' ', 'b', '\'']) := by
  have hleft : PlainLeft ['a', '!'] :=
    ⟨by decide, by decide, by decide, by decide, fun op => by cases op <;> decide⟩
  have hright : Operand.Literal ['\'', '>', '=', ' ', 'b', '\'', '\'']
      (.text ['>', '=', ' ', 'b', '\'']) := .text (s := ['>', '=', ' ', 'b', '\'']) (by decide)
  exact parse_write .strict ⟨[' '], [' '], [' ', ' '], [], by decide, by decide, by decide,
    by decide, by decide, by decide⟩ .atLeast hleft (.literal hright)

end Condition

end Stencil
