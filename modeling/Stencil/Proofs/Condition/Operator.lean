import Stencil.Condition.Parser
import Stencil.Proofs.Scan.Opener
import Stencil.Proofs.Text.Trim

/-!
# The operator of a condition

`Comparison.FirstIn` says where the first operator of a text stands, the longest of those that begin
there. `splitStrict?` splits there if no quote comes before (`splitStrict?_eq_some`), and
`splitLegacy?` does so as well, up to blanks, if something comes before and something follows on one
line (`splitLegacy?_eq_some`). Where the first operator ends the text `splitLegacy?` finds none,
unless a shorter operator begins at the same place (`splitLegacy?_eq_none_of_firstIn`). So the two
ways of looking for an operator differ only in texts with quotes, with line feeds, or with an
operator at an end (`parse_legacy_eq_parse_strict`).
-/

namespace Stencil

namespace Comparison

/-! ## Symbols -/

/-- A symbol is not empty. -/
theorem symbol_ne_nil (op : Comparison) : op.symbol ≠ [] := by cases op <;> decide

/-- A symbol has at most two characters. -/
theorem length_symbol_le (op : Comparison) : op.symbol.length ≤ 2 := by cases op <;> decide

/-- Different operators have different symbols. -/
theorem symbol_injective : Function.Injective symbol := by
  intro op op' h
  simpa using congrArg ofSymbol? h

/-- A symbol is trimmed. -/
theorem trimmed_symbol (op : Comparison) : Text.Trimmed op.symbol :=
  Text.trimmed_of_any_eq_false (by cases op <;> decide)

/-- There is no quote in a symbol. -/
theorem quote_notMem_symbol (op : Comparison) : Operand.quote ∉ op.symbol := by
  cases op <;> decide

/-- The only symbols that can be shortened are those of `atLeast` and `atMost`. -/
theorem eq_of_symbol_eq_append {op op' : Comparison} {m r : Text}
    (h : op.symbol = m ++ (op'.symbol ++ r)) (hr : r ≠ []) : op = atLeast ∨ op = atMost := by
  obtain ⟨x, r, rfl⟩ := List.exists_cons_of_ne_nil hr
  rcases m with _ | ⟨y, m⟩
  · cases op <;> cases op' <;> simp [symbol] at h ⊢
  · -- A symbol of three characters is too long.
    have hlen := congrArg List.length h
    have hle := length_symbol_le op
    have hpos := List.length_pos_of_ne_nil (symbol_ne_nil op')
    simp only [List.length_append, List.length_cons] at hlen
    omega

/-! ## The operator at the beginning of a text -/

/-- The longest operator whose symbol begins a text. -/
structure Leads (op : Comparison) (t : Text) : Prop where
  stands : op.symbol <+: t
  longest : ∀ op' : Comparison, op'.symbol <+: t → op'.symbol.length ≤ op.symbol.length

/-- A text that begins with a symbol has a longest one there. -/
theorem exists_leads {op : Comparison} {t : Text} (h : op.symbol <+: t) :
    ∃ op' : Comparison, op'.Leads t := by
  by_cases hlong : ∃ op' : Comparison, op'.symbol <+: t ∧ op.symbol.length < op'.symbol.length
  · obtain ⟨op', hop', hlt⟩ := hlong
    have hpos := List.length_pos_of_ne_nil (symbol_ne_nil op)
    refine ⟨op', hop', fun op'' _ => ?_⟩
    have hle := length_symbol_le op''
    omega
  · simp only [not_exists, not_and, not_lt] at hlong
    exact ⟨op, h, hlong⟩

/-- What is looked for at the beginning of a text, operator by operator, is found at the longest. -/
theorem Leads.findSome?_all {α : Type} {op : Comparison} {t : Text} {f : Comparison → Option α}
    {a : α} (h : op.Leads t) (hop : f op = some a)
    (hnone : ∀ op' : Comparison, ¬ op'.symbol <+: t → f op' = none) : all.findSome? f = some a := by
  have hbefore (op' : Comparison) (hne : op' ≠ op) (hle : op.symbol.length ≤ op'.symbol.length) :
      f op' = none := by
    refine hnone op' fun hpre => hne (symbol_injective ?_)
    have heq := Nat.le_antisymm (h.longest op' hpre) hle
    exact (List.prefix_of_prefix_length_le hpre h.stands heq.le).eq_of_length heq
  -- The operators that come before `op` in `all` have a symbol that is not shorter.
  cases op <;> simp [all, hbefore, hop, symbol]

/-- `atStart?` finds the operator at the beginning. -/
theorem Leads.atStart?_append {op : Comparison} {right : Text} (h : op.Leads (op.symbol ++ right)) :
    atStart? (op.symbol ++ right) = some (op, right) :=
  h.findSome?_all (by simp) fun op' hop' => by simp [Text.after?_eq_none_iff.2 hop']

/-- The operator that `atStart?` finds and what follows it make up the text. -/
theorem atStart?_eq_append {op : Comparison} {t right : Text} (h : atStart? t = some (op, right)) :
    t = op.symbol ++ right := by
  obtain ⟨op', -, hop⟩ := List.exists_of_findSome?_eq_some h
  obtain ⟨r, hr, hpair⟩ := Option.map_eq_some_iff.1 hop
  cases hpair
  exact Text.after?_eq_some_iff.1 hr

/-- `atStart?` finds nothing where no symbol stands. -/
theorem atStart?_eq_none {t : Text} (h : ∀ op : Comparison, ¬ op.symbol <+: t) :
    atStart? t = none :=
  List.findSome?_eq_none_iff.2 fun op _ => by simp [Text.after?_eq_none_iff.2 (h op)]

/-! ## The first operator of a text -/

/-- The first operator of a text with what comes before it and what follows it. -/
structure FirstIn (op : Comparison) (t left right : Text) : Prop where
  text : t = left ++ (op.symbol ++ right)
  first : ∀ op' : Comparison, Text.Avoids op'.symbol left (op.symbol ++ right)
  leads : op.Leads (op.symbol ++ right)

/-- The first operator of a text that begins with it. -/
theorem Leads.firstIn {op : Comparison} {right : Text} (h : op.Leads (op.symbol ++ right)) :
    op.FirstIn (op.symbol ++ right) [] right :=
  ⟨rfl, fun _ => Text.avoids_nil _ _, h⟩

/-- Where no symbol stands at the beginning, one character more changes nothing. -/
theorem FirstIn.cons {op : Comparison} {t left right : Text} {c : Char}
    (h : op.FirstIn t left right) (hc : ∀ op' : Comparison, ¬ op'.symbol <+: c :: t) :
    op.FirstIn (c :: t) (c :: left) right where
  text := by rw [h.text]; rfl
  first op' := Text.avoids_cons_iff.2 ⟨by rw [← h.text]; exact hc op', h.first op'⟩
  leads := h.leads

/-- Without the first character the first operator is the same, unless it stands there. -/
theorem FirstIn.of_cons {op : Comparison} {t left right : Text} {c : Char}
    (h : op.FirstIn (c :: t) (c :: left) right) :
    op.FirstIn t left right ∧ ∀ op' : Comparison, ¬ op'.symbol <+: c :: t := by
  have ht : t = left ++ (op.symbol ++ right) := (List.cons.inj h.text).2
  refine ⟨⟨ht, fun op' => (Text.avoids_cons_iff.1 (h.first op')).2, h.leads⟩, fun op' => ?_⟩
  rw [ht]
  exact (Text.avoids_cons_iff.1 (h.first op')).1

/-- A text in which a symbol stands has a first operator. -/
theorem exists_firstIn {t : Text} (h : ∃ op : Comparison, op.symbol <:+: t) :
    ∃ (op : Comparison) (left right : Text), op.FirstIn t left right := by
  induction t with
  | nil =>
    obtain ⟨op, hop⟩ := h
    exact absurd (List.infix_nil.1 hop) (symbol_ne_nil op)
  | cons c t ih =>
    by_cases hc : ∃ op : Comparison, op.symbol <+: c :: t
    · obtain ⟨op, hop⟩ := hc
      obtain ⟨op', hlead⟩ := exists_leads hop
      obtain ⟨right, hright⟩ := hlead.stands
      rw [← hright] at hlead ⊢
      exact ⟨op', [], right, hlead.firstIn⟩
    · obtain ⟨op, hop⟩ := h
      have hrest : op.symbol <:+: t :=
        (List.infix_cons_iff.1 hop).resolve_left fun hpre => hc ⟨op, hpre⟩
      obtain ⟨op', left, right, hfirst⟩ := ih ⟨op, hrest⟩
      exact ⟨op', c :: left, right, hfirst.cons (not_exists.1 hc)⟩

end Comparison

namespace Condition

open Comparison (FirstIn)

/-- Whether a text has an operator. -/
theorem mentionsOperator_iff {t : Text} :
    mentionsOperator t = true ↔ ∃ op : Comparison, op.symbol <:+: t := by
  have hall (op : Comparison) : op ∈ Comparison.all := by cases op <;> decide
  simp [mentionsOperator, Text.contains_iff, hall]

/-! ## Operators outside quotes -/

/-- The two sides and the operator between them make up the text. -/
theorem splitStrict?_eq_append {op : Comparison} {t left right : Text} {inQuotes : Bool}
    (h : splitStrict? inQuotes t = some (left, op, right)) : t = left ++ (op.symbol ++ right) := by
  induction t generalizing inQuotes left with
  | nil => cases h
  | cons c t ih =>
    have further {inQuotes : Bool} {f : Text × Comparison × Text → Text × Comparison × Text}
        (hf : ∀ split, f split = (c :: split.1, split.2))
        (h : (splitStrict? inQuotes t).map f = some (left, op, right)) :
        c :: t = left ++ (op.symbol ++ right) := by
      obtain ⟨split, h', hpair⟩ := Option.map_eq_some_iff.1 h
      rw [hf, Prod.mk.injEq] at hpair
      obtain ⟨rfl, hsplit⟩ := hpair
      have hrest : t = split.1 ++ (op.symbol ++ right) := ih (by rw [h', ← hsplit])
      rw [hrest]
      rfl
    simp only [splitStrict?] at h
    split at h
    · exact further (fun _ => rfl) h
    · split at h
      · exact further (fun _ => rfl) h
      · split at h
        · next hstart =>
          cases h
          exact Comparison.atStart?_eq_append hstart
        · exact further (fun _ => rfl) h

/-- A text without symbols is not split. -/
theorem splitStrict?_eq_none {t : Text} (h : ∀ op : Comparison, ¬ op.symbol <:+: t)
    (inQuotes : Bool) : splitStrict? inQuotes t = none := by
  induction t generalizing inQuotes with
  | nil => rfl
  | cons c t ih =>
    have hrest (inQuotes : Bool) : splitStrict? inQuotes t = none :=
      ih (fun op hop => h op (List.infix_cons_iff.2 (.inr hop))) inQuotes
    have hstart : Comparison.atStart? (c :: t) = none :=
      Comparison.atStart?_eq_none fun op hop => h op hop.isInfix
    simp [splitStrict?, hrest, hstart]

/-- The first operator is split at if no quote comes before it. -/
theorem splitStrict?_eq_some {op : Comparison} {t left right : Text} (h : op.FirstIn t left right)
    (hquote : Operand.quote ∉ left) : splitStrict? false t = some (left, op, right) := by
  induction left generalizing t with
  | nil =>
    obtain rfl : t = op.symbol ++ right := h.text
    have hstart := h.leads.atStart?_append
    obtain ⟨c, s, hs⟩ := List.exists_cons_of_ne_nil (Comparison.symbol_ne_nil op)
    have hc : c ≠ Operand.quote := by
      rintro rfl
      exact Comparison.quote_notMem_symbol op (hs ▸ List.mem_cons_self)
    rw [hs, List.cons_append] at hstart ⊢
    simp [splitStrict?, hc, hstart]
  | cons c left ih =>
    rw [List.mem_cons, not_or] at hquote
    obtain rfl : t = c :: (left ++ (op.symbol ++ right)) := h.text
    obtain ⟨hrest, hno⟩ := h.of_cons
    simp [splitStrict?, Ne.symm hquote.1, Comparison.atStart?_eq_none hno, ih hrest hquote.2]

/-! ## Operators anywhere -/

/-- No operator is ahead where none stands after the blanks, or only one with no operand on its
line. -/
theorem operatorAhead?_eq_none {t : Text}
    (h : ∀ (op : Comparison) (right : Text), Text.trimStart t = op.symbol ++ right →
      right = [] ∨ '\n' ∈ Text.trimStart right) : operatorAhead? t = none := by
  refine List.findSome?_eq_none_iff.2 fun op _ => ?_
  rcases hafter : Text.after? op.symbol (Text.trimStart t) with _ | right
  · rfl
  · exact if_pos (h op right (Text.after?_eq_some_iff.1 hafter))

/-- The operator after the blanks is ahead if its operand stands on one line. -/
theorem operatorAhead?_eq_some {op : Comparison} {p right : Text} (hp : Text.Blank p)
    (h : op.Leads (op.symbol ++ right)) (hright : right ≠ [])
    (hline : '\n' ∉ Text.trimStart right) :
    operatorAhead? (p ++ (op.symbol ++ right)) = some (op, Text.trimStart right) := by
  have hsymbol := Comparison.trimmed_symbol op
  have htrim : Text.trimStart (p ++ (op.symbol ++ right)) = op.symbol ++ right := by
    rw [Text.trimStart_append_of_blank hp, Text.trimStart_append_of_not_blank
      (hsymbol.not_blank (Comparison.symbol_ne_nil op)), hsymbol.start]
  unfold operatorAhead?
  rw [htrim]
  refine h.findSome?_all ?_ fun op' hop' => ?_
  · simp [hright, hline]
  · simp [Text.after?_eq_none_iff.2 hop']

/-- A text is not split if no operator is ahead at any place. -/
theorem splitLegacy?_eq_none {t : Text} (h : ∀ s, s <:+ t → operatorAhead? s = none) :
    splitLegacy? t = none := by
  induction t with
  | nil => rfl
  | cons c t ih =>
    have hahead : operatorAhead? t = none := h t (List.suffix_cons c t)
    have hrest : splitLegacy? t = none := ih fun s hs => h s (hs.trans (List.suffix_cons c t))
    simp [splitLegacy?, hahead, hrest]

/-- The first operator is split at if something comes before it and something follows it, both on
one line. -/
theorem splitLegacy?_eq_some {op : Comparison} {t left right : Text} (h : op.FirstIn t left right)
    (hleft : ¬ Text.Blank left) (hlineLeft : '\n' ∉ Text.trimEnd left) (hright : right ≠ [])
    (hlineRight : '\n' ∉ Text.trimStart right) :
    splitLegacy? t = some (Text.trimEnd left, op, Text.trimStart right) := by
  induction left generalizing t with
  | nil => exact absurd Text.blank_nil hleft
  | cons c left ih =>
    obtain rfl : t = c :: (left ++ (op.symbol ++ right)) := h.text
    obtain ⟨hrest, -⟩ := h.of_cons
    by_cases hblank : Text.Blank left
    · -- The character is the last before the operator that is not blank.
      have hc : Text.isBlank c = false := by simpa [hblank] using hleft
      have hone : Text.Trimmed [c] := Text.trimmed_of_any_eq_false (by simpa using hc)
      have htrim : Text.trimEnd (c :: left) = [c] := by
        rw [← List.singleton_append, Text.trimEnd_append_of_blank hblank, hone.stop]
      have hbreak : c ≠ '\n' := by
        rintro rfl
        exact absurd hc (by decide)
      rw [splitLegacy?, if_neg hbreak,
        operatorAhead?_eq_some hblank h.leads hright hlineRight, htrim]
    · have htrim : Text.trimEnd (c :: left) = c :: Text.trimEnd left := by
        rw [← List.singleton_append, Text.trimEnd_append_of_not_blank hblank]
        rfl
      rw [htrim, List.mem_cons, not_or] at hlineLeft
      -- After the blanks that begin it, what comes before the operator is not empty.
      have hahead : operatorAhead? (left ++ (op.symbol ++ right)) = none := by
        refine operatorAhead?_eq_none fun op' r hr => ?_
        exfalso
        rw [Text.trimStart_append_of_not_blank hblank] at hr
        obtain ⟨p, -, hsplit⟩ := Text.exists_append_trimStart left
        have havoid := hrest.first op'
        rw [hsplit] at havoid
        have hzero := (Text.avoids_append_iff.1 havoid).2 [] ⟨r, hr.symm⟩
        exact hblank (Text.trimStart_eq_nil_iff.1
          (List.eq_nil_of_length_eq_zero (Nat.le_zero.1 hzero)))
      rw [splitLegacy?, if_neg (Ne.symm hlineLeft.1), hahead, ih hrest hblank hlineLeft.2, htrim]
      rfl

/-- Where the first operator ends the text and cannot be shortened, the text is not split. -/
theorem splitLegacy?_eq_none_of_firstIn {op : Comparison} {t left : Text}
    (h : op.FirstIn t left []) (hop : op ≠ .atLeast ∧ op ≠ .atMost) : splitLegacy? t = none := by
  refine splitLegacy?_eq_none fun s hs => operatorAhead?_eq_none fun op' right hright => ?_
  by_contra hne
  rw [not_or] at hne
  -- An operator `op'` with something behind it would not begin before the first operator, so that
  -- it would be a part of its symbol.
  obtain ⟨a, ha⟩ : op'.symbol ++ right <:+ t := hright ▸ (List.dropWhile_suffix _).trans hs
  have htext : t = left ++ op.symbol := by rw [h.text, List.append_nil]
  obtain ⟨m, hm⟩ : ∃ m, op.symbol = m ++ (op'.symbol ++ right) := by
    rcases List.append_eq_append_iff.1 (ha.trans htext) with ⟨m, hleft, hm⟩ | ⟨m, -, hm⟩
    · have hle := h.first op' a ⟨right, by rw [← h.text, ← ha, List.append_assoc]⟩
      have hlen := congrArg List.length hleft
      rw [List.length_append] at hlen
      obtain rfl : m = [] := List.eq_nil_of_length_eq_zero (by omega)
      exact ⟨[], hm.symm⟩
    · exact ⟨m, hm⟩
  rcases Comparison.eq_of_symbol_eq_append hm hne.1 with rfl | rfl
  · exact hop.1 rfl
  · exact hop.2 rfl

/-! ## Both ways -/

/-- A trimmed expression is split at its first operator in both ways, if no quote comes before it
and something stands on either side of it on one line. -/
theorem parse_of_firstIn (detection : Detection) {expr left right : Text} {op : Comparison}
    (h : op.FirstIn (Text.trim expr) left right) (hquote : Operand.quote ∉ left)
    (hleft : ¬ Text.Blank left) (hlineLeft : '\n' ∉ Text.trimEnd left)
    (hright : ¬ Text.Blank right) (hlineRight : '\n' ∉ Text.trimStart right) :
    parse detection expr = .compare (Text.trim left) op (Operand.parse (Text.trim right)) := by
  have hne : Text.trim expr ≠ [] := by
    rw [h.text]
    simp [Comparison.symbol_ne_nil]
  have hrightNe : right ≠ [] := by
    rintro rfl
    exact hright Text.blank_nil
  cases detection with
  | legacy =>
    have hmentions : mentionsOperator (Text.trim expr) = true :=
      mentionsOperator_iff.2 ⟨op, left, right, by rw [h.text, List.append_assoc]⟩
    have hsplit := splitLegacy?_eq_some h hleft hlineLeft hrightNe hlineRight
    simp [parse, hne, parseLegacy, hmentions, hsplit, Text.trim_trimEnd, Text.trim_trimStart]
  | strict =>
    have hsplit := splitStrict?_eq_some h hquote
    simp [parse, hne, parseStrict, hsplit, Text.trim_eq_nil_iff, hleft, hright]

/-- A trimmed expression without a quote in which the first operator ends the text is no
comparison. -/
theorem parse_of_firstIn_nil (detection : Detection) {expr left : Text} {op : Comparison}
    (h : op.FirstIn (Text.trim expr) left []) (hquote : Operand.quote ∉ left)
    (hop : op ≠ .atLeast ∧ op ≠ .atMost) : parse detection expr = .malformed (Text.trim expr) := by
  have hne : Text.trim expr ≠ [] := by
    rw [h.text]
    simp [Comparison.symbol_ne_nil]
  cases detection with
  | legacy =>
    have hmentions : mentionsOperator (Text.trim expr) = true :=
      mentionsOperator_iff.2 ⟨op, left, [], by rw [h.text, List.append_assoc]⟩
    simp [parse, hne, parseLegacy, hmentions, splitLegacy?_eq_none_of_firstIn h hop]
  | strict => simp [parse, hne, parseStrict, splitStrict?_eq_some h hquote]

/-- An expression without an operator is a path in both ways. -/
theorem parse_of_no_symbol (detection : Detection) {expr : Text} (hne : Text.trim expr ≠ [])
    (h : ∀ op : Comparison, ¬ op.symbol <:+: Text.trim expr) :
    parse detection expr = .holds (Text.trim expr) := by
  cases detection with
  | legacy =>
    have hmentions : mentionsOperator (Text.trim expr) = false := by
      rw [Bool.eq_false_iff, ne_eq, mentionsOperator_iff, not_exists]
      exact h
    simp [parse, hne, parseLegacy, hmentions]
  | strict => simp [parse, hne, parseStrict, splitStrict?_eq_none h]

/-- The two ways of looking for an operator agree on an expression without quotes and line feeds
that does not begin with an operator, and whose first operator is not an `atLeast` or `atMost` at
the end of it. -/
theorem parse_legacy_eq_parse_strict {expr : Text} (hquote : Operand.quote ∉ Text.trim expr)
    (hline : '\n' ∉ Text.trim expr) (hstart : ∀ op : Comparison, ¬ op.symbol <+: Text.trim expr)
    (hstop : ∀ (op : Comparison) (left : Text), op.FirstIn (Text.trim expr) left [] →
      op ≠ .atLeast ∧ op ≠ .atMost) :
    parse .legacy expr = parse .strict expr := by
  have htrim := Text.trimmed_trim expr
  by_cases hne : Text.trim expr = []
  · simp [parse, hne]
  by_cases hsymbol : ∃ op : Comparison, op.symbol <:+: Text.trim expr
  · obtain ⟨op, left, right, h⟩ := Comparison.exists_firstIn hsymbol
    have hsides {c : Char} (hc : c ∉ Text.trim expr) : c ∉ left ∧ c ∉ right := by
      rw [h.text, List.mem_append, List.mem_append, not_or, not_or] at hc
      exact ⟨hc.1, hc.2.2⟩
    obtain ⟨hquoteLeft, -⟩ := hsides hquote
    obtain ⟨hlineLeft, hlineRight⟩ := hsides hline
    by_cases hright : right = []
    · subst hright
      have hop := hstop op left h
      rw [parse_of_firstIn_nil .legacy h hquoteLeft hop,
        parse_of_firstIn_nil .strict h hquoteLeft hop]
    · have hleft : left ≠ [] := by
        rintro rfl
        exact hstart op (h.text ▸ List.prefix_append _ _)
      have hparse (detection : Detection) := parse_of_firstIn detection h hquoteLeft
        (Text.Trimmed.not_blank_left (h.text ▸ htrim) hleft)
        (fun hmem => hlineLeft (Text.mem_of_mem_trimEnd hmem))
        (Text.Trimmed.not_blank_right (s := left ++ op.symbol)
          (by rwa [List.append_assoc, ← h.text]) hright)
        (fun hmem => hlineRight (Text.mem_of_mem_trimStart hmem))
      rw [hparse .legacy, hparse .strict]
  · rw [not_exists] at hsymbol
    rw [parse_of_no_symbol .legacy hne hsymbol, parse_of_no_symbol .strict hne hsymbol]

/-- The first operator of ` a <=> b` is `atMost`, and its operand begins with a symbol. -/
theorem parse_legacy_eq_parse_strict_chained :
    parse .legacy [' ', 'a', ' ', '<', '=', '>', ' ', 'b'] =
        parse .strict [' ', 'a', ' ', '<', '=', '>', ' ', 'b'] ∧
      parse .strict [' ', 'a', ' ', '<', '=', '>', ' ', 'b'] =
        .compare ['a'] .atMost (.path ['>', ' ', 'b']) := by
  refine ⟨parse_legacy_eq_parse_strict (by decide) (by decide) ?_ ?_, by decide⟩
  · intro op
    cases op <;> decide
  · -- The text does not end with a symbol.
    intro op left h
    have hlast : Text.trim [' ', 'a', ' ', '<', '=', '>', ' ', 'b'] =
        ['a', ' ', '<', '=', '>', ' '] ++ ['b'] := by decide
    have hend := congrArg List.getLast? (hlast.symm.trans h.text)
    cases op <;> simp [Comparison.symbol] at hend

end Condition

end Stencil
