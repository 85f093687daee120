import Mathlib.Algebra.Group.Nat.Even
import Stencil.Proofs.Condition.Operator

/-!
# Where a condition is split

A comparison is an expression that is split at an operator. `Stands` says that an operator stands at
a place where this may be done, `Detection.Allows` which places these are: those with something on
one line on either side, or those outside quotes. `SplitsAt` is the first of them with the longest
symbol that may be split at there. Both searches find it (`finds_splitStrict?`,
`findsSides_splitLegacy?`), so a condition is a comparison exactly if there is such a place with two
sides (`parse_eq_compare_iff`).

A longer symbol goes before a shorter one that begins like it, but not everywhere: where operators
count everywhere, a symbol at the end of the expression leaves nothing for the right side, and is
read without its last character (`parse_compare_splitsAt`).
-/

namespace Stencil

namespace Comparison

/-- The operators are looked for in the order of the length of their symbols. -/
theorem pairwise_all : all.Pairwise fun op op' => op'.symbol.length ≤ op.symbol.length := by
  decide

/-- Every operator is looked for. -/
theorem mem_all (op : Comparison) : op ∈ all := by cases op <;> decide

/-- What is looked for operator by operator is not found at any longer symbol. -/
theorem longest_of_findSome?_all {α : Type} {f : Comparison → Option α} {a : α}
    (h : all.findSome? f = some a) :
    ∃ op, f op = some a ∧
      ∀ op' : Comparison, op.symbol.length < op'.symbol.length → f op' = none := by
  obtain ⟨before, op, after, hall, hop, hbefore⟩ := List.findSome?_eq_some_iff.1 h
  refine ⟨op, hop, fun op' hlt => hbefore op' ?_⟩
  have hpair := pairwise_all
  rw [hall, List.pairwise_append, List.pairwise_cons] at hpair
  have hmem := mem_all op'
  rw [hall, List.mem_append, List.mem_cons] at hmem
  rcases hmem with hin | rfl | hin
  · exact hin
  · exact absurd hlt (Nat.lt_irrefl _)
  · exact absurd hlt (Nat.not_lt.2 (hpair.2.1.1 op' hin))

/-- The operator that `atStart?` finds has the longest symbol at the beginning. -/
theorem leads_of_atStart? {t right : Text} {op : Comparison} (h : atStart? t = some (op, right)) :
    op.Leads t := by
  refine ⟨⟨right, (atStart?_eq_append h).symm⟩, fun op' hpre => Nat.le_of_not_lt fun hlt => ?_⟩
  obtain ⟨op'', hop, hlonger⟩ := longest_of_findSome?_all h
  obtain ⟨r, -, hpair⟩ := Option.map_eq_some_iff.1 hop
  obtain rfl : op'' = op := congrArg Prod.fst hpair
  exact Text.after?_eq_none_iff.1 (Option.map_eq_none_iff.1 (hlonger op' hlt)) hpre

/-- No symbol begins a text in which `atStart?` finds none. -/
theorem not_prefix_of_atStart? {t : Text} (h : atStart? t = none) (op : Comparison) :
    ¬ op.symbol <+: t :=
  Text.after?_eq_none_iff.1
    (Option.map_eq_none_iff.1 (List.findSome?_eq_none_iff.1 h op (mem_all op)))

/-- A symbol begins with a character that is neither blank nor a quote. -/
theorem exists_symbol_eq_cons (op : Comparison) :
    ∃ c r, op.symbol = c :: r ∧ Text.isBlank c = false ∧ c ≠ Operand.quote := by
  cases op <;> exact ⟨_, _, rfl, by decide, by decide⟩

end Comparison

namespace Condition

/-! ## Places where an expression may be split -/

/-- An operator stands in an expression, at a place that is allowed. -/
structure Stands (allows : Text → Text → Prop) (t before : Text) (op : Comparison)
    (after : Text) : Prop where
  text : t = before ++ (op.symbol ++ after)
  allowed : allows before after

/-- The place at which an expression is split: the first that is allowed, and the longest symbol
that is allowed there. -/
structure SplitsAt (allows : Text → Text → Prop) (t before : Text) (op : Comparison)
    (after : Text) : Prop extends Stands allows t before op after where
  first : ∀ {before' op' after'}, Stands allows t before' op' after' →
    before.length ≤ before'.length
  longest : ∀ {op' after'}, Stands allows t before op' after' →
    op'.symbol.length ≤ op.symbol.length

variable {allows allows' : Text → Text → Prop} {t before after left right : Text} {op : Comparison}

/-- An expression is split at one place only. -/
theorem SplitsAt.unique {before' after' : Text} {op' : Comparison}
    (h : SplitsAt allows t before op after) (h' : SplitsAt allows t before' op' after') :
    before = before' ∧ op = op' ∧ after = after' := by
  have hlen := Nat.le_antisymm (h.first h'.toStands) (h'.first h.toStands)
  obtain ⟨rfl, hrest⟩ := List.append_inj (h.text.symm.trans h'.text) hlen
  have hsymbol := Nat.le_antisymm (h'.longest h.toStands) (h.longest h'.toStands)
  obtain ⟨hop, rfl⟩ := List.append_inj hrest hsymbol
  exact ⟨rfl, Comparison.symbol_injective hop, rfl⟩

/-- One character more in front, where no place is allowed. -/
theorem splitsAt_cons {c : Char} (h : SplitsAt allows' t before op after)
    (hno : ∀ op' after', ¬ Stands allows (c :: t) [] op' after')
    (hrest : ∀ {before' op' after'}, t = before' ++ (Comparison.symbol op' ++ after') →
      (allows (c :: before') after' ↔ allows' before' after')) :
    SplitsAt allows (c :: t) (c :: before) op after := by
  have htail {before' after' : Text} {op' : Comparison}
      (h' : Stands allows (c :: t) (c :: before') op' after') :
      Stands allows' t before' op' after' := by
    have ht := (List.cons.inj h'.text).2
    exact ⟨ht, (hrest ht).1 h'.allowed⟩
  refine ⟨⟨by rw [h.text]; rfl, (hrest h.text).2 h.allowed⟩, fun {before' _ _} h' => ?_,
    fun h' => h.longest (htail h')⟩
  rcases before' with _ | ⟨x, before'⟩
  · exact absurd h' (hno _ _)
  · obtain rfl : c = x := (List.cons.inj h'.text).1
    exact Nat.succ_le_succ (h.first (htail h'))

/-- One character more in front, where no place is allowed, in an expression without such places. -/
theorem not_stands_cons {c : Char} (h : ∀ before op after, ¬ Stands allows' t before op after)
    (hno : ∀ op' after', ¬ Stands allows (c :: t) [] op' after')
    (hrest : ∀ {before' op' after'}, t = before' ++ (Comparison.symbol op' ++ after') →
      allows (c :: before') after' → allows' before' after') (before : Text) (op : Comparison)
    (after : Text) : ¬ Stands allows (c :: t) before op after := by
  intro h'
  rcases before with _ | ⟨x, before⟩
  · exact hno _ _ h'
  · obtain ⟨rfl, ht⟩ := List.cons.inj h'.text
    exact h before op after ⟨ht, hrest ht h'.allowed⟩

/-! ## Outside quotes -/

/-- The end of a text is outside quotes. -/
def OutsideQuotes (inQuotes : Bool) (before : Text) : Prop :=
  Even (before.count Operand.quote + inQuotes.toNat)

/-- A quote begins a quoted part or ends it. -/
theorem outsideQuotes_quote_cons {inQuotes : Bool} :
    OutsideQuotes inQuotes (Operand.quote :: before) ↔ OutsideQuotes (!inQuotes) before := by
  unfold OutsideQuotes
  rw [List.count_cons_self]
  cases inQuotes with
  | true => simp [Nat.even_add, parity_simps]
  | false => simp

/-- Another character does not. -/
theorem outsideQuotes_cons {inQuotes : Bool} {c : Char} (hc : c ≠ Operand.quote) :
    OutsideQuotes inQuotes (c :: before) ↔ OutsideQuotes inQuotes before := by
  unfold OutsideQuotes
  rw [List.count_cons_of_ne hc]

/-- A search finds the place at which an expression is split, or that there is none. -/
def Finds (allows : Text → Text → Prop) (t : Text) : Option (Text × Comparison × Text) → Prop
  | some (before, op, after) => SplitsAt allows t before op after
  | none => ∀ before op after, ¬ Stands allows t before op after

/-- What is found behind a character at which no place is allowed. -/
theorem Finds.cons {c : Char} {found : Option (Text × Comparison × Text)}
    (h : Finds allows' t found) (hno : ∀ op' after', ¬ Stands allows (c :: t) [] op' after')
    (hrest : ∀ {before' : Text} after', allows (c :: before') after' ↔ allows' before' after') :
    Finds allows (c :: t) (found.map fun (left, split) => (c :: left, split)) := by
  rcases found with _ | ⟨before, op, after⟩
  · exact not_stands_cons h hno fun _ => (hrest _).1
  · exact splitsAt_cons h hno fun _ => hrest _

/-- There is no place in the empty expression. -/
theorem not_stands_nil (before : Text) (op : Comparison) (after : Text) :
    ¬ Stands allows [] before op after := fun h =>
  have hsymbol := (List.append_eq_nil_iff.1 h.text.symm).2
  Comparison.symbol_ne_nil op (List.append_eq_nil_iff.1 hsymbol).1

/-- The search outside quotes finds the place at which an expression is split. -/
theorem finds_splitStrict? (inQuotes : Bool) (t : Text) :
    Finds (fun before _ => OutsideQuotes inQuotes before) t (splitStrict? inQuotes t) := by
  induction t generalizing inQuotes with
  | nil => exact not_stands_nil
  | cons c t ih =>
    simp only [splitStrict?]
    split
    · next hc =>
      subst hc
      refine (ih _).cons (fun op after h => ?_) fun _ => outsideQuotes_quote_cons
      obtain ⟨x, r, hx, -, hquote⟩ := op.exists_symbol_eq_cons
      have ht := h.text
      rw [hx] at ht
      exact hquote (List.cons.inj ht).1.symm
    · next hc =>
      have hrest {before' : Text} (_ : Text) :
          OutsideQuotes inQuotes (c :: before') ↔ OutsideQuotes inQuotes before' :=
        outsideQuotes_cons hc
      split
      · next hin =>
        refine (ih _).cons (fun op after h => ?_) hrest
        have hodd := h.allowed
        simp [OutsideQuotes, hin] at hodd
      · next hout =>
        have houtside : OutsideQuotes inQuotes [] := by simp [OutsideQuotes, hout]
        split
        · next op after hstart =>
          have hlead := Comparison.leads_of_atStart? hstart
          exact ⟨⟨Comparison.atStart?_eq_append hstart, houtside⟩, fun _ => Nat.zero_le _,
            fun h => hlead.longest _ ⟨_, h.text.symm⟩⟩
        · next hnone =>
          exact (ih _).cons (fun op after h =>
            Comparison.not_prefix_of_atStart? hnone op ⟨after, h.text.symm⟩) hrest

/-! ## On one line -/

/-- A text ends with something on one line, and blanks. -/
def IsLeftSide (before : Text) : Prop :=
  ∃ line gap, before = line ++ gap ∧ line ≠ [] ∧ '\n' ∉ line ∧ Text.Blank gap

/-- A text is made of blanks, and something on one line. -/
def IsRightSide (after : Text) : Prop :=
  ∃ gap line, after = gap ++ line ∧ Text.Blank gap ∧ line ≠ [] ∧ '\n' ∉ line

/-- There is something in a left side. -/
theorem not_isLeftSide_nil : ¬ IsLeftSide [] := by
  rintro ⟨line, gap, htext, hne, -⟩
  exact hne (List.append_eq_nil_iff.1 htext.symm).1

/-- A left side does not begin with a line feed. -/
theorem not_isLeftSide_newline_cons : ¬ IsLeftSide ('\n' :: before) := by
  rintro ⟨line, gap, htext, hne, hline, -⟩
  obtain ⟨c, line, rfl⟩ := List.exists_cons_of_ne_nil hne
  obtain rfl : '\n' = c := (List.cons.inj htext).1
  exact hline List.mem_cons_self

/-- A character on the line before blanks or a left side makes a left side. -/
theorem isLeftSide_cons_iff {c : Char} (hc : c ≠ '\n') :
    IsLeftSide (c :: before) ↔ Text.Blank before ∨ IsLeftSide before := by
  constructor
  · rintro ⟨line, gap, htext, hne, hline, hgap⟩
    obtain ⟨d, line, rfl⟩ := List.exists_cons_of_ne_nil hne
    obtain rfl : before = line ++ gap := (List.cons.inj htext).2
    rcases line with _ | ⟨x, line⟩
    · exact .inl hgap
    · exact .inr ⟨x :: line, gap, rfl, List.cons_ne_nil _ _,
        fun h => hline (List.mem_cons_of_mem _ h), hgap⟩
  · rintro (hgap | ⟨line, gap, rfl, -, hline, hgap⟩)
    · exact ⟨[c], before, rfl, List.cons_ne_nil _ _, by simpa using Ne.symm hc, hgap⟩
    · refine ⟨c :: line, gap, rfl, List.cons_ne_nil _ _, ?_, hgap⟩
      rw [List.mem_cons, not_or]
      exact ⟨Ne.symm hc, hline⟩

/-- After the blanks of a right side everything stands on one line. -/
theorem isRightSide_iff (h : after ≠ [] → ¬ Text.Blank after) :
    IsRightSide after ↔ after ≠ [] ∧ '\n' ∉ Text.trimStart after := by
  constructor
  · rintro ⟨gap, line, rfl, hgap, hne, hline⟩
    refine ⟨by simp [hne], fun hmem => hline ?_⟩
    rw [Text.trimStart_append_of_blank hgap] at hmem
    exact Text.mem_of_mem_trimStart hmem
  · rintro ⟨hne, hline⟩
    obtain ⟨gap, hgap, htext⟩ := Text.exists_append_trimStart after
    exact ⟨gap, Text.trimStart after, htext, hgap, mt Text.trimStart_eq_nil_iff.1 (h hne), hline⟩

/-- No symbol begins in blanks. -/
theorem length_le_of_blank {gap s before' after' : Text} {op' : Comparison} (hgap : Text.Blank gap)
    (h : gap ++ s = before' ++ (op'.symbol ++ after')) : gap.length ≤ before'.length := by
  obtain ⟨c, r, hc, hblank, -⟩ := op'.exists_symbol_eq_cons
  rw [hc] at h
  by_contra hlt
  rcases List.append_eq_append_iff.1 h with ⟨m, rfl, -⟩ | ⟨m, rfl, hm⟩
  · simp at hlt
  · rcases m with _ | ⟨x, m⟩
    · simp at hlt
    · obtain rfl : c = x := (List.cons.inj hm).1
      have htrue := hgap c (by simp)
      rw [hblank] at htrue
      cases htrue

/-- A text does not end in blanks. -/
def Unpadded (t : Text) : Prop := ∀ p s, t = p ++ s → s ≠ [] → ¬ Text.Blank s

/-- What ends a text without blanks at its end has none there. -/
theorem Unpadded.of_append {p s : Text} (h : Unpadded (p ++ s)) : Unpadded s := by
  rintro q r rfl
  exact h (p ++ q) r (by simp)

/-- An operator is ahead with what follows it, if that is a right side. -/
theorem operatorAhead?_spec {t : Text} (hend : Unpadded (Text.trimStart t)) :
    match operatorAhead? t with
    | some (op, right) => ∃ after, right = Text.trimStart after ∧
        SplitsAt (fun _ after => IsRightSide after) (Text.trimStart t) [] op after
    | none => ∀ op after,
        ¬ Stands (fun _ after => IsRightSide after) (Text.trimStart t) [] op after := by
  have hside {op : Comparison} {after : Text} (h : Text.trimStart t = op.symbol ++ after) :
      IsRightSide after ↔ after ≠ [] ∧ '\n' ∉ Text.trimStart after :=
    isRightSide_iff (hend _ _ h)
  unfold operatorAhead?
  dsimp only
  split
  · next op right hahead =>
    obtain ⟨op', hop, hlonger⟩ := Comparison.longest_of_findSome?_all hahead
    obtain ⟨after, hafter, hif⟩ := Option.bind_eq_some_iff.1 hop
    have htext := Text.after?_eq_some_iff.1 hafter
    split at hif
    · cases hif
    · next hboth =>
      cases hif
      rw [not_or] at hboth
      refine ⟨after, rfl, ⟨htext, (hside htext).2 hboth⟩, fun _ => Nat.zero_le _,
        fun {op' after'} h => Nat.le_of_not_lt fun hlt => ?_⟩
      have hnone := hlonger op' hlt
      have htext' : Text.trimStart t = op'.symbol ++ after' := h.text
      rw [htext', Text.after?_append] at hnone
      obtain ⟨hne, hline⟩ := (hside htext').1 h.allowed
      simp [hne, hline] at hnone
  · next hnone =>
    intro op after h
    have htext : Text.trimStart t = op.symbol ++ after := h.text
    have hop := List.findSome?_eq_none_iff.1 hnone op (Comparison.mem_all op)
    rw [htext, Text.after?_append] at hop
    obtain ⟨hne, hline⟩ := (hside htext).1 h.allowed
    simp [hne, hline] at hop

/-- What follows blanks and an operator is ahead. -/
theorem stands_trimStart (hbefore : Text.Blank before) (htext : t = before ++ (op.symbol ++ after))
    (hafter : IsRightSide after) :
    Stands (fun _ after => IsRightSide after) (Text.trimStart t) [] op after := by
  refine ⟨?_, hafter⟩
  have hsymbol := Comparison.trimmed_symbol op
  rw [htext, Text.trimStart_append_of_blank hbefore, Text.trimStart_append_of_not_blank
    (hsymbol.not_blank (Comparison.symbol_ne_nil op)), hsymbol.start]
  rfl

/-- An operator has a left side before it and a right side after it. -/
def HasSides (before after : Text) : Prop := IsLeftSide before ∧ IsRightSide after

/-- No operator has its sides at the beginning of an expression. -/
theorem not_stands_hasSides_nil (op : Comparison) (after : Text) :
    ¬ Stands HasSides t [] op after := fun h => not_isLeftSide_nil h.allowed.1

/-- A search finds the place at which an expression is split, up to blanks, or that there is
none. -/
def FindsSides (t : Text) : Option (Text × Comparison × Text) → Prop
  | some (left, op, right) => ∃ gap after, Text.Blank gap ∧ right = Text.trimStart after ∧
      SplitsAt HasSides t (left ++ gap) op after
  | none => ∀ before op after, ¬ Stands HasSides t before op after

/-- What is found behind a character that no operator follows after blanks. -/
theorem FindsSides.cons {c : Char} {found : Option (Text × Comparison × Text)}
    (h : FindsSides t found) (hc : c ≠ '\n')
    (hahead : ∀ op after,
      ¬ Stands (fun _ after => IsRightSide after) (Text.trimStart t) [] op after) :
    FindsSides (c :: t) (found.map fun (left, split) => (c :: left, split)) := by
  have hcons {before after : Text} {op : Comparison} (htext : t = before ++ (op.symbol ++ after)) :
      HasSides (c :: before) after ↔ HasSides before after := by
    refine and_congr_left fun hafter => (isLeftSide_cons_iff hc).trans
      (or_iff_right fun hblank => ?_)
    exact hahead op after (stands_trimStart hblank htext hafter)
  rcases found with _ | ⟨left, op, right⟩
  · exact not_stands_cons h not_stands_hasSides_nil fun htext => (hcons htext).1
  · obtain ⟨gap, after, hgap, hright, hsplit⟩ := h
    exact ⟨gap, after, hgap, hright, splitsAt_cons hsplit not_stands_hasSides_nil hcons⟩

/-- What is found at a character that an operator follows after blanks. -/
theorem splitsAt_of_ahead {c : Char} {gap : Text} (hc : c ≠ '\n') (hgap : Text.Blank gap)
    (htrim : t = gap ++ Text.trimStart t)
    (h : SplitsAt (fun _ after => IsRightSide after) (Text.trimStart t) [] op after) :
    SplitsAt HasSides (c :: t) (c :: gap) op after := by
  have htext : t = gap ++ (op.symbol ++ after) := by
    rw [htrim, h.text]
    rfl
  refine ⟨⟨by rw [htext]; rfl, (isLeftSide_cons_iff hc).2 (.inl hgap), h.allowed⟩,
    fun {before op' after'} h' => ?_,
    fun h' => h.longest (stands_trimStart hgap (List.cons.inj h'.text).2 h'.allowed.2)⟩
  rcases before with _ | ⟨x, before⟩
  · exact absurd h' (not_stands_hasSides_nil _ _)
  · -- In the blanks no other operator stands.
    exact Nat.succ_le_succ (length_le_of_blank hgap (htext.symm.trans (List.cons.inj h'.text).2))

/-- The search for an operator with two sides finds the place at which the expression is split. -/
theorem findsSides_splitLegacy? {t : Text} (hend : Unpadded t) :
    FindsSides t (splitLegacy? t) := by
  induction t with
  | nil => exact not_stands_nil
  | cons c t ih =>
    have hrest : Unpadded t := hend.of_append (p := [c])
    obtain ⟨gap, hgap, htrim⟩ := Text.exists_append_trimStart t
    have hahead := operatorAhead?_spec (t := t) (by rw [htrim] at hrest; exact hrest.of_append)
    unfold splitLegacy?
    by_cases hc : c = '\n'
    · subst hc
      rintro (_ | ⟨x, before⟩) op after h
      · exact not_stands_hasSides_nil op after h
      · obtain rfl : '\n' = x := (List.cons.inj h.text).1
        exact not_isLeftSide_newline_cons h.allowed.1
    · rw [if_neg hc]
      rcases hfound : operatorAhead? t with _ | ⟨op, right⟩
      · rw [hfound] at hahead
        exact (ih hrest).cons hc hahead
      · rw [hfound] at hahead
        obtain ⟨after, hright, hsplit⟩ := hahead
        exact ⟨gap, after, hgap, hright, splitsAt_of_ahead hc hgap htrim hsplit⟩

end Condition

/-- The places at which a way of looking for operators allows an expression to be split. -/
def Detection.Allows : Detection → Text → Text → Prop
  | legacy => Condition.HasSides
  | strict => fun before _ => Condition.OutsideQuotes false before

namespace Condition

variable {t before after left right : Text} {op : Comparison}

/-! ## Comparisons -/

/-- An expression with a place at which it is split is not empty. -/
theorem Stands.ne_nil {allows : Text → Text → Prop} (h : Stands allows t before op after) :
    t ≠ [] := by
  rintro rfl
  exact not_stands_nil _ _ _ h

/-- An expression in which operators do not count between quotes is a comparison exactly if it is
split at a place with something on either side. -/
theorem parseStrict_eq_compare_iff {right : Operand} :
    parseStrict t = .compare left op right ↔
      ∃ before after, SplitsAt Detection.strict.Allows t before op after ∧
        Text.trim before ≠ [] ∧ Text.trim after ≠ [] ∧
        left = Text.trim before ∧ right = Operand.parse (Text.trim after) := by
  have hfinds : Finds Detection.strict.Allows t (splitStrict? false t) := finds_splitStrict? false t
  unfold parseStrict
  rcases hsplit : splitStrict? false t with _ | ⟨before, op', after⟩
  · rw [hsplit] at hfinds
    refine iff_of_false nofun ?_
    rintro ⟨before, after, h, -⟩
    exact hfinds before op after h.toStands
  · rw [hsplit] at hfinds
    dsimp only
    constructor
    · intro h
      split at h
      · cases h
      · next hboth =>
        cases h
        rw [not_or] at hboth
        exact ⟨before, after, hfinds, hboth.1, hboth.2, rfl, rfl⟩
    · rintro ⟨before', after', h, hbefore, hafter, rfl, rfl⟩
      obtain ⟨rfl, rfl, rfl⟩ := h.unique hfinds
      rw [if_neg (not_or.2 ⟨hbefore, hafter⟩)]

/-- An expression in which operators count everywhere is a comparison exactly if it is split at a
place with something on either side. -/
theorem parseLegacy_eq_compare_iff (ht : Text.Trimmed t) {right : Operand} :
    parseLegacy t = .compare left op right ↔
      ∃ before after, SplitsAt Detection.legacy.Allows t before op after ∧
        Text.trim before ≠ [] ∧ Text.trim after ≠ [] ∧
        left = Text.trim before ∧ right = Operand.parse (Text.trim after) := by
  have hend : Unpadded t := by
    rintro p s rfl
    exact ht.not_blank_right
  -- Both sides have characters, and the blanks of the expression are not at its ends.
  have hsides {before after : Text} {op : Comparison}
      (h : SplitsAt Detection.legacy.Allows t before op after) :
      Text.trim before ≠ [] ∧ Text.trim after ≠ [] := by
    obtain ⟨line, gap, hline, hne, -⟩ := h.allowed.1
    obtain ⟨gap', line', hline', -, hne', -⟩ := h.allowed.2
    have htext := h.text
    refine ⟨mt Text.trim_eq_nil_iff.1 ?_, mt Text.trim_eq_nil_iff.1 ?_⟩
    · rw [htext] at ht
      exact ht.not_blank_left (by simp [hline, hne])
    · rw [htext, ← List.append_assoc] at ht
      exact ht.not_blank_right (by simp [hline', hne'])
  have hfinds := findsSides_splitLegacy? hend
  unfold parseLegacy
  rcases hsplit : splitLegacy? t with _ | ⟨left', op', right'⟩
  · rw [hsplit] at hfinds
    refine iff_of_false ?_ ?_
    · split <;> nofun
    · rintro ⟨before, after, h, -⟩
      exact hfinds before op after h.toStands
  · rw [hsplit] at hfinds
    obtain ⟨gap, after, hgap, rfl, h⟩ := hfinds
    have hmentions : mentionsOperator t = true :=
      mentionsOperator_iff.2 ⟨op', left' ++ gap, after, by rw [h.text]; simp⟩
    have hleft : Text.trim (left' ++ gap) = Text.trim left' := by
      simpa using Text.trim_append (t := left') Text.blank_nil hgap
    rw [if_pos hmentions]
    dsimp only
    rw [← hleft, Text.trim_trimStart]
    constructor
    · intro hcompare
      cases hcompare
      exact ⟨left' ++ gap, after, h, (hsides h).1, (hsides h).2, rfl, rfl⟩
    · rintro ⟨before', after', h', -, -, rfl, rfl⟩
      obtain ⟨rfl, rfl, rfl⟩ := h'.unique h
      rfl

/-- A condition is a comparison exactly if its expression is split at a place with something on
either side, and compares these sides. -/
theorem parse_eq_compare_iff {detection : Detection} {expr : Text} {right : Operand} :
    parse detection expr = .compare left op right ↔
      ∃ before after, SplitsAt detection.Allows (Text.trim expr) before op after ∧
        Text.trim before ≠ [] ∧ Text.trim after ≠ [] ∧
        left = Text.trim before ∧ right = Operand.parse (Text.trim after) := by
  unfold parse
  dsimp only
  split
  · next hnil =>
    refine iff_of_false nofun ?_
    rintro ⟨before, after, h, -⟩
    exact h.toStands.ne_nil hnil
  · cases detection with
    | strict => exact parseStrict_eq_compare_iff
    | legacy => exact parseLegacy_eq_compare_iff (Text.trimmed_trim expr)

/-! ## Symbols that are cut -/

/-- A symbol that goes on with an equals sign is that of another operator. -/
theorem exists_symbol_eq_append (h : op = .greater ∨ op = .less) :
    ∃ op' : Comparison, op'.symbol = op.symbol ++ ['='] := by
  rcases h with rfl | rfl
  · exact ⟨.atLeast, rfl⟩
  · exact ⟨.atMost, rfl⟩

/-- An equals sign after the symbol at which an expression is split ends the expression, and it is
an expression in which operators count everywhere. -/
theorem SplitsAt.eq_of_equals {detection : Detection}
    (h : SplitsAt detection.Allows t before op after) (hop : op = .greater ∨ op = .less)
    (heq : ['='] <+: after) : detection = .legacy ∧ after = ['='] := by
  obtain ⟨rest, rfl⟩ := heq
  obtain ⟨op', hop'⟩ := exists_symbol_eq_append hop
  have htext : t = before ++ (op'.symbol ++ rest) := by
    rw [h.text, hop', List.append_assoc]
  -- With something behind it the longer symbol would have been split at.
  have hno : ¬ detection.Allows before rest := fun hallowed => by
    have hle := h.longest ⟨htext, hallowed⟩
    rw [hop', List.length_append] at hle
    exact absurd hle (by simp)
  cases detection with
  | strict => exact absurd h.allowed hno
  | legacy =>
    obtain ⟨hbefore, gap, line, hline, hgap, hne, hbreak⟩ := h.allowed
    rcases gap with _ | ⟨x, gap⟩
    · obtain rfl : '=' :: rest = line := hline
      rcases rest with _ | ⟨y, rest⟩
      · exact ⟨rfl, rfl⟩
      · refine absurd ⟨hbefore, [], y :: rest, rfl, Text.blank_nil, List.cons_ne_nil _ _, ?_⟩ hno
        exact fun hmem => hbreak (List.mem_cons_of_mem _ hmem)
    · obtain rfl : '=' = x := (List.cons.inj hline).1
      exact absurd (hgap '=' List.mem_cons_self) (by decide)

/-- A comparison is split at the first place that is allowed. The symbol there is read whole but in
one case: where operators count everywhere, an equals sign that ends the expression is taken for the
right side. -/
theorem parse_compare_splitsAt (detection : Detection) {expr left : Text} {op : Comparison}
    {right : Operand} (h : parse detection expr = .compare left op right) :
    ∃ before after, SplitsAt detection.Allows (Text.trim expr) before op after ∧
      left = Text.trim before ∧ right = Operand.parse (Text.trim after) ∧
      (op = .greater ∨ op = .less →
        (['='] <+: after ↔ detection = .legacy ∧ after = ['='])) := by
  obtain ⟨before, after, hsplit, -, -, hleft, hright⟩ := parse_eq_compare_iff.1 h
  refine ⟨before, after, hsplit, hleft, hright, fun hop => ⟨hsplit.eq_of_equals hop, ?_⟩⟩
  rintro ⟨-, rfl⟩
  exact List.prefix_refl _

/-- In `a>=` there is nothing for the right side of `atLeast`. -/
theorem splitsAt_shortened : SplitsAt HasSides ['a', '>', '='] ['a'] .greater ['='] where
  text := rfl
  allowed := ⟨⟨['a'], [], rfl, by decide, by decide, Text.blank_nil⟩,
    ⟨[], ['='], rfl, Text.blank_nil, by decide, by decide⟩⟩
  first {before op after} h := by
    rcases before with _ | ⟨x, before⟩
    · exact absurd h (not_stands_hasSides_nil op after)
    · simp
  longest {op after} h := by
    obtain ⟨gap, line, hafter, -, hne, -⟩ := h.allowed.2
    have hlen := congrArg List.length h.text
    have hpos := List.length_pos_of_ne_nil hne
    rw [hafter] at hlen
    simp only [List.length_append, List.length_cons, List.length_nil] at hlen
    have hone : op.symbol.length ≤ 1 := by omega
    exact hone

/-- The condition `a>=` is a comparison by `greater`, whose symbol an equals sign follows. Where
operators do not count between quotes it is none. -/
theorem parse_legacy_cuts_symbol :
    parse .legacy ['a', '>', '='] = .compare ['a'] .greater (.path ['=']) ∧
      SplitsAt Detection.legacy.Allows (Text.trim ['a', '>', '=']) ['a'] .greater ['='] ∧
      ['='] <+: ['='] ∧
      parse .strict ['a', '>', '='] = .malformed ['a', '>', '='] :=
  ⟨by decide, splitsAt_shortened, List.prefix_refl _, by decide⟩

/-- The symbol of ` a <= ` is cut as well. -/
theorem parse_compare_splitsAt_padded :
    parse .legacy [' ', 'a', ' ', '<', '=', ' '] = .compare ['a'] .less (.path ['=']) ∧
      ∃ before after,
        SplitsAt Detection.legacy.Allows (Text.trim [' ', 'a', ' ', '<', '=', ' ']) before .less
          after ∧
        ['a'] = Text.trim before ∧ .path ['='] = Operand.parse (Text.trim after) ∧
        (Comparison.less = .greater ∨ Comparison.less = .less →
          (['='] <+: after ↔ Detection.legacy = .legacy ∧ after = ['='])) := by
  have hparse : parse .legacy [' ', 'a', ' ', '<', '=', ' '] =
      .compare ['a'] .less (.path ['=']) := by
    decide
  exact ⟨hparse, parse_compare_splitsAt .legacy hparse⟩

end Condition

end Stencil
