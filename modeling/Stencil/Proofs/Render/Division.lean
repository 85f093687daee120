import Mathlib.Data.List.Infix
import Mathlib.Logic.ExistsUnique
import Stencil.Proofs.Render.Tags
import Stencil.Render.Budget

/-!
# Rendering what no block is found in

When no block is found in a template, the text before its first opener is divided into tags and the
literal texts around them, in which no tag begins (`Division.Exact`). There is one such division and
no other (`Division.existsUnique_exact`), however the braces of the text run together. Each tag is
replaced on its own, so what a value brings is not looked at again, and the issues of the tags stand
in their order (`renderTags_source`). The text from the opener on stays as it is.
-/

namespace Stencil

/-! ## What is written for a tag -/

/-- The text for a tag: the tag itself if an `#each` is named in it, else what its path leads to, or
nothing. -/
def tagText (scope : Value) (inner : Text) : Text :=
  if Directive.each.name <:+: inner then (Segment.tag inner).source
  else ((scope.resolve? (Text.trim inner)).map Value.display).getD []

/-- The issue of a tag that is replaced and whose path leads nowhere. -/
def tagIssues (scope : Value) (inner : Text) : List Issue :=
  if Directive.each.name <:+: inner ∨ (scope.resolve? (Text.trim inner)).isSome then []
  else [.unresolvedPath (Text.trim inner)]

/-- A tag is rendered to its text, with its issue. -/
theorem Segment.render_tag_eq (scope : Value) (inner : Text) :
    (Segment.tag inner).render scope = (tagText scope inner, tagIssues scope inner) := by
  simp only [Segment.render, tagText, tagIssues, Text.contains_iff]
  by_cases hname : Directive.each.name <:+: inner
  · simp only [hname, true_or, if_true]
  · simp only [hname, false_or, if_false]
    rcases scope.resolve? (Text.trim inner) with _ | v
    · rfl
    · rfl

/-! ## Divisions -/

/-- A text as tags and the literal texts before, between and after them. -/
inductive Division where
  | last (literal : Text)
  | tag (literal inner : Text) (rest : Division)

namespace Division

variable {scope : Value}

/-- The text that is divided. -/
def source : Division → Text
  | last literal => literal
  | tag literal inner rest => literal ++ ((Segment.tag inner).source ++ rest.source)

/-- The tags are tags, and no tag begins in a literal text. -/
def Exact : Division → Prop
  | last literal => TagFree literal []
  | tag literal inner rest =>
    Directive.each.IsInner inner ∧
      TagFree literal ((Segment.tag inner).source ++ rest.source) ∧ rest.Exact

/-- Whether a division is exact is found by looking at its parts. -/
instance decidableExact : (p : Division) → Decidable p.Exact
  | last literal => decidableTagFree literal []
  | tag literal inner rest =>
    haveI := decidableExact rest
    inferInstanceAs (Decidable ((inner ≠ [] ∧ '}' ∉ inner) ∧
      TagFree literal ((Segment.tag inner).source ++ rest.source) ∧ rest.Exact))

/-- The text with its tags replaced. -/
def written (scope : Value) : Division → Text
  | last literal => literal
  | tag literal inner rest => literal ++ (tagText scope inner ++ rest.written scope)

/-- The issues of the tags, one after another. -/
def issues (scope : Value) : Division → List Issue
  | last _ => []
  | tag _ inner rest => tagIssues scope inner ++ rest.issues scope

/-- The division with one more character before it. -/
def cons (c : Char) : Division → Division
  | last literal => last (c :: literal)
  | tag literal inner rest => tag (c :: literal) inner rest

/-- The character stands before the text. -/
theorem source_cons (c : Char) (p : Division) : (p.cons c).source = c :: p.source := by
  cases p with
  | last literal => rfl
  | tag literal inner rest => rfl

/-- Where no tag begins, a character belongs to the literal text after it. -/
theorem Exact.cons {c : Char} {p : Division} (h : p.Exact) (hc : tagAt? (c :: p.source) = none) :
    (p.cons c).Exact := by
  cases p with
  | last literal =>
    refine tagFree_cons_iff.2 ⟨?_, h⟩
    rw [List.append_nil]
    exact hc
  | tag literal inner rest =>
    obtain ⟨hinner, hliteral, hrest⟩ := h
    exact ⟨hinner, tagFree_cons_iff.2 ⟨hc, hliteral⟩, hrest⟩

/-- Every text has a division. -/
theorem exists_exact (t : Text) : ∃ p : Division, p.Exact ∧ p.source = t := by
  induction t using tags_induction with
  | nil => exact ⟨last [], tagFree_nil [], rfl⟩
  | literal c t htag ih =>
    obtain ⟨p, hp, rfl⟩ := ih
    exact ⟨p.cons c, hp.cons htag, source_cons c p⟩
  | tag t inner rest htag ih =>
    obtain ⟨rfl, hinner⟩ := tagAt?_eq_some_iff_eq_append.1 htag
    obtain ⟨p, hp, rfl⟩ := ih
    exact ⟨tag [] inner p, ⟨hinner, tagFree_nil _, hp⟩, rfl⟩

/-- A text has only one division. -/
theorem Exact.unique {p q : Division} (hp : p.Exact) (hq : q.Exact) (h : p.source = q.source) :
    p = q := by
  -- A tag of one division begins in no literal text of the other.
  have hbegins {l s l' inner s' : Text} (hl : TagFree l s) (hinner : Directive.each.IsInner inner)
      (heq : l' ++ ((Segment.tag inner).source ++ s') = l ++ s) : l.length ≤ l'.length :=
    hl inner hinner l' ⟨s', by rw [← heq, List.append_assoc]⟩
  have hlonger {l l' inner s' : Text} (hl : TagFree l []) (hinner : Directive.each.IsInner inner) :
      l ≠ l' ++ ((Segment.tag inner).source ++ s') := by
    intro heq
    have hle : l.length ≤ l'.length :=
      hbegins hl hinner (heq.symm.trans (List.append_nil l).symm)
    have hlen := congrArg List.length heq
    simp only [List.length_append, Segment.source, tagStart, List.length_cons] at hlen
    omega
  induction p generalizing q with
  | last l =>
    cases q with
    | last l' => exact congrArg last h
    | tag l' inner' q => exact absurd h (hlonger hp hq.1)
  | tag l inner p ih =>
    obtain ⟨hinner, hl, hp'⟩ := hp
    cases q with
    | last l' => exact absurd h.symm (hlonger hq hinner)
    | tag l' inner' q =>
      obtain ⟨hinner', hl', hq'⟩ := hq
      have hlen : l.length = l'.length :=
        Nat.le_antisymm (hbegins hl hinner' h.symm) (hbegins hl' hinner h)
      obtain ⟨rfl, htail⟩ := List.append_inj h hlen
      have htag := tagAt?_source_append hinner p.source
      rw [htail, tagAt?_source_append hinner'] at htag
      obtain ⟨rfl, hsource⟩ := Prod.mk.inj (Option.some.inj htag)
      rw [ih hp' hq' hsource.symm]

/-- A text has exactly one division. -/
theorem existsUnique_exact (t : Text) : ∃! p : Division, p.Exact ∧ p.source = t := by
  obtain ⟨p, hp, rfl⟩ := exists_exact t
  exact ⟨p, ⟨hp, rfl⟩, fun q hq => hq.1.unique hp hq.2⟩

/-- The tags of a divided text are replaced, each by its own text. -/
theorem renderTags_source {p : Division} (h : p.Exact) :
    renderTags scope p.source = (p.written scope, p.issues scope) := by
  induction p with
  | last literal =>
    have hliteral : renderTags scope (literal ++ []) = _ := renderTags_append_of_tagFree h
    rw [List.append_nil] at hliteral
    rw [source, hliteral]
    simp only [written, issues, Prod.mk.injEq, List.append_right_eq_self]
    exact ⟨rfl, rfl⟩
  | tag literal inner rest ih =>
    obtain ⟨hinner, hliteral, hrest⟩ := h
    rw [source, renderTags_append_of_tagFree hliteral,
      renderTags_of_tagAt? (tagAt?_source_append hinner _), ih hrest, Segment.render_tag_eq]
    rfl

end Division

/-! ## The text before the first opener -/

/-- The first opener stands in the text. -/
theorem FirstOpener.isInfix {t before : Text} {d : Directive} (h : FirstOpener t d before) :
    d.opener <:+: t :=
  (List.suffix_append before d.opener).isInfix.trans h.stands.isInfix

/-- The text before an opener, the kind of the opener, and the text from it on. -/
structure OpenerCut where
  head : Text
  opener : Option Directive
  tail : Text

namespace OpenerCut

/-- A cut is at the first opener of a text; without an opener all of the text is before it. -/
inductive IsFirst (t : Text) : OpenerCut → Prop
  | absent (h : ∀ d : Directive, ¬ d.opener <:+: t) : IsFirst t ⟨t, none, []⟩
  | first {d : Directive} {head tail : Text} (ht : t = head ++ tail) (h : FirstOpener t d head) :
    IsFirst t ⟨head, some d, tail⟩

/-- The issue of the opener, with its place in bytes. -/
def issues (cut : OpenerCut) : List Issue :=
  cut.opener.toList.map fun d => .unmatchedBlock d (Text.utf8Length cut.head)

/-- A text has exactly one such cut. -/
theorem existsUnique_isFirst (t : Text) : ∃! cut, IsFirst t cut := by
  rcases hsplit : splitOpener? t with _ | ⟨head, d, tail⟩
  · have hno := splitOpener?_eq_none_iff.1 hsplit
    refine ⟨_, .absent hno, fun cut hcut => ?_⟩
    cases hcut with
    | absent => rfl
    | first ht h => exact absurd (h.isInfix) (hno _)
  · obtain ⟨ht, hfirst⟩ := splitOpener?_eq_some_iff.1 hsplit
    refine ⟨_, .first ht hfirst, fun cut hcut => ?_⟩
    cases hcut with
    | absent hno => exact absurd (hfirst.isInfix) (hno d)
    | first ht' hfirst' =>
      obtain ⟨rfl, rfl⟩ := hfirst.unique hfirst'
      rw [List.append_cancel_left (ht.symm.trans ht')]

/-- The tags before the first opener are replaced, and the opener is an issue. -/
theorem IsFirst.substitute_eq {t : Text} {cut : OpenerCut} (h : IsFirst t cut) (scope : Value) :
    substitute true scope t =
      ((renderTags scope cut.head).1 ++ cut.tail,
        cut.issues ++ (renderTags scope cut.head).2) := by
  unfold substitute
  cases h with
  | absent hno =>
    rw [splitOpener?_eq_none_iff.2 hno]
    simp only [List.append_nil]
    rfl
  | first ht hfirst =>
    rw [splitOpener?_eq_some_iff.2 ⟨ht, hfirst⟩]
    rfl

end OpenerCut

/-! ## The render -/

/-- What a template renders to in which no block is found, whatever the options are. The text before
its first opener is divided into tags and literal texts, in one way only; the tags are replaced, and
the text from the opener on stays. The issues are that of the opener and, after it, those of the
tags in order. So a text without openers and tags renders to itself. -/
theorem render_division (o : Options) (context : Value) {template : Text}
    (h : ∀ d, findBlock? d template = none) :
    (∃! cut, OpenerCut.IsFirst template cut) ∧
      (∀ cut, OpenerCut.IsFirst template cut →
        (∃! p : Division, p.Exact ∧ p.source = cut.head) ∧
          ∀ p : Division, p.Exact → p.source = cut.head →
            render o context template =
              ⟨p.written context ++ cut.tail, cut.issues ++ p.issues context⟩) ∧
      ((∀ d : Directive, ¬ d.opener <:+: template) → TagFree template [] →
        render o context template = ⟨template, []⟩) := by
  have hnext : nextBlock? template = none := Option.or_eq_none_iff.2 ⟨h .cond, h .each⟩
  have hcut {cut : OpenerCut} (hfirst : OpenerCut.IsFirst template cut) {p : Division}
      (hp : p.Exact) (hsource : p.source = cut.head) : render o context template =
        ⟨p.written context ++ cut.tail, cut.issues ++ p.issues context⟩ := by
    have hbudget : (Budget.left o.maxPasses.toNat ≠ .exhausted) = True := by simp
    unfold render
    rw [renderWithin_of_nextBlock?_eq_none hnext]
    simp only [substitutePass, hbudget, decide_true, filterMap_issue?_map]
    rw [hfirst.substitute_eq, ← hsource, Division.renderTags_source hp]
  refine ⟨OpenerCut.existsUnique_isFirst template, fun cut hfirst =>
    ⟨Division.existsUnique_exact cut.head, fun p hp hsource => hcut hfirst hp hsource⟩,
    fun hno hfree => ?_⟩
  have hplain := hcut (.absent hno) (p := .last template) hfree rfl
  simpa [Division.written, Division.issues, OpenerCut.issues] using hplain

/-- Braces that run together, with a tag that begins with one, a tag in which an `#each` is named,
and texts that are no tags. -/
def looseBraces : Division :=
  .tag ['é', '{', '{', '}', '}'] ['{', 'a']
    (.tag ['}'] [' ', 'b', ' ']
      (.tag [] ['x', '#', 'e', 'a', 'c', 'h'] (.last ['{', '{', ' ', '}', 'x', '}', '}'])))

/-- A context in which the path of the first tag leads to a text that is a tag itself. -/
def looseContext : Value := .object [(['{', 'a'], .text (Segment.tag ['b']).source)]

/-- With an opener behind them, a tag is replaced by a tag, one by nothing, and one is kept. -/
theorem render_looseBraces :
    let template := looseBraces.source ++ (Directive.each.opener ++ ['c'])
    (∀ d, findBlock? d template = none) ∧
      render { maxPasses := 0 } looseContext template =
        ⟨['é', '{', '{', '}', '}'] ++ (Segment.tag ['b']).source ++ ['}'] ++
          (Segment.tag ['x', '#', 'e', 'a', 'c', 'h']).source ++
          ['{', '{', ' ', '}', 'x', '}', '}'] ++ Directive.each.opener ++ ['c'],
        [.unmatchedBlock .each 37, .unresolvedPath ['b']]⟩ := by
  intro template
  have hnone : ∀ d, findBlock? d template = none := by
    intro d
    cases d <;> decide
  have hsplit : splitOpener? template =
      some (looseBraces.source, .each, Directive.each.opener ++ ['c']) := by
    decide
  obtain ⟨ht, hopener⟩ := splitOpener?_eq_some_iff.1 hsplit
  obtain ⟨-, hrender, -⟩ := render_division { maxPasses := 0 } looseContext hnone
  have hdivided := (hrender _ (.first ht hopener)).2 looseBraces (by decide) rfl
  refine ⟨hnone, hdivided.trans ?_⟩
  exact congrArg₂ Rendered.mk (by decide) (by decide)

end Stencil
