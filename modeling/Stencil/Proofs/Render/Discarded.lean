import Stencil.Proofs.Text.Trim
import Stencil.Proofs.Tree.Line
import Stencil.Render.Budget

/-!
# Text that a block discards

The first block of a template may discard text: the part of an `@if` block that its condition does
not choose, and the body of an `#each` block without items. A scan asks of such a text only that the
marks of its own kind are balanced, and an expansion does not look at it. So two templates that
differ in it alone render alike (`render_discarded`). Their first blocks have the same text around
them and expand to the same, and what is left then is one text with one budget
(`renderWithin_congr`).
-/

namespace Stencil

variable {o : Options} {context : Value} {pre post : Text}

/-! ## Two templates whose first blocks expand alike -/

section Congruence

variable {t t' : Text} {b b' : Block} (h : nextBlock? t = some b) (h' : nextBlock? t' = some b')
  (hbefore : b.before = b'.before) (hafter : b.after = b'.after)
include h h' hbefore hafter

/-- Where the first blocks stand in the same text and expand to the same, the renders are one from
then on. -/
theorem renderWithin_congr {n : Nat}
    (hexpand : expandBlock o.detection (renderWithin o) (.left n) context b =
      expandBlock o.detection (renderWithin o) (.left n) context b') :
    renderWithin o (.left (n + 1)) context t = renderWithin o (.left (n + 1)) context t' := by
  rw [renderWithin_left_succ h, renderWithin_left_succ h', hexpand]
  simp only [Block.replaceWith, hbefore, hafter]

/-- Two such templates render alike if one block may be expanded. -/
theorem render_congr (hpasses : 1 ≤ o.maxPasses)
    (hexpand : ∀ budget, expandBlock o.detection (renderWithin o) budget context b =
      expandBlock o.detection (renderWithin o) budget context b') :
    render o context t = render o context t' := by
  obtain ⟨n, hn⟩ := Nat.exists_eq_add_of_le' (UInt64.le_iff_toNat_le.1 hpasses)
  have hn' : o.maxPasses.toNat = n + 1 := hn
  unfold render
  rw [hn', renderWithin_congr h h' hbefore hafter (hexpand _)]

end Congruence

/-! ## What an expansion reads of a block -/

/-- Blanks around an expression do not count. -/
theorem Condition.parse_trim (detection : Detection) (expr : Text) :
    parse detection (Text.trim expr) = parse detection expr := by
  unfold parse
  rw [(Text.trimmed_trim expr).trim_eq]

section Expansion

variable {detection : Detection} {render : Budget → Value → Text → Pass} {budget : Budget}

/-- Of the parts of an `@if` block only the chosen one is rendered. -/
theorem expandBlock_parts (x b e : Text) :
    expandBlock detection render budget context ⟨.cond, pre, x, b, some e, post⟩ =
      let condition := Condition.parse detection x
      let p := render budget context (if condition.eval context then b else e)
      { p with log := condition.issues.map .issue ++ p.log } := by
  simp only [expandBlock, Block.expr, Condition.parse_trim]
  cases (Condition.parse detection x).eval context with
  | true => rfl
  | false => rfl

/-- The body of an `#each` block without items is not rendered. -/
theorem expandBlock_of_no_items {p : Text}
    (h : context.resolveArray? (Text.trim p) = none ∨
      context.resolveArray? (Text.trim p) = some []) (body body' : Text) :
    expandBlock detection render budget context ⟨.each, pre, p, body, none, post⟩ =
      expandBlock detection render budget context ⟨.each, pre, p, body', none, post⟩ := by
  simp only [expandBlock, Block.expr]
  rcases h with h | h
  · rw [h]
  · rw [h]
    rfl

end Expansion

/-! ## Discarded parts -/

/-- The part of an `@if` block before its `else` tag: the openers and closers in it are balanced,
and its `else` tags belong to nested blocks. -/
structure IsThenPart (t : Text) : Prop where
  balanced : Balanced (marks .cond t)
  elses_nested : ElsesNested (marks .cond t)

section Cond

variable {x : Text} (hpasses : 1 ≤ o.maxPasses) (hpre : ¬ Directive.cond.opener <:+: pre)
  (hline : '\n' ∉ x) (hbrace : '}' ∉ x)

include hpre hline hbrace in
/-- An `@if` block with two parts is expanded first. -/
theorem nextBlock?_wrap_else {b e : Text} (hb : IsThenPart b) (he : Balanced (marks .cond e)) :
    nextBlock? (pre ++ Directive.cond.wrap x (b ++ elseTag ++ e) ++ post) =
      some ⟨.cond, pre, x, b, some e, post⟩ :=
  nextBlock?_of_firstIn_cond (firstIn_wrap hpre (isInner_cond hbrace hline)
    (.of_balanced_else hb.balanced hb.elses_nested he) post)

include hpasses hpre hline hbrace

/-- If the condition is false, the part before the `else` tag has no effect. -/
theorem render_then_discarded (hfalse : (Condition.parse o.detection x).eval context = false)
    {b b' e : Text} (hb : IsThenPart b) (hb' : IsThenPart b') (he : Balanced (marks .cond e)) :
    render o context (pre ++ Directive.cond.wrap x (b ++ elseTag ++ e) ++ post) =
      render o context (pre ++ Directive.cond.wrap x (b' ++ elseTag ++ e) ++ post) := by
  refine render_congr (nextBlock?_wrap_else hpre hline hbrace hb he)
    (nextBlock?_wrap_else hpre hline hbrace hb' he) rfl rfl hpasses fun budget => ?_
  simp only [expandBlock_parts, hfalse, Bool.false_eq_true, if_false]

/-- If the condition is true, the part after the `else` tag has no effect. -/
theorem render_else_discarded (htrue : (Condition.parse o.detection x).eval context = true)
    {b e e' : Text} (hb : IsThenPart b) (he : Balanced (marks .cond e))
    (he' : Balanced (marks .cond e')) :
    render o context (pre ++ Directive.cond.wrap x (b ++ elseTag ++ e) ++ post) =
      render o context (pre ++ Directive.cond.wrap x (b ++ elseTag ++ e') ++ post) := by
  refine render_congr (nextBlock?_wrap_else hpre hline hbrace hb he)
    (nextBlock?_wrap_else hpre hline hbrace hb he') rfl rfl hpasses fun budget => ?_
  simp only [expandBlock_parts, htrue, if_true]

end Cond

/-- If the path of the first `#each` block leads to no array or to an empty one and no `@if` block
is expanded before it, its body has no effect. -/
theorem render_body_discarded (hpasses : 1 ≤ o.maxPasses)
    (hpre : ¬ Directive.each.opener <:+: pre) {p : Text} (hp : Directive.each.IsInner p)
    (hitems : context.resolveArray? (Text.trim p) = none ∨
      context.resolveArray? (Text.trim p) = some [])
    {body body' : Text} (hbody : Balanced (marks .each body))
    (hbody' : Balanced (marks .each body'))
    (hcond : findBlock? .cond (pre ++ Directive.each.wrap p body ++ post) = none)
    (hcond' : findBlock? .cond (pre ++ Directive.each.wrap p body' ++ post) = none) :
    render o context (pre ++ Directive.each.wrap p body ++ post) =
      render o context (pre ++ Directive.each.wrap p body' ++ post) := by
  have hfirst {body : Text} (h : Balanced (marks .each body)) :=
    firstIn_wrap hpre hp (.of_balanced h nofun) post
  exact render_congr (nextBlock?_of_firstIn_each hcond (hfirst hbody))
    (nextBlock?_of_firstIn_each hcond' (hfirst hbody')) rfl rfl hpasses
    fun budget => expandBlock_of_no_items hitems body body'

/-- Text that the first block of a template discards has no effect, neither on the output nor on the
issues: not the part of an `@if` block that its condition does not choose, and not the body of an
`#each` block without items. Of such a text only the balance of its own marks counts; tags, faulty
conditions and openers of the other kind in it do not. An `#each` block is expanded first if no
`@if` block is found, as in every template without the opener of one. -/
theorem render_discarded (o : Options) (hpasses : 1 ≤ o.maxPasses) (context : Value)
    (pre post : Text) :
    (¬ Directive.cond.opener <:+: pre → ∀ x, '\n' ∉ x → '}' ∉ x →
      let condition := Condition.parse o.detection x
      let template (b e : Text) := pre ++ Directive.cond.wrap x (b ++ elseTag ++ e) ++ post
      (condition.eval context = false → ∀ b b' e, IsThenPart b → IsThenPart b' →
        Balanced (marks .cond e) →
          render o context (template b e) = render o context (template b' e)) ∧
      (condition.eval context = true → ∀ b e e', IsThenPart b → Balanced (marks .cond e) →
        Balanced (marks .cond e') →
          render o context (template b e) = render o context (template b e'))) ∧
    (¬ Directive.each.opener <:+: pre → ∀ p, p ≠ [] → '}' ∉ p →
      let template (body : Text) := pre ++ Directive.each.wrap p body ++ post
      let items? := context.resolveArray? (Text.trim p)
      items? = none ∨ items? = some [] → ∀ body body', Balanced (marks .each body) →
        Balanced (marks .each body') → findBlock? .cond (template body) = none →
          findBlock? .cond (template body') = none →
            render o context (template body) = render o context (template body')) := by
  constructor
  · intro hpre x hline hbrace
    exact ⟨fun hfalse b b' e => render_then_discarded hpasses hpre hline hbrace hfalse,
      fun htrue b e e' => render_else_discarded hpasses hpre hline hbrace htrue⟩
  · intro hpre p hne hbrace template items? hitems body body'
    exact render_body_discarded hpasses hpre ⟨hne, hbrace⟩ hitems

/-- A part with a block of its own, in which an `#each` is opened and not closed. -/
def openPart : Text :=
  Directive.cond.wrap ['c'] (elseTag ++ Directive.each.opener ++ ['d'] ++ tagEnd)

/-- A part with a condition that is no comparison and a tag whose path leads nowhere. -/
def faultyPart : Text := Directive.cond.wrap ['x', '>'] [] ++ (Segment.tag ['m']).source

/-- Behind a closer of no block, either part may stand where the condition does not choose it, and
the body of a loop over nothing may open an `@if`. What is written is the part that is chosen, whose
own block is refused, and nothing of the loop. -/
theorem render_openPart_eq_faultyPart :
    let o : Options := { maxPasses := 1 }
    let holds : Value := .object [(['a', ' ', '{'], .bool true)]
    let pre := Directive.cond.closer ++ ['{']
    let template (b e : Text) :=
      pre ++ Directive.cond.wrap ['a', ' ', '{'] (b ++ elseTag ++ e) ++ elseTag
    let loop (body : Text) := pre ++ Directive.each.wrap ['l'] body ++ elseTag
    let refused : List Issue := [.passLimitReached 1, .unresolvedPath ['/', 'i', 'f']]
    1 ≤ o.maxPasses ∧
      (∀ d : Directive, ¬ d.opener <:+: pre) ∧ IsThenPart openPart ∧ IsThenPart faultyPart ∧
      (render o (.object []) (template openPart faultyPart) =
          render o (.object []) (template faultyPart faultyPart) ∧
        render o (.object []) (template faultyPart faultyPart) =
          ⟨'{' :: faultyPart ++ elseTag, refused⟩) ∧
      (render o holds (template openPart openPart) =
          render o holds (template openPart faultyPart) ∧
        render o holds (template openPart faultyPart) = ⟨'{' :: openPart ++ elseTag, refused⟩) ∧
      render o (.object []) (loop (Directive.cond.opener ++ ['q'])) =
          render o (.object []) (loop (Segment.tag ['m']).source) ∧
        render o (.object []) (loop (Segment.tag ['m']).source) =
          ⟨[], [.unresolvedArray ['l'], .unresolvedPath ['/', 'i', 'f'],
            .unresolvedPath ['{', 'e', 'l', 's', 'e']]⟩ := by
  intro o holds pre template loop refused
  have hpasses : 1 ≤ o.maxPasses := by decide
  have hpre (d : Directive) : ¬ d.opener <:+: pre := by cases d <;> decide
  have hopen : IsThenPart openPart := ⟨by decide, by decide⟩
  have hfaulty : IsThenPart faultyPart := ⟨by decide, by decide⟩
  have hempty := render_discarded o hpasses (.object []) pre elseTag
  have hholds := render_discarded o hpasses holds pre elseTag
  refine ⟨hpasses, hpre, hopen, hfaulty, ⟨?_, rfl⟩, ⟨?_, rfl⟩, ?_, rfl⟩
  · exact (hempty.1 (hpre .cond) ['a', ' ', '{'] (by decide) (by decide)).1 (by decide) _ _ _
      hopen hfaulty hfaulty.balanced
  · exact (hholds.1 (hpre .cond) ['a', ' ', '{'] (by decide) (by decide)).2 (by decide) _ _ _
      hopen hopen.balanced hfaulty.balanced
  · exact hempty.2 (hpre .each) ['l'] (by decide) (by decide) (.inl (by decide)) _ _
      (by decide) (by decide) (by decide) (by decide)

end Stencil
