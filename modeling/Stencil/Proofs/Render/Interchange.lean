import Stencil.Proofs.Value.Readers
import Stencil.Render.Budget

/-!
# Renders in interchangeable contexts

A render reads its context through paths only. So all conditions have the same truth in
interchangeable contexts (`Value.Interchangeable.eval_eq`), and all renders come to the same text,
the same events and the same budget (`Value.Interchangeable.renderWithin_eq`). The items of twin
arrays have interchangeable scopes, which carries the induction on the budget into nested renders.
-/

namespace Stencil

/-! ## Conditions -/

section Conditions

variable {l l' r r' : Option Value}

/-- Twins stand in the same order. -/
theorem orderOf?_congr (h : Option.Rel Value.TwinEnds l l')
    (h' : Option.Rel Value.TwinEnds r r') : orderOf? l r = orderOf? l' r' := by
  -- Twins that have an order are numbers that stand at one place, or one text.
  cases h with
  | none => rfl
  | some hl =>
    cases h' with
    | none => cases hl.contents <;> rfl
    | some hr =>
      cases hl.contents with
      | number ha =>
        cases hr.contents with
        | number hb => exact ha.order?_eq hb
        | _ => rfl
      | text t => cases hr.contents <;> rfl
      | _ => rfl

/-- Comparisons of twins are true alike. -/
theorem Comparison.eval_congr (op : Comparison) (h : Option.Rel Value.TwinEnds l l')
    (h' : Option.Rel Value.TwinEnds r r') : op.eval l r = op.eval l' r' := by
  cases op with
  | equal => exact looselyEqual_congr h h'
  | unequal => exact congrArg not (looselyEqual_congr h h')
  | _ => exact congrArg (Option.any _) (orderOf?_congr h h')

end Conditions

namespace Value

variable {c c' : Value} (h : c.Interchangeable c')
include h

/-- The values of operands are twins. -/
theorem Interchangeable.value? (operand : Operand) :
    Option.Rel TwinEnds (operand.value? c) (operand.value? c') := by
  cases operand with
  | text t => exact .some ⟨⟨trivial, rfl⟩, rfl, rfl⟩
  | bool b => exact .some ⟨⟨trivial, rfl⟩, rfl, rfl⟩
  | null => exact .some ⟨⟨trivial, rfl⟩, rfl, rfl⟩
  | number n => exact .some ⟨twins_number n, rfl, rfl⟩
  | path p => exact h p

/-- What a path leads to has the same truth. -/
theorem Interchangeable.isTruthy_eq (path : Text) :
    (c.resolve? path).any isTruthy = (c'.resolve? path).any isTruthy := by
  have hrel := h path
  generalize c.resolve? path = x at hrel ⊢
  generalize c'.resolve? path = y at hrel ⊢
  cases hrel with
  | none => rfl
  | some hends => exact hends.contents.isTruthy_eq

/-- Conditions have the same truth in interchangeable contexts. -/
theorem Interchangeable.eval_eq (condition : Condition) :
    condition.eval c = condition.eval c' := by
  cases condition with
  | empty => rfl
  | holds path => exact h.isTruthy_eq path
  | malformed expr => exact h.isTruthy_eq expr
  | compare left op right => exact op.eval_congr (h left) (h.value? right)

/-! ## Renders -/

/-- Segments are rendered alike. -/
theorem Interchangeable.segment_eq (s : Segment) : s.render c = s.render c' := by
  cases s with
  | literal a => rfl
  | tag inner =>
    have hrel := h (Text.trim inner)
    simp only [Segment.render]
    generalize c.resolve? (Text.trim inner) = x at hrel ⊢
    generalize c'.resolve? (Text.trim inner) = y at hrel ⊢
    cases hrel with
    | none => rfl
    | some hends => simp only [hends.twins.display_eq]

/-- Tags are substituted alike. -/
theorem Interchangeable.substitutePass_eq (budget : Budget) (t : Text) :
    substitutePass budget c t = substitutePass budget c' t := by
  -- Of the context substitution sees only how segments are rendered.
  have hsegments : Segment.render c = Segment.render c' := funext h.segment_eq
  unfold substitutePass substitute renderTags
  rw [hsegments]

/-- Renders that refuse a block are the same. -/
theorem Interchangeable.refusedPass_eq (o : Options) (t : Text) :
    refusedPass o c t = refusedPass o c' t := by
  unfold refusedPass
  rw [h.substitutePass_eq]

end Value

section Renders

variable {o : Options} {render : Budget → Value → Text → Pass}
  (hrender : ∀ {c c' : Value}, c.Interchangeable c' → ∀ budget t,
    render budget c t = render budget c' t)
include hrender

/-- A body is rendered alike for twin items. -/
theorem renderItems_twins (length : Nat) (body : Text) {xs ys : List Value}
    (h : List.Forall₂ Value.Twins xs ys) (index : Nat) (budget : Budget) :
    renderItems render length body index budget xs =
      renderItems render length body index budget ys := by
  induction h generalizing index budget with
  | nil => rfl
  | cons hitem _ ih =>
    unfold renderItems
    dsimp only
    rw [hrender (hitem.itemScope index length), ih]

/-- Blocks are expanded alike. -/
theorem Value.Interchangeable.expandBlock_eq {c c' : Value} (h : c.Interchangeable c')
    (budget : Budget) (b : Block) :
    expandBlock o.detection render budget c b = expandBlock o.detection render budget c' b := by
  unfold expandBlock
  split
  · dsimp only
    rw [h.eval_eq]
    split
    · rw [hrender h]
    · rfl
  · have hrel := h.resolveArray? b.expr
    generalize c.resolveArray? b.expr = x at hrel ⊢
    generalize c'.resolveArray? b.expr = y at hrel ⊢
    cases hrel with
    | none => rfl
    | some hitems =>
      dsimp only
      rw [hitems.length_eq, renderItems_twins hrender _ _ hitems]

end Renders

/-- Texts are rendered alike in interchangeable contexts, whatever is left of the budget. -/
theorem Value.Interchangeable.renderFuel_eq {o : Options} (fuel : Nat) (budget : Budget)
    {c c' : Value} (h : c.Interchangeable c') (t : Text) :
    renderFuel o fuel budget c t = renderFuel o fuel budget c' t := by
  induction fuel generalizing budget c c' t with
  | zero =>
    cases budget with
    | exhausted => exact h.substitutePass_eq _ t
    | left passes =>
      unfold renderFuel
      split
      · exact h.substitutePass_eq _ t
      · exact h.refusedPass_eq o t
  | succ fuel ih =>
    cases budget with
    | exhausted => exact h.substitutePass_eq _ t
    | left passes =>
      unfold renderFuel
      split
      · exact h.substitutePass_eq _ t
      · cases passes with
        | zero => exact h.refusedPass_eq o t
        | succ passes =>
          -- The parts are rendered alike, and so is the text that they leave.
          next b _ =>
          have hexpand := h.expandBlock_eq (o := o) (fun hc budget t => ih budget hc t)
            (.left passes) b
          dsimp only
          rw [hexpand, ih _ h]

/-- Renders within a budget are the same in interchangeable contexts. -/
theorem Value.Interchangeable.renderWithin_eq {o : Options} (budget : Budget) {c c' : Value}
    (h : c.Interchangeable c') (t : Text) :
    renderWithin o budget c t = renderWithin o budget c' t :=
  h.renderFuel_eq _ budget t

/-- Cells, the order of keys and the sign of zero do not show. Equal contexts are equivalent, and in
equivalent contexts every template renders to the same text with the same issues, and every
condition has the same truth.

A key stands in an object once; for entries with a key twice their order would show. -/
theorem render_eq_of_equivalent {c c' : Value} (hc : c.KeysDistinct) :
    (c.equals c' = true → c.Equivalent c') ∧
      (c.Equivalent c' →
        (∀ (o : Options) (template : Text), render o c template = render o c' template) ∧
          ∀ (detection : Detection) (expr : Text),
            (Condition.parse detection expr).eval c =
              (Condition.parse detection expr).eval c') := by
  refine ⟨Value.equivalent_of_equals hc, fun h => ?_⟩
  have hinterchange : c.Interchangeable c' := Value.Twins.interchangeable ⟨hc, h⟩
  constructor
  · intro o template
    unfold render
    rw [hinterchange.renderWithin_eq]
  · intro detection expr
    exact hinterchange.eval_eq _

/-- A context with a zero and a cell. -/
def zeroAndCell : Value := .object [(['a'], .number .zero), (['b'], .cell (.text ['x']))]

/-- The same with the keys in the other order and the zero negated, in a cell. -/
def cellOfBoth : Value :=
  .cell (.object [(['b'], .text ['x']), (['a'], .number (.negate .zero))])

/-- The two contexts are equal, so no template tells them apart. In both the text in the cell is
written, and the negative zero like the other. -/
theorem render_eq_cellOfBoth :
    let tags := [['a'], ['b'], ['c']].flatMap fun path => (Segment.tag path).source
    zeroAndCell.KeysDistinct ∧
      (∀ (o : Options) (template : Text),
        render o zeroAndCell template = render o cellOfBoth template) ∧
      (∀ (detection : Detection) (expr : Text),
        (Condition.parse detection expr).eval zeroAndCell =
          (Condition.parse detection expr).eval cellOfBoth) ∧
      render {} zeroAndCell tags = ⟨['0', 'x'], [.unresolvedPath ['c']]⟩ ∧
      render {} cellOfBoth tags = ⟨['0', 'x'], [.unresolvedPath ['c']]⟩ ∧
      (Condition.parse .strict ['a', '<', '=', '0']).eval cellOfBoth = true := by
  have hkeys : zeroAndCell.KeysDistinct := by
    simp [zeroAndCell, Value.KeysDistinct, Value.EntriesDistinct, Entries.keys]
  have hequivalent : zeroAndCell.Equivalent cellOfBoth :=
    (render_eq_of_equivalent hkeys).1 (by decide)
  obtain ⟨hrender, heval⟩ := (render_eq_of_equivalent hkeys).2 hequivalent
  exact ⟨hkeys, hrender, heval, rfl, rfl, by decide⟩

end Stencil
