import Stencil.Render.Budget

/-!
# The loop of a render

A render is made of passes, each of which goes on with the text and the budget that the one before
it leaves (`Pass.andThen`). Its loop expands one block after another until none is left or one is
refused, and then the tags are substituted. `expandWithin` is the loop
alone: its text is what a render hands to its substitution (`renderWithin_eq_andThen`), and while
passes are left there is no block in it (`nextBlock?_expandWithin`).
-/

namespace Stencil

variable {o : Options}

/-! ## Passes one after another -/

namespace Pass

/-- One pass after another. The second goes on with the text and the budget that the first
leaves. -/
def andThen (p : Pass) (f : Text → Budget → Pass) : Pass :=
  let q := f p.text p.budget
  ⟨q.text, p.log ++ q.log, q.budget⟩

/-- The pass with something else made of its text. -/
def mapText (f : Text → Text) (p : Pass) : Pass := { p with text := f p.text }

/-- Issues are recorded, and nothing is written. -/
def recording (issues : List Issue) (budget : Budget) : Pass := ⟨[], issues.map .issue, budget⟩

/-- Passes may be grouped in any way. -/
theorem andThen_assoc (p : Pass) (f g : Text → Budget → Pass) :
    (p.andThen f).andThen g = p.andThen fun t budget => (f t budget).andThen g := by
  simp [andThen]

end Pass

/-- The first item is rendered, and then the others with what it leaves of the budget. -/
theorem renderItems_cons (render : Budget → Value → Text → Pass) (length : Nat) (body : Text)
    (index : Nat) (budget : Budget) (item : Value) (rest : List Value) :
    renderItems render length body index budget (item :: rest) =
      (render budget (itemScope item index length) body).andThen fun first left =>
        (renderItems render length body (index + 1) left rest).mapText (first ++ ·) := rfl

/-- While passes are left a block is expanded, and what it leaves is rendered. -/
theorem renderWithin_left_succ_eq_andThen {t : Text} {b : Block} (h : nextBlock? t = some b)
    (passes : Nat) (scope : Value) :
    renderWithin o (.left (passes + 1)) scope t =
      (⟨[], [.expanded], .left passes⟩ : Pass).andThen fun _ left =>
        (expandBlock o.detection (renderWithin o) left scope b).andThen fun text left =>
          renderWithin o left scope (b.replaceWith text) :=
  renderWithin_left_succ h passes scope

/-! ## The loop -/

/-- Expands the blocks of a text one after another as far as the budget goes. -/
def expandWithin (o : Options) (budget : Budget) (scope : Value) (t : Text) : Pass :=
  match budget, nextBlock? t with
  | .left (passes + 1), some b =>
    let p := expandBlock o.detection (renderWithin o) (.left passes) scope b
    let q := expandWithin o p.budget scope (b.replaceWith p.text)
    ⟨q.text, .expanded :: p.log ++ q.log, q.budget⟩
  | .left 0, some _ => ⟨t, [.issue (.passLimitReached o.maxPasses.toNat)], .exhausted⟩
  | budget, _ => ⟨t, [], budget⟩
termination_by budget.passes
decreasing_by exact Nat.lt_succ_of_le (passes_expandBlock_le passes_renderWithin_le _ _ _)

/-- When the budget is exhausted the text stays as it is. -/
theorem expandWithin_exhausted (scope : Value) (t : Text) :
    expandWithin o .exhausted scope t = ⟨t, [], .exhausted⟩ := by
  unfold expandWithin
  rfl

/-- A text without a block to expand stays as it is. -/
theorem expandWithin_of_nextBlock?_eq_none {budget : Budget} {t : Text}
    (h : nextBlock? t = none) (scope : Value) :
    expandWithin o budget scope t = ⟨t, [], budget⟩ := by
  unfold expandWithin
  rw [h]
  rcases budget with (_ | passes) | _ <;> rfl

/-- A block is refused when no passes are left, and the text stays as it is. -/
theorem expandWithin_left_zero {t : Text} {b : Block} (h : nextBlock? t = some b)
    (scope : Value) : expandWithin o (.left 0) scope t =
      ⟨t, [.issue (.passLimitReached o.maxPasses.toNat)], .exhausted⟩ := by
  unfold expandWithin
  rw [h]

/-- While passes are left a block is expanded, and so is what it leaves. -/
theorem expandWithin_left_succ {t : Text} {b : Block} (h : nextBlock? t = some b)
    (passes : Nat) (scope : Value) :
    expandWithin o (.left (passes + 1)) scope t =
      (⟨[], [.expanded], .left passes⟩ : Pass).andThen fun _ left =>
        (expandBlock o.detection (renderWithin o) left scope b).andThen fun text left =>
          expandWithin o left scope (b.replaceWith text) := by
  rw [expandWithin.eq_def, h]
  rfl

/-- Induction along the loop of a render. -/
theorem expandWithin_induction {P : Budget → Text → Prop} (scope : Value)
    (exhausted : ∀ t, P .exhausted t)
    (none : ∀ n t, nextBlock? t = none → P (.left n) t)
    (refused : ∀ t b, nextBlock? t = some b → P (.left 0) t)
    (block : ∀ n t b, nextBlock? t = some b →
      (let p := expandBlock o.detection (renderWithin o) (.left n) scope b
       P p.budget (b.replaceWith p.text)) → P (.left (n + 1)) t)
    (budget : Budget) (t : Text) : P budget t := by
  induction hn : budget.passes using Nat.strongRecOn generalizing budget t with
  | ind n ih =>
    cases budget with
    | exhausted => exact exhausted t
    | left passes =>
      cases hnext : nextBlock? t with
      | none => exact none passes t hnext
      | some b =>
        cases passes with
        | zero => exact refused t b hnext
        | succ passes =>
          have hleft := passes_expandBlock_renderWithin_le (o := o) passes scope b
          exact block passes t b hnext (ih _ (hn ▸ Nat.lt_succ_of_le hleft) _ _ rfl)

/-- A render expands the blocks of a text, and then substitutes its tags. -/
theorem renderWithin_eq_andThen (o : Options) (budget : Budget) (scope : Value) (t : Text) :
    renderWithin o budget scope t =
      (expandWithin o budget scope t).andThen fun text left => substitutePass left scope text := by
  induction budget, t using expandWithin_induction (o := o) scope with
  | exhausted t =>
    rw [expandWithin_exhausted, renderWithin_exhausted]
    rfl
  | none n t hnext =>
    rw [expandWithin_of_nextBlock?_eq_none hnext, renderWithin_of_nextBlock?_eq_none hnext]
    rfl
  | refused t b hnext =>
    rw [expandWithin_left_zero hnext, renderWithin_left_zero hnext]
    rfl
  | block n t b hnext ih =>
    rw [expandWithin_left_succ hnext, renderWithin_left_succ_eq_andThen hnext]
    simp only [Pass.andThen_assoc]
    simp only [Pass.andThen] at ih ⊢
    rw [ih]

/-- While passes are left no block is left in the text. -/
theorem nextBlock?_expandWithin {budget : Budget} {scope : Value} {t : Text}
    (h : (expandWithin o budget scope t).budget ≠ .exhausted) :
    nextBlock? (expandWithin o budget scope t).text = none := by
  induction budget, t using expandWithin_induction (o := o) scope with
  | exhausted t =>
    rw [expandWithin_exhausted] at h
    exact absurd rfl h
  | none n t hnext =>
    rw [expandWithin_of_nextBlock?_eq_none hnext]
    exact hnext
  | refused t b hnext =>
    rw [expandWithin_left_zero hnext] at h
    exact absurd rfl h
  | block n t b hnext ih =>
    rw [expandWithin_left_succ hnext] at h ⊢
    exact ih h

end Stencil
