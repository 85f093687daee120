import Stencil.Render.Basic

/-!
# The budget of a render

No render leaves more of a budget than it was given (`passes_renderFuel_le`), and a bound that is at
least the budget never shows (`renderFuel_eq_renderWithin`). So `renderWithin` obeys an equation in
which no bound occurs: `renderWithin_left` says how one block is expanded with what is left of the
budget, and `renderWithin_exhausted` that nothing is expanded after that.
-/

namespace Stencil

variable {o : Options} {detection : Detection}

/-! ## What is left afterwards -/

/-- Rendering the items leaves no more than was given, if rendering a body never does. -/
theorem passes_renderItems_le {render : Budget → Value → Text → Pass}
    (h : ∀ budget scope t, (render budget scope t).budget.passes ≤ budget.passes)
    (length : Nat) (body : Text) (index : Nat) (budget : Budget) (items : List Value) :
    (renderItems render length body index budget items).budget.passes ≤ budget.passes := by
  induction items generalizing index budget with
  | nil => exact Nat.le_refl _
  | cons item rest ih => exact Nat.le_trans (ih _ _) (h _ _ _)

/-- Expanding a block leaves no more than was given, if rendering its parts never does. -/
theorem passes_expandBlock_le {render : Budget → Value → Text → Pass}
    (h : ∀ budget scope t, (render budget scope t).budget.passes ≤ budget.passes)
    (budget : Budget) (scope : Value) (b : Block) :
    (expandBlock detection render budget scope b).budget.passes ≤ budget.passes := by
  unfold expandBlock
  split
  · dsimp only
    split
    · exact h _ _ _
    · exact Nat.le_refl _
  · split
    · exact passes_renderItems_le h _ _ _ _ _
    · exact Nat.le_refl _

/-- A render leaves no more of the budget than it was given. -/
theorem passes_renderFuel_le (fuel : Nat) (budget : Budget) (scope : Value) (t : Text) :
    (renderFuel o fuel budget scope t).budget.passes ≤ budget.passes := by
  induction fuel generalizing budget scope t with
  | zero =>
    cases budget with
    | exhausted => exact Nat.le_refl _
    | left passes =>
      unfold renderFuel
      split
      · exact Nat.le_refl _
      · exact Nat.zero_le _
  | succ fuel ih =>
    cases budget with
    | exhausted => exact Nat.le_refl _
    | left passes =>
      unfold renderFuel
      split
      · exact Nat.le_refl _
      · cases passes with
        | zero => exact Nat.le_refl _
        | succ passes =>
          refine Nat.le_trans (ih _ _ _) ?_
          exact Nat.le_trans (passes_expandBlock_le ih _ _ _) (Nat.le_succ _)

/-! ## The bound does not show -/

/-- Rendering the items depends on how bodies are rendered within the budget only. -/
theorem renderItems_congr {f g : Budget → Value → Text → Pass} {n : Nat}
    (hf : ∀ budget scope t, (f budget scope t).budget.passes ≤ budget.passes)
    (h : ∀ budget scope t, budget.passes ≤ n → f budget scope t = g budget scope t)
    (length : Nat) (body : Text) (index : Nat) (budget : Budget) (hb : budget.passes ≤ n)
    (items : List Value) :
    renderItems f length body index budget items =
      renderItems g length body index budget items := by
  induction items generalizing index budget with
  | nil => rfl
  | cons item rest ih =>
    unfold renderItems
    dsimp only
    rw [← h _ _ _ hb, ih _ _ (Nat.le_trans (hf _ _ _) hb)]

/-- Expanding a block depends on how its parts are rendered within the budget only. -/
theorem expandBlock_congr {f g : Budget → Value → Text → Pass} {n : Nat}
    (hf : ∀ budget scope t, (f budget scope t).budget.passes ≤ budget.passes)
    (h : ∀ budget scope t, budget.passes ≤ n → f budget scope t = g budget scope t)
    (budget : Budget) (hb : budget.passes ≤ n) (scope : Value) (b : Block) :
    expandBlock detection f budget scope b = expandBlock detection g budget scope b := by
  unfold expandBlock
  split
  · dsimp only
    split
    · rw [h _ _ _ hb]
    · rfl
  · split
    · exact renderItems_congr hf h _ _ _ _ hb _
    · rfl

/-- Without passes no bound shows. -/
theorem renderFuel_left_zero (fuel fuel' : Nat) (scope : Value) (t : Text) :
    renderFuel o fuel (.left 0) scope t = renderFuel o fuel' (.left 0) scope t := by
  unfold renderFuel
  cases nextBlock? t with
  | none => rfl
  | some b => cases fuel <;> cases fuel' <;> rfl

/-- Two bounds that are at least the budget give the same render. -/
theorem renderFuel_congr {fuel fuel' : Nat} {budget : Budget} (h : budget.passes ≤ fuel)
    (h' : budget.passes ≤ fuel') (scope : Value) (t : Text) :
    renderFuel o fuel budget scope t = renderFuel o fuel' budget scope t := by
  induction fuel generalizing fuel' budget scope t with
  | zero =>
    cases budget with
    | exhausted => cases fuel' <;> rfl
    | left passes =>
      obtain rfl : passes = 0 := Nat.le_zero.1 h
      exact renderFuel_left_zero _ _ _ _
  | succ fuel ih =>
    cases budget with
    | exhausted => cases fuel' <;> rfl
    | left passes =>
      cases passes with
      | zero => exact renderFuel_left_zero _ _ _ _
      | succ passes =>
        cases fuel' with
        | zero => exact absurd h' (Nat.not_succ_le_zero _)
        | succ fuel' =>
          have hp : passes ≤ fuel := Nat.le_of_succ_le_succ h
          have hp' : passes ≤ fuel' := Nat.le_of_succ_le_succ h'
          unfold renderFuel
          split
          · rfl
          · -- The parts are rendered alike, and so is the text that they leave.
            next b _ =>
            have hexpand : expandBlock o.detection (renderFuel o fuel) (.left passes) scope b =
                expandBlock o.detection (renderFuel o fuel') (.left passes) scope b :=
              expandBlock_congr (n := passes) (passes_renderFuel_le fuel)
                (fun _ _ _ hb => ih (Nat.le_trans hb hp) (Nat.le_trans hb hp') _ _) _
                (Nat.le_refl _) _ _
            have hleft : (expandBlock o.detection (renderFuel o fuel') (.left passes) scope
                b).budget.passes ≤ passes :=
              passes_expandBlock_le (passes_renderFuel_le fuel') _ _ _
            dsimp only
            rw [hexpand, ih (Nat.le_trans hleft hp) (Nat.le_trans hleft hp')]

/-- A bound that is at least the budget gives the render within the budget. -/
theorem renderFuel_eq_renderWithin {fuel : Nat} {budget : Budget} (h : budget.passes ≤ fuel)
    (scope : Value) (t : Text) :
    renderFuel o fuel budget scope t = renderWithin o budget scope t :=
  renderFuel_congr h (Nat.le_refl _) scope t

/-- A render within a budget leaves no more of it than it was given. -/
theorem passes_renderWithin_le (budget : Budget) (scope : Value) (t : Text) :
    (renderWithin o budget scope t).budget.passes ≤ budget.passes :=
  passes_renderFuel_le _ _ _ _

/-- The parts of a block that is expanded within a budget leave no more of it than was given. -/
theorem passes_expandBlock_renderWithin_le (n : Nat) (scope : Value) (b : Block) :
    (expandBlock o.detection (renderWithin o) (.left n) scope b).budget.passes ≤ n :=
  passes_expandBlock_le passes_renderWithin_le (.left n) scope b

/-! ## The equation of a render -/

/-- When the budget is exhausted no block is expanded. -/
theorem renderWithin_exhausted (scope : Value) (t : Text) :
    renderWithin o .exhausted scope t = substitutePass .exhausted scope t := rfl

/-- A text without a block to expand has its tags substituted. -/
theorem renderWithin_of_nextBlock?_eq_none {budget : Budget} {t : Text}
    (h : nextBlock? t = none) (scope : Value) :
    renderWithin o budget scope t = substitutePass budget scope t := by
  cases budget with
  | exhausted => rfl
  | left passes =>
    unfold renderWithin renderFuel
    rw [h]

/-- A block is refused when no passes are left. -/
theorem renderWithin_left_zero {t : Text} {b : Block} (h : nextBlock? t = some b)
    (scope : Value) : renderWithin o (.left 0) scope t = refusedPass o scope t := by
  unfold renderWithin Budget.passes renderFuel
  rw [h]

/-- A block is replaced by what it renders to, and the result is rendered with what is left of the
budget. -/
theorem renderWithin_left_succ {t : Text} {b : Block} (h : nextBlock? t = some b)
    (passes : Nat) (scope : Value) :
    renderWithin o (.left (passes + 1)) scope t =
      let p := expandBlock o.detection (renderWithin o) (.left passes) scope b
      let q := renderWithin o p.budget scope (b.replaceWith p.text)
      ⟨q.text, .expanded :: p.log ++ q.log, q.budget⟩ := by
  have hexpand : expandBlock o.detection (renderFuel o passes) (.left passes) scope b =
      expandBlock o.detection (renderWithin o) (.left passes) scope b :=
    expandBlock_congr (n := passes) (passes_renderFuel_le passes)
      (fun _ _ _ hb => renderFuel_eq_renderWithin hb _ _) _ (Nat.le_refl _) _ _
  rw [renderWithin, Budget.passes, renderFuel]
  simp only [h]
  rw [hexpand, renderFuel_eq_renderWithin (passes_expandBlock_renderWithin_le _ _ _)]

/-- Induction on the budget of a render: for an expansion what is to be shown may be taken for all
renders with less of the budget, those of the parts of the block and that of the text it leaves. -/
theorem renderWithin_induction {P : Budget → Value → Text → Prop}
    (exhausted : ∀ scope t, P .exhausted scope t)
    (none : ∀ n scope t, nextBlock? t = none → P (.left n) scope t)
    (refused : ∀ scope t b, nextBlock? t = some b → P (.left 0) scope t)
    (block : ∀ n scope t b, nextBlock? t = some b →
      (∀ budget, budget.passes ≤ n → ∀ scope t, P budget scope t) → P (.left (n + 1)) scope t)
    (budget : Budget) (scope : Value) (t : Text) : P budget scope t := by
  induction hn : budget.passes using Nat.strongRecOn generalizing budget scope t with
  | ind n ih =>
    cases budget with
    | exhausted => exact exhausted scope t
    | left passes =>
      cases hnext : nextBlock? t with
      | none => exact none passes scope t hnext
      | some b =>
        cases passes with
        | zero => exact refused scope t b hnext
        | succ passes =>
          refine block passes scope t b hnext fun budget hb scope t => ?_
          exact ih _ (hn ▸ Nat.lt_succ_of_le hb) _ _ _ rfl

end Stencil
