import Stencil.Proofs.Checked.Condition
import Stencil.Proofs.Checked.Scan
import Stencil.Render.Basic

/-!
# Rendering by bytes

`Checked.render` renders a template as a program does that names places by bytes: it looks for
blocks with `Checked.scan`, reads conditions with `Checked.parseCondition`, puts what a block
renders to between two bytes of the text, and splits the text at the byte of an opener that is left.
It would stop at the first cut that is out of place and at the first difference that is negative.

It never stops, and it gives what `render` gives (`Checked.render_never_panics`): each step has what
it needs from the step before, so every function of the renderer equals its counterpart.
-/

namespace Stencil

namespace Checked

/-- The first block of a kind, if the first opener has a closer. -/
def findBlock (d : Directive) (t : Text) : Checked (Option BlockAt) := do
  match ← scan d t with
  | .found b => return some b
  | _ => return none

/-- The block to expand next, with its kind. -/
def nextBlock (t : Text) : Checked (Option (Directive × BlockAt)) := do
  match ← findBlock .cond t with
  | some b => return some (.cond, b)
  | none =>
    let block ← findBlock .each t
    return block.map (.each, ·)

/-- A text with another in place of what stands between two bytes. -/
def splice (t : Text) (start stop : Nat) (replacement : Text) : Checked Text := do
  -- The room for the result is computed first.
  let covered ← subtract stop start
  let _room ← subtract (Text.utf8Length t) covered
  let before ← slice t 0 start
  let after ← slice t stop (Text.utf8Length t)
  return before ++ replacement ++ after

/-- A text with the tags before the first opener replaced, and the issues of them. -/
def substitute (reporting : Bool) (scope : Value) (t : Text) : Checked (Text × List Issue) :=
  match findFirst Directive.opener [.cond, .each] t with
  | none => return renderTags scope t
  | some (offset, d) => do
    let (head, tail) ← splitAt t offset
    let (text, issues) := renderTags scope head
    let unmatched := if reporting then [.unmatchedBlock d offset] else []
    return (text ++ tail, unmatched ++ issues)

/-- Renders the tags of a text in which no block is to be expanded. -/
def substitutePass (budget : Budget) (scope : Value) (t : Text) : Checked Pass := do
  let (text, issues) ← substitute (budget ≠ .exhausted) scope t
  return ⟨text, issues.map .issue, budget⟩

/-- Renders a body in the scope of one item after another, counting from `index`. -/
def renderItems (render : Budget → Value → Text → Checked Pass) (length : Nat) (body : Text) :
    Nat → Budget → List Value → Checked Pass
  | _, budget, [] => return ⟨[], [], budget⟩
  | index, budget, item :: rest => do
    let first ← render budget (itemScope item index length) body
    let others ← renderItems render length body (index + 1) first.budget rest
    return ⟨first.text ++ others.text, first.log ++ others.log, others.budget⟩

/-- Renders what a block stands for. -/
def expandBlock (detection : Detection) (render : Budget → Value → Text → Checked Pass)
    (budget : Budget) (scope : Value) (d : Directive) (b : BlockAt) : Checked Pass :=
  match d with
  | .cond => do
    let condition ← parseCondition detection b.expr
    let issues := condition.issues.map Event.issue
    match if condition.eval scope then some b.body else b.elseBody with
    | some part =>
      let p ← render budget scope part
      return { p with log := issues ++ p.log }
    | none => return ⟨[], issues, budget⟩
  | .each =>
    match scope.resolveArray? b.expr with
    | some items => renderItems render items.length b.body 0 budget items
    | none => return ⟨[], [.issue (.unresolvedArray b.expr)], budget⟩

/-- Renders a text in which a block of a kind is to be expanded but no passes are left. -/
def refusedPass (o : Options) (scope : Value) (t : Text) (d : Directive) : Checked Pass := do
  -- After a refused `@if` block an `#each` block is looked for all the same.
  if d = .cond then
    let _block ← findBlock .each t
  let p ← substitutePass .exhausted scope t
  return { p with log := .issue (.passLimitReached o.maxPasses.toNat) :: p.log }

/-- Renders a text with at most `fuel` expansions one after another. -/
def renderFuel (o : Options) : Nat → Budget → Value → Text → Checked Pass
  | _, .exhausted, scope, t => substitutePass .exhausted scope t
  | fuel, .left passes, scope, t => do
    match ← nextBlock t with
    | none => substitutePass (.left passes) scope t
    | some (d, b) =>
      match fuel, passes with
      | fuel + 1, passes + 1 =>
        let p ← expandBlock o.detection (renderFuel o fuel) (.left passes) scope d b
        let next ← splice t b.start b.stop p.text
        let q ← renderFuel o fuel p.budget scope next
        return ⟨q.text, .expanded :: p.log ++ q.log, q.budget⟩
      | _, _ => refusedPass o scope t d

/-- Renders a template in a context. -/
def render (o : Options) (context : Value) (template : Text) : Checked Rendered := do
  let budget := Budget.left o.maxPasses.toNat
  let p ← renderFuel o budget.passes budget context template
  return ⟨p.text, p.log.filterMap Event.issue?⟩

/-! ## The parts of a render -/

/-- A block is found without a panic. -/
theorem findBlock_eq (d : Directive) (t : Text) :
    findBlock d t = .ok ((findBlock? d t).map Block.located) := by
  unfold findBlock findBlock?
  rw [scan_eq, ok_bind]
  rcases Stencil.scan d t with _ | before | b
  · rfl
  · rfl
  · rfl

/-- The next block is found without a panic. -/
theorem nextBlock_eq (t : Text) :
    nextBlock t = .ok ((nextBlock? t).map fun b => (b.directive, b.located)) := by
  have hkind {d : Directive} {b : Block} (h : findBlock? d t = some b) : b.directive = d :=
    (findBlock?_eq_some_iff.1 h).kind
  unfold nextBlock nextBlock?
  simp only [findBlock_eq, ok_bind]
  rcases hcond : findBlock? .cond t with _ | b
  · rcases heach : findBlock? .each t with _ | b
    · rfl
    · simp only [Option.map_some, Option.map_none, Option.none_or, hkind heach]
      rfl
  · simp only [Option.map_some, Option.some_or, hkind hcond]
    rfl

/-- A block that was found in a text can be replaced without a panic. -/
theorem splice_eq {d : Directive} {t : Text} {b : Block} (h : Stencil.scan d t = .found b)
    (replacement : Text) :
    splice t b.start b.stop replacement = .ok (b.replaceWith replacement) := by
  have ht := Scan.source_eq h
  have hbytes : Text.utf8Length t = Text.utf8Length b.source +
      (Text.utf8Length b.before + Text.utf8Length b.after) := by
    rw [← ht, Text.utf8Length_append, Text.utf8Length_append]
    omega
  have hbefore : slice t 0 b.start = .ok b.before :=
    slice_append (a := []) (b := b.source ++ b.after) (by rw [← ht]; simp) rfl (Nat.zero_add _)
  have hafter : slice t b.stop (Text.utf8Length t) = .ok b.after :=
    slice_to_end ht.symm (Text.utf8Length_append b.before b.source)
  simp only [splice, Block.stop, subtract_add_left, ok_bind, hbytes]
  rw [← hbytes, ← Block.stop, hbefore, hafter]
  rfl

/-- The tags of a text are substituted without a panic. -/
theorem substitute_eq (reporting : Bool) (scope : Value) (t : Text) :
    substitute reporting scope t = .ok (Stencil.substitute reporting scope t) := by
  have hall (d : Directive) : d ∈ [Directive.cond, .each] := by cases d <;> decide
  unfold substitute Stencil.substitute
  rcases hfirst : findFirst Directive.opener [.cond, .each] t with _ | ⟨offset, d⟩
  · have hnone : splitOpener? t = none :=
      splitOpener?_eq_none_iff.2 fun d => findFirst_eq_none_iff.1 hfirst d (hall d)
    rw [hnone]
    rfl
  · -- Both openers are avoided before the place, so it is the first opener of all.
    obtain ⟨-, head, rest, ht, rfl, havoids⟩ := exists_of_findFirst_eq_some hfirst
    have hopener : FirstOpener t d head := by
      rw [ht, firstOpener_append_iff]
      exact ⟨List.prefix_append _ _, fun d' => havoids d' (hall d')⟩
    have hsplit := splitOpener?_eq_some_iff.2 ⟨ht, hopener⟩
    simp only [splitAt_append ht rfl, ok_bind, hsplit]
    rfl

/-- The tags of a text are rendered without a panic. -/
theorem substitutePass_eq (budget : Budget) (scope : Value) (t : Text) :
    substitutePass budget scope t = .ok (Stencil.substitutePass budget scope t) := by
  rw [substitutePass, substitute_eq]
  rfl

/-- A refused block leads to no panic. -/
theorem refusedPass_eq (o : Options) (scope : Value) (t : Text) (d : Directive) :
    refusedPass o scope t d = .ok (Stencil.refusedPass o scope t) := by
  unfold refusedPass
  rw [findBlock_eq, substitutePass_eq]
  cases d with
  | cond => rfl
  | each => rfl

section Blocks

variable {render : Budget → Value → Text → Checked Pass} {render' : Budget → Value → Text → Pass}

/-- The items of a loop are rendered without a panic if the body is. -/
theorem renderItems_eq (h : ∀ budget scope t, render budget scope t = .ok (render' budget scope t))
    (length : Nat) (body : Text) (index : Nat) (budget : Budget) (items : List Value) :
    renderItems render length body index budget items =
      .ok (Stencil.renderItems render' length body index budget items) := by
  induction items generalizing index budget with
  | nil => rfl
  | cons item rest ih =>
    simp only [renderItems, h, ok_bind, ih]
    rfl

/-- A block is expanded without a panic if its parts are rendered without one. -/
theorem expandBlock_eq (h : ∀ budget scope t, render budget scope t = .ok (render' budget scope t))
    (detection : Detection) (budget : Budget) (scope : Value) (b : Block) :
    expandBlock detection render budget scope b.directive b.located =
      .ok (Stencil.expandBlock detection render' budget scope b) := by
  unfold expandBlock Stencil.expandBlock
  cases b.directive with
  | cond =>
    simp only [Block.located, parseCondition_eq, ok_bind]
    rcases if (Condition.parse detection b.expr).eval scope then some b.body else b.elseBody with
      _ | part
    · rfl
    · simp only [h, ok_bind]
      rfl
  | each =>
    simp only [Block.located]
    rcases scope.resolveArray? b.expr with _ | items
    · rfl
    · simp only [renderItems_eq h]

end Blocks

/-! ## The whole render -/

/-- A text is rendered without a panic. -/
theorem renderFuel_eq (o : Options) (fuel : Nat) (budget : Budget) (scope : Value) (t : Text) :
    renderFuel o fuel budget scope t = .ok (Stencil.renderFuel o fuel budget scope t) := by
  induction fuel generalizing budget scope t with
  | zero =>
    cases budget with
    | exhausted => exact substitutePass_eq _ _ _
    | left passes =>
      unfold renderFuel Stencil.renderFuel
      simp only [nextBlock_eq, ok_bind]
      rcases nextBlock? t with _ | b
      · exact substitutePass_eq _ _ _
      · exact refusedPass_eq _ _ _ _
  | succ fuel ih =>
    cases budget with
    | exhausted => exact substitutePass_eq _ _ _
    | left passes =>
      unfold renderFuel Stencil.renderFuel
      simp only [nextBlock_eq, ok_bind]
      rcases hnext : nextBlock? t with _ | b
      · exact substitutePass_eq _ _ _
      · cases passes with
        | zero => exact refusedPass_eq _ _ _ _
        | succ passes =>
          -- The block was found in this very text, so its bytes can be cut out of it.
          obtain ⟨d, hfind⟩ := exists_findBlock?_of_nextBlock? hnext
          have hscan := scan_eq_found_iff.2 (findBlock?_eq_some_iff.1 hfind)
          have hsplice (r : Text) :
              splice t b.located.start b.located.stop r = .ok (b.replaceWith r) :=
            splice_eq hscan r
          simp only [Option.map_some, expandBlock_eq ih, hsplice, ih, ok_bind]
          rfl

/-- A text can be cut exactly between characters and a difference taken exactly if it is not
negative, and a render that does these things with the bytes of a template never stops: in every
context and with all options it gives what `render` gives. -/
theorem render_never_panics :
    (∀ (t : Text) (start stop : Nat), (slice t start stop).isOk = true ↔
        start ≤ stop ∧ stop ≤ (String.ofList t).utf8ByteSize ∧
          (⟨start⟩ : String.Pos.Raw).IsValid (String.ofList t) ∧
          (⟨stop⟩ : String.Pos.Raw).IsValid (String.ofList t)) ∧
      (∀ (t : Text) (place : Nat), (splitAt t place).isOk = true ↔
        (⟨place⟩ : String.Pos.Raw).IsValid (String.ofList t)) ∧
      (∀ m n : Nat, (subtract m n).isOk = true ↔ n ≤ m) ∧
      ∀ (o : Options) (context : Value) (template : Text),
        render o context template = .ok (Stencil.render o context template) := by
  refine ⟨fun _ _ _ => isOk_slice_iff, fun _ _ => isOk_splitAt_iff, fun _ _ => isOk_subtract_iff,
    fun o context template => ?_⟩
  rw [render, renderFuel_eq]
  rfl

end Checked

end Stencil
