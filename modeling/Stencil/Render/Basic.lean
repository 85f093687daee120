import Stencil.Condition.Eval
import Stencil.Json.Basic
import Stencil.Options
import Stencil.Render.Substitution
import Stencil.Scope

/-!
# Rendering

A template is rendered by replacing one block after another by what it renders to, `@if` blocks
before `#each` blocks, until none is left; then the tags are substituted. What a block renders to is
rendered in the same way, the chosen part of an `@if` block in the same context, the body of an
`#each` block in the scope of each item.

Values may bring new blocks into the text, so the number of expansions has a limit. `Budget` is what
is left of it. It is handed through all nested renders, and `Pass` is what a render makes of it: a
text, what happened, and the budget afterwards. `renderFuel` recurs on a bound of the expansions
that are left, and `renderWithin` starts it with the budget itself as the bound.
-/

namespace Stencil

/-- How many blocks may still be expanded. -/
inductive Budget where
  | left (passes : Nat)
  /-- A block was refused because no passes were left. -/
  | exhausted
deriving DecidableEq

/-- The number of blocks that may still be expanded. -/
def Budget.passes : Budget → Nat
  | left passes => passes
  | exhausted => 0

/-- What happens in a render. -/
inductive Event where
  /-- A block is expanded. -/
  | expanded
  | issue (i : Issue)
deriving DecidableEq

/-- What comes of rendering a text: a text, what happened in order, and the budget afterwards. -/
structure Pass where
  text : Text
  log : List Event
  budget : Budget

/-- Finds the block to expand next: the first `@if` block, and if there is none the first `#each`
block. -/
def nextBlock? (t : Text) : Option Block := (findBlock? .cond t).or (findBlock? .each t)

/-- A block to expand is the first of its kind. -/
theorem exists_findBlock?_of_nextBlock? {t : Text} {b : Block} (h : nextBlock? t = some b) :
    ∃ d, findBlock? d t = some b :=
  (Option.or_eq_some_iff.1 h).elim (fun h => ⟨_, h⟩) fun h => ⟨_, h.2⟩

/-- Renders the tags of a text in which no block is to be expanded. -/
def substitutePass (budget : Budget) (scope : Value) (t : Text) : Pass :=
  let (text, issues) := substitute (budget ≠ .exhausted) scope t
  ⟨text, issues.map .issue, budget⟩

/-- Renders a body in the scope of one item after another, counting from `index`. -/
def renderItems (render : Budget → Value → Text → Pass) (length : Nat) (body : Text) :
    Nat → Budget → List Value → Pass
  | _, budget, [] => ⟨[], [], budget⟩
  | index, budget, item :: rest =>
    let first := render budget (itemScope item index length) body
    let others := renderItems render length body (index + 1) first.budget rest
    ⟨first.text ++ others.text, first.log ++ others.log, others.budget⟩

/-- The issues of reading a condition. -/
def Condition.issues : Condition → List Issue
  | malformed expr => [.malformedCondition expr]
  | _ => []

/-- Renders what a block stands for: the part of an `@if` block that its condition chooses, or the
body of an `#each` block for every item. `render` renders the parts. -/
def expandBlock (detection : Detection) (render : Budget → Value → Text → Pass)
    (budget : Budget) (scope : Value) (b : Block) : Pass :=
  match b.directive with
  | .cond =>
    let condition := Condition.parse detection b.expr
    let issues := condition.issues.map Event.issue
    match if condition.eval scope then some b.body else b.elseBody with
    | some part =>
      let p := render budget scope part
      { p with log := issues ++ p.log }
    | none => ⟨[], issues, budget⟩
  | .each =>
    match scope.resolveArray? b.expr with
    | some items => renderItems render items.length b.body 0 budget items
    | none => ⟨[], [.issue (.unresolvedArray b.expr)], budget⟩

/-- Renders a text in which a block is to be expanded but no passes are left. -/
def refusedPass (o : Options) (scope : Value) (t : Text) : Pass :=
  let p := substitutePass .exhausted scope t
  { p with log := .issue (.passLimitReached o.maxPasses.toNat) :: p.log }

/-- Renders a text with at most `fuel` expansions one after another. -/
def renderFuel (o : Options) : Nat → Budget → Value → Text → Pass
  | _, .exhausted, scope, t => substitutePass .exhausted scope t
  | fuel, .left passes, scope, t =>
    match nextBlock? t with
    | none => substitutePass (.left passes) scope t
    | some b =>
      match fuel, passes with
      | fuel + 1, passes + 1 =>
        -- What the block renders to may hold blocks again, so the whole text is looked at anew.
        let p := expandBlock o.detection (renderFuel o fuel) (.left passes) scope b
        let q := renderFuel o fuel p.budget scope (b.replaceWith p.text)
        ⟨q.text, .expanded :: p.log ++ q.log, q.budget⟩
      | _, _ => refusedPass o scope t

/-- Renders a text within a budget. -/
def renderWithin (o : Options) (budget : Budget) (scope : Value) (t : Text) : Pass :=
  renderFuel o budget.passes budget scope t

/-- What a template renders to, and the issues in the order in which they arose. -/
structure Rendered where
  output : Text
  issues : List Issue

/-- Whether a render went without issues. -/
def Rendered.isClean (r : Rendered) : Bool := r.issues.isEmpty

/-- The issue that an event records. -/
def Event.issue? : Event → Option Issue
  | expanded => none
  | issue i => some i

/-- Events that are issues are those issues. -/
theorem filterMap_issue?_map (issues : List Issue) :
    (issues.map Event.issue).filterMap Event.issue? = issues := by
  induction issues with
  | nil => rfl
  | cons i rest ih => simp [Event.issue?, ih]

/-- Events that are issues are no expansions. -/
theorem count_expanded_map (issues : List Issue) :
    (issues.map Event.issue).count .expanded = 0 := by
  rw [List.count_eq_zero]
  simp

/-- Renders a template in a context. -/
def render (o : Options) (context : Value) (template : Text) : Rendered :=
  let p := renderWithin o (.left o.maxPasses.toNat) context template
  ⟨p.text, p.log.filterMap Event.issue?⟩

/-- The context of a document. An array that is the whole of it is put under a key of its own, so
that paths can reach it. -/
def jsonContext (o : Options) (data : Json) : Value :=
  match data with
  | .array items => .object [(o.arrayRootKey, .ofJson (.array items))]
  | data => .ofJson data

/-- Renders a template in the context of a document. -/
def renderJson (o : Options) (data : Json) (template : Text) : Rendered :=
  render o (jsonContext o data) template

end Stencil
