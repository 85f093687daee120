import Stencil.Render.Basic

/-!
# Template trees and what they denote

A `Tree` is a template as its author means it: texts, tags, and `@if` and `#each` blocks with trees
for their parts. `Tree.source` writes it as a template.

`Tree.denote` says what a tree stands for without a word about templates and scans. First all
conditions are decided, in the order of the tree and also those in the bodies of `#each` blocks:
`Tree.settle` puts the text of the chosen part in the place of each `@if`. Then the `#each` blocks
are run over their items (`Settled.unroll`), and at last the tags are filled in (`fillTags`). So a
condition and the tags beside it in the body of an `#each` see the enclosing scope, not the item.

Each step gives its result as an `Outcome`, with the issues in their order and the number of blocks
that were expanded.
-/

namespace Stencil

/-! ## Trees -/

/-- A template as a tree: one piece after another. -/
inductive Tree where
  | nil
  | text (t : Text) (rest : Tree)
  | tag (inner : Text) (rest : Tree)
  | cond (expr : Text) (body rest : Tree)
  | condElse (expr : Text) (body elseBody rest : Tree)
  | each (path : Text) (body rest : Tree)

/-- The text from the opener of a block through its closer. -/
def Directive.wrap (d : Directive) (inner content : Text) : Text :=
  d.opener ++ inner ++ tagEnd ++ content ++ d.closer

/-- A tree as a template. -/
def Tree.source : Tree → Text
  | nil => []
  | text t rest => t ++ rest.source
  | tag inner rest => tagStart ++ inner ++ tagEnd ++ rest.source
  | cond expr body rest => Directive.cond.wrap expr body.source ++ rest.source
  | condElse expr body elseBody rest =>
    Directive.cond.wrap expr (body.source ++ elseTag ++ elseBody.source) ++ rest.source
  | each path body rest => Directive.each.wrap path body.source ++ rest.source

/-! ## Well-formed trees -/

/-- A text holds no braces. -/
def Text.IsBraceFree (t : Text) : Prop := '{' ∉ t ∧ '}' ∉ t

/-- A tag names a path: it is not empty, holds no braces, and is not part of a block. -/
structure IsVariable (inner : Text) : Prop where
  ne_nil : inner ≠ []
  braceFree : inner.IsBraceFree
  no_condition : ¬ ['@', 'i', 'f', ' '] <+: inner
  no_loop : ¬ Directive.each.name <:+: inner
  ne_else : inner ≠ ['e', 'l', 's', 'e']
  ne_endIf : inner ≠ ['/', 'i', 'f']
  ne_endEach : inner ≠ ['/', 'e', 'a', 'c', 'h']

/-- The texts of a tree mean in a template what they mean in the tree. A text holds no brace that
opens; a condition is free of braces and stands on one line; a path is free of braces and not
blank. -/
def Tree.WellFormed : Tree → Prop
  | nil => True
  | text t rest => '{' ∉ t ∧ rest.WellFormed
  | tag inner rest => IsVariable inner ∧ rest.WellFormed
  | cond expr body rest =>
    (expr.IsBraceFree ∧ '\n' ∉ expr) ∧ body.WellFormed ∧ rest.WellFormed
  | condElse expr body elseBody rest =>
    (expr.IsBraceFree ∧ '\n' ∉ expr) ∧ body.WellFormed ∧ elseBody.WellFormed ∧ rest.WellFormed
  | each path body rest =>
    (path.IsBraceFree ∧ Text.trim path ≠ []) ∧ body.WellFormed ∧ rest.WellFormed

/-! ## Outcomes -/

/-- What comes of a step: its result, the issues in their order, and the number of blocks that were
expanded. -/
structure Outcome (α : Type) where
  value : α
  issues : List Issue
  cost : Nat

namespace Outcome

variable {α β : Type}

instance : Monad Outcome where
  pure v := ⟨v, [], 0⟩
  bind x f := ⟨(f x.value).value, x.issues ++ (f x.value).issues, x.cost + (f x.value).cost⟩

@[simp] theorem value_pure (v : α) : (pure v : Outcome α).value = v := rfl
@[simp] theorem issues_pure (v : α) : (pure v : Outcome α).issues = [] := rfl
@[simp] theorem cost_pure (v : α) : (pure v : Outcome α).cost = 0 := rfl

@[simp] theorem value_bind (x : Outcome α) (f : α → Outcome β) :
    (x >>= f).value = (f x.value).value := rfl

@[simp] theorem issues_bind (x : Outcome α) (f : α → Outcome β) :
    (x >>= f).issues = x.issues ++ (f x.value).issues := rfl

@[simp] theorem cost_bind (x : Outcome α) (f : α → Outcome β) :
    (x >>= f).cost = x.cost + (f x.value).cost := rfl

/-- Where nothing is done before it a step is all there is. -/
theorem pure_bind (v : α) (f : α → Outcome β) : pure v >>= f = f v := by
  show Outcome.mk _ _ _ = _
  simp

/-- Steps may be grouped in any way. -/
theorem bind_assoc {γ : Type} (x : Outcome α) (f : α → Outcome β) (g : β → Outcome γ) :
    x >>= f >>= g = x >>= fun v => f v >>= g := by
  show Outcome.mk _ _ _ = Outcome.mk _ _ _
  simp [List.append_assoc, Nat.add_assoc]

end Outcome

/-! ## Tags -/

/-- What a tag stands for: what is written for the value of its path, or nothing. -/
def fillTag (scope : Value) (inner : Text) : Outcome Text :=
  let path := Text.trim inner
  match scope.resolve? path with
  | some v => pure v.display
  | none => ⟨[], [.unresolvedPath path], 0⟩

/-- What a line of characters and tags stands for. -/
def fillTags (scope : Value) : List Segment → Outcome Text
  | [] => pure []
  | .literal c :: rest => do
    let out ← fillTags scope rest
    return c :: out
  | .tag inner :: rest => do
    let filled ← fillTag scope inner
    let out ← fillTags scope rest
    return filled ++ out

/-! ## Loops -/

/-- A tree in which all conditions are decided. -/
inductive Settled where
  | nil
  | text (t : Text) (rest : Settled)
  | tag (inner : Text) (rest : Settled)
  | each (path : Text) (body rest : Settled)

/-- A settled tree is a tree. -/
def Settled.toTree : Settled → Tree
  | nil => .nil
  | text t rest => .text t rest.toTree
  | tag inner rest => .tag inner rest.toTree
  | each path body rest => .each path body.toTree rest.toTree

/-- What a body stands for in the scope of one item after another, counting from `index`. -/
def overItems (body : Value → Outcome Text) (length : Nat) : Nat → List Value → Outcome Text
  | _, [] => pure []
  | index, item :: rest => do
    let first ← body (itemScope item index length)
    let others ← overItems body length (index + 1) rest
    return first ++ others

/-- What an `#each` block stands for: its body for every item of the array that its path leads to,
and nothing if there is no array. -/
def runLoop (scope : Value) (inner : Text) (body : Value → Outcome Text) : Outcome Text :=
  let path := Text.trim inner
  match scope.resolveArray? path with
  | some items => do
    let _ ← (⟨(), [], 1⟩ : Outcome Unit)
    overItems body items.length 0 items
  | none => ⟨[], [.unresolvedArray path], 1⟩

/-- A settled tree as a line, with what they stand for in place of its `#each` blocks. -/
def Settled.unroll : Settled → Value → Outcome (List Segment)
  | nil, _ => pure []
  | text t rest, scope => do
    let line ← rest.unroll scope
    return t.map .literal ++ line
  | tag inner rest, scope => do
    let line ← rest.unroll scope
    return .tag inner :: line
  | each path body rest, scope => do
    let out ← runLoop scope path fun s => body.unroll s >>= fillTags s
    let line ← rest.unroll scope
    return out.map .literal ++ line

/-- What a settled tree stands for. -/
def Settled.denote (f : Settled) (scope : Value) : Outcome Text := f.unroll scope >>= fillTags scope

/-! ## Conditions -/

/-- Whether the condition of an `@if` block holds. -/
def decideCondition (detection : Detection) (scope : Value) (expr : Text) : Outcome Bool :=
  let condition := Condition.parse detection (Text.trim expr)
  match condition with
  | .malformed e => ⟨condition.eval scope, [.malformedCondition e], 1⟩
  | _ => ⟨condition.eval scope, [], 1⟩

/-- A tree with what the chosen parts stand for in place of its `@if` blocks. -/
def Tree.settle (detection : Detection) (scope : Value) : Tree → Outcome Settled
  | nil => pure .nil
  | text t rest => do
    let rest ← rest.settle detection scope
    return .text t rest
  | tag inner rest => do
    let rest ← rest.settle detection scope
    return .tag inner rest
  | cond expr body rest => do
    let holds ← decideCondition detection scope expr
    let out ← (if holds then body.settle detection scope >>= (·.denote scope) else pure [])
    let rest ← rest.settle detection scope
    return .text out rest
  | condElse expr body elseBody rest => do
    let holds ← decideCondition detection scope expr
    let out ← (if holds then body.settle detection scope >>= (·.denote scope)
      else elseBody.settle detection scope >>= (·.denote scope))
    let rest ← rest.settle detection scope
    return .text out rest
  | each path body rest => do
    let body ← body.settle detection scope
    let rest ← rest.settle detection scope
    return .each path body rest

/-- What a tree stands for: all conditions are decided, then all loops run, then all tags filled
in. -/
def Tree.denote (detection : Detection) (scope : Value) (t : Tree) : Outcome Text :=
  t.settle detection scope >>= (·.denote scope)

/-- A settled tree has no condition left to decide. -/
theorem Tree.settle_toTree (detection : Detection) (scope : Value) (f : Settled) :
    f.toTree.settle detection scope = pure f := by
  induction f with
  | nil => rfl
  | text t rest ih =>
    rw [Settled.toTree, settle, ih]
    rfl
  | tag inner rest ih =>
    rw [Settled.toTree, settle, ih]
    rfl
  | each path body rest ihb ihr =>
    rw [Settled.toTree, settle, ihb, ihr]
    rfl

/-- So what the body of a loop stands for in the scope of an item is what it denotes there. -/
theorem Settled.denote_toTree (detection : Detection) (scope : Value) (f : Settled) :
    f.toTree.denote detection scope = f.denote scope := by
  rw [Tree.denote, Tree.settle_toTree, Outcome.pure_bind]

end Stencil
