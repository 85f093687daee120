import Stencil.Entries
import Stencil.Number.Basic

/-!
# Values

A render context is a tree of `Value`s. Any node may be a cell, which holds another value and stands
for it wherever a value is read; `content` looks through the cells at the top of a value, and
`plain` replaces all cells in it.
-/

namespace Stencil

/-- A context value. -/
inductive Value where
  | null
  | bool (b : Bool)
  | number (n : Number)
  | text (t : Text)
  | array (items : List Value)
  | object (entries : List (Text × Value))
  /-- A cell with its present content. -/
  | cell (content : Value)
deriving Inhabited

namespace Value

/-! ## Looking through cells -/

/-- The value itself, or what its cell holds in the end. -/
def content : Value → Value
  | cell c => c.content
  | v => v

/-- A cell has the content of what it holds. -/
@[simp] theorem content_cell (v : Value) : (cell v).content = v.content := rfl

/-- Content is never a cell. -/
theorem content_ne_cell (v w : Value) : v.content ≠ cell w := by
  fun_induction content v with
  | case1 c ih => exact ih
  | case2 v h => exact fun e => h w e

/-- Looking through cells twice is looking through them once. -/
@[simp] theorem content_content (v : Value) : v.content.content = v.content := by
  fun_induction content v with
  | case1 c ih => exact ih
  | case2 v h =>
    cases v with
    | cell w => exact absurd rfl (h w)
    | _ => rfl

mutual

/-- The value with what they hold in place of all cells. -/
def plain : Value → Value
  | array items => array (plainItems items)
  | object entries => object (plainEntries entries)
  | cell c => c.plain
  | null => null
  | bool b => bool b
  | number n => number n
  | text t => text t
termination_by structural v => v

/-- The items of an array without cells. -/
def plainItems : List Value → List Value
  | [] => []
  | v :: rest => v.plain :: plainItems rest
termination_by structural items => items

/-- The entries of an object without cells. -/
def plainEntries : List (Text × Value) → List (Text × Value)
  | [] => []
  | (k, v) :: rest => (k, v.plain) :: plainEntries rest
termination_by structural entries => entries

end

/-! ## Kinds of values -/

/-- Whether a value has properties: objects and arrays do. -/
def isContainer (v : Value) : Bool :=
  match v.content with
  | array _ | object _ => true
  | _ => false

/-- Whether a condition on the value alone holds: all values are true but `null`, `false`, zero,
`nan` and the empty text. -/
def isTruthy (v : Value) : Bool :=
  match v.content with
  | null => false
  | bool b => b
  | number .nan => false
  | number n => !n.isZero
  | text t => t ≠ []
  | array _ | object _ => true
  | cell _ => false

end Value

end Stencil
