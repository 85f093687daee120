import Stencil.Number.Display
import Stencil.Value.Basic

/-!
# Value text

How a value is written into the output. `null` is written as nothing, the items of an array are
joined with commas, and all objects are written alike.
-/

namespace Stencil.Value

/-- The text of every object. -/
def objectText : Text :=
  ['[', 'o', 'b', 'j', 'e', 'c', 't', ' ', 'O', 'b', 'j', 'e', 'c', 't', ']']

mutual

/-- The text of a value. -/
def display : Value → Text
  | null => []
  | bool b => if b then ['t', 'r', 'u', 'e'] else ['f', 'a', 'l', 's', 'e']
  | number n => n.display
  | text t => t
  | array items => displayItems items
  | object _ => objectText
  | cell c => c.display
termination_by structural v => v

/-- The texts of the items of an array, joined with commas. -/
def displayItems : List Value → Text
  | [] => []
  | [v] => v.display
  | v :: rest => v.display ++ ',' :: displayItems rest
termination_by structural items => items

end

/-- A cell is written as what it holds. -/
@[simp] theorem display_cell (v : Value) : (cell v).display = v.display := by
  simp only [display]

/-- A value is written as its content. -/
@[simp] theorem display_content (v : Value) : v.content.display = v.display := by
  fun_induction content v with
  | case1 c ih => rw [ih, display_cell]
  | case2 v h => rfl

end Stencil.Value
