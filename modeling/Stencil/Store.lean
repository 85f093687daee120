import Stencil.Value.Basic

/-!
# Cells that change

A `Store` holds the contents of cells that may change between renders. A `Live` value refers to
cells by their place in the store, so that all values with a cell see its new content. For a render
`Store.view` takes the present content of the cells into a `Value`.
-/

namespace Stencil

/-- A value whose cells may change. -/
inductive Live where
  | null
  | bool (b : Bool)
  | number (n : Number)
  | text (t : Text)
  | array (items : List Live)
  | object (entries : List (Text × Live))
  /-- The cell with a number. -/
  | cell (id : Nat)
deriving Inhabited

namespace Live

mutual

/-- The value with cells in which `contents` gives what the cells hold. -/
def withContents (contents : Nat → Value) : Live → Value
  | null => .null
  | bool b => .bool b
  | number n => .number n
  | text t => .text t
  | array items => .array (itemsWithContents contents items)
  | object entries => .object (entriesWithContents contents entries)
  | cell id => .cell (contents id)
termination_by structural v => v

/-- The items of an array, with the contents of cells. -/
def itemsWithContents (contents : Nat → Value) : List Live → List Value
  | [] => []
  | v :: rest => v.withContents contents :: itemsWithContents contents rest
termination_by structural items => items

/-- The entries of an object, with the contents of cells. -/
def entriesWithContents (contents : Nat → Value) : List (Text × Live) → List (Text × Value)
  | [] => []
  | (k, v) :: rest => (k, v.withContents contents) :: entriesWithContents contents rest
termination_by structural entries => entries

end

end Live

/-- The contents of cells, by their numbers. -/
structure Store where
  contents : List Live := []

namespace Store

/-- What a cell holds; a cell that is not in the store holds `null`. -/
def get (s : Store) (id : Nat) : Live := s.contents[id]?.getD .null

/-- Adds a cell, and gives its number. -/
def add (s : Store) (content : Live) : Nat × Store :=
  (s.contents.length, ⟨s.contents ++ [content]⟩)

/-- Changes what a cell holds. -/
def set (s : Store) (id : Nat) (content : Live) : Store := ⟨s.contents.set id content⟩

/-- What a cell holds, with the contents of cells up to `depth` cells within one another. -/
def viewCell (s : Store) : Nat → Nat → Value
  | 0, _ => .null
  | depth + 1, id => (s.get id).withContents (s.viewCell depth)

/-- The present value of a value. No chain of cells without a circle is longer than the number of
cells. -/
def view (s : Store) (v : Live) : Value := v.withContents (s.viewCell s.contents.length)

/-- A cell that was added holds its content. -/
theorem get_add (s : Store) (content : Live) :
    (s.add content).2.get (s.add content).1 = content := by
  simp [add, get]

/-- A cell that was changed holds its new content. -/
theorem get_set_self (s : Store) {id : Nat} (content : Live) (h : id < s.contents.length) :
    (s.set id content).get id = content := by
  simp [set, get, h]

/-- Changing a cell leaves the others. -/
theorem get_set_of_ne (s : Store) {id other : Nat} (content : Live) (h : other ≠ id) :
    (s.set id content).get other = s.get other := by
  simp [set, get, List.getElem?_set_ne (Ne.symm h)]

end Store

end Stencil
