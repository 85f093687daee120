import Stencil.Number.Round
import Stencil.Value.Basic

/-!
# JSON documents

`Json` is a document as it is read and written. Its numbers keep apart integers, which are written
without a point, and reals. `Value.ofJson` makes a context of a document, and `Value.toJson` writes
a value as one: cells are written as their content, and integers of 64 bits as integers. `nan` and
the infinities have no form in JSON and become `null`.
-/

namespace Stencil

/-- A JSON document. The keys of an object stand in their order, none of them twice. -/
inductive Json where
  | null
  | bool (b : Bool)
  | integer (i : Int)
  | real (n : Number)
  | text (t : Text)
  | array (items : List Json)
  | object (entries : List (Text × Json))
deriving Inhabited

/-- The integer that a number is written as: a number without a part after the point, up to
`2 ^ 63` in size. What is beyond the greatest integer of 64 bits is written as that integer. -/
def Number.wireInteger? : Number → Option Int
  | .finite negative m =>
    if m.units % Magnitude.unitsInOne = 0 ∧ m.units ≤ twoTo 63 * Magnitude.unitsInOne then
      some (min (signed negative (m.units / Magnitude.unitsInOne)) (twoTo 63 - 1))
    else none
  | _ => none

/-- The form of a number in a document. -/
def Number.toJson (n : Number) : Json :=
  match n.wireInteger?, n with
  | some i, _ => .integer i
  | none, .finite _ _ => .real n
  | none, _ => .null

namespace Value

mutual

/-- The document of a value. -/
def toJson : Value → Json
  | null => .null
  | bool b => .bool b
  | number n => n.toJson
  | text t => .text t
  | array items => .array (itemsToJson items)
  | object entries => .object (entriesToJson entries)
  | cell c => c.toJson
termination_by structural v => v

/-- The documents of the items of an array. -/
def itemsToJson : List Value → List Json
  | [] => []
  | v :: rest => v.toJson :: itemsToJson rest
termination_by structural items => items

/-- The documents of the entries of an object. -/
def entriesToJson : List (Text × Value) → List (Text × Json)
  | [] => []
  | (k, v) :: rest => (k, v.toJson) :: entriesToJson rest
termination_by structural entries => entries

end

mutual

/-- The value of a document. -/
def ofJson : Json → Value
  | .null => null
  | .bool b => bool b
  | .integer i => number (.ofInt i)
  | .real n => number n
  | .text t => text t
  | .array items => array (itemsOfJson items)
  | .object entries => object (entriesOfJson entries)
termination_by structural j => j

/-- The values of the items of an array. -/
def itemsOfJson : List Json → List Value
  | [] => []
  | j :: rest => ofJson j :: itemsOfJson rest
termination_by structural items => items

/-- The values of the entries of an object. -/
def entriesOfJson : List (Text × Json) → List (Text × Value)
  | [] => []
  | (k, j) :: rest => (k, ofJson j) :: entriesOfJson rest
termination_by structural entries => entries

end

end Value

end Stencil
