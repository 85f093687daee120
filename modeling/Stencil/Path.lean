import Stencil.Number.Round
import Stencil.Value.Basic

/-!
# Paths

A path is a text of keys with points between them. `Value.resolve?` follows it from a context, one
property at a time: the entries of objects, and the items and the length of arrays. Cells are looked
through at every step and at the end, so that what is found is never a cell
(`Value.resolve?_ne_cell`).
-/

namespace Stencil

/-- The key under which an array has its length. -/
def lengthKey : Text := ['l', 'e', 'n', 'g', 't', 'h']

/-- The place in an array that a key stands for: the key is a decimal integer as it is written,
without a sign and without zeros in front. -/
def indexOfKey? (key : Text) : Option Nat :=
  let index := Nat.ofDigitChars 10 key 0
  if Nat.toDigits 10 index = key then some index else none

/-- A key stands for the place whose number it spells. -/
theorem indexOfKey?_eq_some_iff {key : Text} {i : Nat} :
    indexOfKey? key = some i ↔ key = Nat.toDigits 10 i := by
  unfold indexOfKey?
  dsimp only
  constructor
  · intro h
    split at h
    · next hk => cases h; exact hk.symm
    · cases h
  · rintro rfl
    rw [Nat.ofDigitChars_ten_toDigits, if_pos rfl]

namespace Value

/-- The property of a value with a key. -/
def property? (v : Value) (key : Text) : Option Value :=
  match v.content with
  | object entries => Entries.get? key entries
  | array items =>
    if key = lengthKey then some (number (.ofNat items.length))
    else (indexOfKey? key).bind (items[·]?)
  | _ => none

/-- The content of what one key after another leads to. -/
def follow? : List Text → Value → Option Value
  | [], v => some v.content
  | key :: rest, v => (v.property? key).bind (follow? rest)

/-- What a path leads to; the empty path leads nowhere. -/
def resolve? (context : Value) (path : Text) : Option Value :=
  if path = [] then none else follow? (Text.pieces '.' path) context

/-- The items of the array that a path leads to. -/
def resolveArray? (context : Value) (path : Text) : Option (List Value) :=
  match context.resolve? path with
  | some (array items) => some items
  | _ => none

/-- Keys are followed through a cell as from what it holds. -/
@[simp] theorem property?_content (v : Value) (key : Text) :
    v.content.property? key = v.property? key := by
  simp only [property?, content_content]

/-- Following keys one list after another. -/
theorem follow?_append (ks ls : List Text) (v : Value) :
    follow? (ks ++ ls) v = (follow? ks v).bind (follow? ls) := by
  induction ks generalizing v with
  | nil =>
    cases ls with
    | nil => simp [follow?]
    | cons l ls => simp [follow?]
  | cons k ks ih =>
    simp only [List.cons_append, follow?, Option.bind_assoc]
    congr 1
    exact funext ih

/-- What keys lead to is never a cell. -/
theorem follow?_ne_cell (ks : List Text) (v w : Value) : follow? ks v ≠ some (cell w) := by
  induction ks generalizing v with
  | nil => simpa [follow?] using content_ne_cell v w
  | cons k ks ih =>
    simp only [follow?, ne_eq, Option.bind_eq_some_iff, not_exists, not_and]
    exact fun u _ => ih u

/-- What a path leads to is never a cell. -/
theorem resolve?_ne_cell (context : Value) (path : Text) (w : Value) :
    context.resolve? path ≠ some (cell w) := by
  unfold resolve?
  split
  · simp
  · exact follow?_ne_cell _ _ _

end Value

end Stencil
