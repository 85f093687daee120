import Stencil.Path

/-!
# Scopes of items

The body of an `#each` block is rendered once per item, and sees only the item. `itemScope` is the
context that it sees: the properties of the item, and what is known of its place in the array.
Nothing of the enclosing context is in it.
-/

namespace Stencil

/-- The key of the place of an item, counted from zero. -/
def indexKey : Text := ['@', 'i', 'n', 'd', 'e', 'x']

/-- The key that tells whether an item is the first. -/
def firstKey : Text := ['@', 'f', 'i', 'r', 's', 't']

/-- The key that tells whether an item is the last. -/
def lastKey : Text := ['@', 'l', 'a', 's', 't']

/-- The items of an array as entries, the first of them with the key `index`. -/
def indexedEntries (index : Nat) : List Value → Entries Value
  | [] => []
  | v :: rest => (Nat.toDigits 10 index, v) :: indexedEntries (index + 1) rest

/-- The properties of a value as the entries of an object. -/
def Value.ownEntries (v : Value) : Entries Value :=
  match v.content with
  | .object entries => entries
  | .array items => indexedEntries 0 items
  | _ => []

/-- The context that the body of a block sees for one item of an array. -/
def itemScope (item : Value) (index length : Nat) : Value :=
  .object
    (Entries.set lastKey (.bool (index + 1 == length))
      (Entries.set firstKey (.bool (index == 0))
        (Entries.set indexKey (.number (.ofNat index)) item.ownEntries)))

end Stencil
