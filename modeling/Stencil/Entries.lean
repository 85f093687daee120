import Stencil.Text.Basic

/-!
# Entries of objects

The entries of an object are keys with values, in the order in which the keys were first set. `get?`
and `set` read and change them; `set` keeps the place of a key that is there (`keys_set_of_mem`) and
puts a new one at the end (`keys_set_of_notMem`).
-/

namespace Stencil

/-- The entries of an object, in the order in which their keys were first set. -/
abbrev Entries (α : Type) := List (Text × α)

namespace Entries

variable {α : Type}

/-- The value of a key. -/
def get? (key : Text) : Entries α → Option α
  | [] => none
  | (k, v) :: rest => if k = key then some v else get? key rest

/-- The entries with a key set to a value: in its place if it is there, and else at the end. -/
def set (key : Text) (value : α) : Entries α → Entries α
  | [] => [(key, value)]
  | (k, v) :: rest => if k = key then (k, value) :: rest else (k, v) :: set key value rest

/-- The keys in their order. -/
def keys (entries : Entries α) : List Text := entries.map Prod.fst

/-- The entries that result from setting one key after another. -/
def ofList (entries : List (Text × α)) : Entries α :=
  entries.foldl (fun acc (k, v) => set k v acc) []

/-- A key that was set has its value. -/
theorem get?_set_self (key : Text) (value : α) (es : Entries α) :
    get? key (set key value es) = some value := by
  induction es with
  | nil => simp [set, get?]
  | cons e es ih =>
    obtain ⟨k, v⟩ := e
    by_cases h : k = key <;> simp [set, get?, h, ih]

/-- Setting a key leaves the values of other keys. -/
theorem get?_set_of_ne {key other : Text} (value : α) (es : Entries α) (h : other ≠ key) :
    get? other (set key value es) = get? other es := by
  induction es with
  | nil => simp [set, get?, Ne.symm h]
  | cons e es ih =>
    obtain ⟨k, v⟩ := e
    by_cases hk : k = key
    · subst hk
      simp [set, get?, Ne.symm h]
    · by_cases ho : k = other
      · subst ho
        simp [set, get?, hk]
      · simp [set, get?, hk, ho, ih]

/-- A key is found exactly when it is among the keys. -/
theorem get?_eq_none_iff {key : Text} {es : Entries α} : get? key es = none ↔ key ∉ keys es := by
  induction es with
  | nil => simp [get?, keys]
  | cons e es ih =>
    obtain ⟨k, v⟩ := e
    by_cases h : k = key
    · simp [get?, keys, h]
    · simpa [get?, keys, h, Ne.symm h] using ih

/-- What a key has is the value of one of the entries. -/
theorem mem_of_get?_eq_some {key : Text} {value : α} {es : Entries α}
    (h : get? key es = some value) : (key, value) ∈ es := by
  induction es with
  | nil => cases h
  | cons e es ih =>
    obtain ⟨k, v⟩ := e
    unfold get? at h
    split at h
    · next hk =>
      cases h
      exact hk ▸ List.mem_cons_self
    · exact List.mem_cons_of_mem _ (ih h)

/-- Setting a key that is there changes no key and no place. -/
theorem keys_set_of_mem {key : Text} {es : Entries α} (value : α) (h : key ∈ keys es) :
    keys (set key value es) = keys es := by
  induction es with
  | nil => simp [keys] at h
  | cons e es ih =>
    obtain ⟨k, v⟩ := e
    by_cases hk : k = key
    · simp [set, keys, hk]
    · have : key ∈ keys es := by simpa [keys, Ne.symm hk] using h
      simpa [set, keys, hk] using ih this

/-- Setting a key that is not there puts it at the end. -/
theorem keys_set_of_notMem {key : Text} {es : Entries α} (value : α) (h : key ∉ keys es) :
    keys (set key value es) = keys es ++ [key] := by
  induction es with
  | nil => simp [set, keys]
  | cons e es ih =>
    obtain ⟨k, v⟩ := e
    obtain ⟨hk, hes⟩ : ¬ key = k ∧ key ∉ keys es := by simpa [keys] using h
    simpa [set, keys, Ne.symm hk] using ih hes

end Entries

end Stencil
