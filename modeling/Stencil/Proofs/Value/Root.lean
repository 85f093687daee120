import Stencil.Options.Json
import Stencil.Proofs.Json.RoundTrip
import Stencil.Proofs.Value.Path
import Stencil.Render.Basic

/-!
# Arrays as contexts

A document that is an array is put under a key, so that paths can reach it (`jsonContext`). The key
is taken as it is, while a path is split at its points, and the empty path leads nowhere. So the
array is reached exactly if the key is not empty and has no point in it, and then by that key alone
(`resolveArray?_jsonContext_iff`).
-/

namespace Stencil

namespace Text

variable {sep : Char} {s t : Text}

/-- There is no separator in a piece. -/
theorem notMem_of_mem_pieces (h : s ∈ pieces sep t) : sep ∉ s := by
  induction t generalizing s with
  | nil =>
    obtain rfl : s = [] := List.mem_singleton.1 h
    exact List.not_mem_nil
  | cons c t ih =>
    obtain ⟨first, rest, hp⟩ := List.exists_cons_of_ne_nil (pieces_ne_nil sep t)
    unfold pieces at h
    rw [hp] at h ih
    split at h
    · rcases List.mem_cons.1 h with rfl | h
      · exact List.not_mem_nil
      · exact ih h
    · next hc =>
      rcases List.mem_cons.1 h with rfl | h
      · rw [List.mem_cons, not_or]
        exact ⟨fun he => hc he.symm, ih List.mem_cons_self⟩
      · exact ih (List.mem_cons_of_mem _ h)

/-- A text without separators is one piece. -/
theorem pieces_of_notMem (h : sep ∉ t) : pieces sep t = [t] := by
  induction t with
  | nil => rfl
  | cons c t ih =>
    obtain ⟨hc, ht⟩ : sep ≠ c ∧ sep ∉ t := by simpa using h
    rw [pieces, if_neg (Ne.symm hc), ih ht]

/-- A text of one piece is that piece, which has no separators. -/
theorem pieces_eq_singleton_iff : pieces sep t = [s] ↔ s = t ∧ sep ∉ t := by
  constructor
  · intro h
    have hs : sep ∉ s := notMem_of_mem_pieces (h ▸ List.mem_singleton_self s)
    have ht := intercalate_pieces sep t
    rw [h] at ht
    obtain rfl : s = t := by simpa [List.intercalate] using ht
    exact ⟨rfl, hs⟩
  · rintro ⟨rfl, h⟩
    exact pieces_of_notMem h

end Text

namespace Value

variable {u v : Value} {items : List Value}

/-! ## Nothing is within itself -/

/-- The content of a value is no larger than the value. -/
theorem sizeOf_content_le (v : Value) : sizeOf v.content ≤ sizeOf v := by
  fun_induction content v with
  | case1 c ih =>
    rw [cell.sizeOf_spec]
    omega
  | case2 v h => exact Nat.le_refl _

/-- A property is smaller than the value, unless it is the length of an array. -/
theorem sizeOf_lt_of_property? {key : Text} (h : v.property? key = some u) :
    sizeOf u < sizeOf v ∨ ∃ n, u = number n := by
  have hcontent := sizeOf_content_le v
  unfold property? at h
  split at h
  · next entries he =>
    left
    have hmem := List.sizeOf_lt_of_mem (Entries.mem_of_get?_eq_some h)
    rw [he, object.sizeOf_spec] at hcontent
    rw [Prod.mk.sizeOf_spec] at hmem
    omega
  · next items hi =>
    split at h
    · exact .inr ⟨_, (Option.some.inj h).symm⟩
    · left
      obtain ⟨i, -, hget⟩ := Option.bind_eq_some_iff.1 h
      have hmem := List.sizeOf_lt_of_mem (List.mem_of_getElem? hget)
      rw [hi, array.sizeOf_spec] at hcontent
      omega
  · cases h

/-- An array that keys lead to is smaller than the value that they lead from. -/
theorem sizeOf_lt_of_follow? {keys : List Text} (hne : keys ≠ [])
    (h : follow? keys v = some (array items)) : sizeOf (array items) < sizeOf v := by
  induction keys generalizing v with
  | nil => exact absurd rfl hne
  | cons key rest ih =>
    obtain ⟨u, hu, hrest⟩ := Option.bind_eq_some_iff.1 h
    cases rest with
    | nil =>
      have hcontent : u.content = array items := Option.some.inj hrest
      rcases sizeOf_lt_of_property? hu with hlt | ⟨n, rfl⟩
      · have hle := sizeOf_content_le u
        rw [hcontent] at hle
        omega
      · cases hcontent
    | cons key' rest =>
      rcases sizeOf_lt_of_property? hu with hlt | ⟨n, rfl⟩
      · exact Nat.lt_trans (ih (List.cons_ne_nil _ _) hrest) hlt
      · -- From the length of an array no key leads on.
        have hnumber : ¬ (number n).isContainer = true := Bool.false_ne_true
        rw [follow?, property?_eq_none hnumber] at hrest
        cases hrest

/-- An array is not within itself. -/
theorem follow?_array_eq_self_iff {keys : List Text} :
    follow? keys (array items) = some (array items) ↔ keys = [] := by
  constructor
  · intro h
    by_contra hne
    exact Nat.lt_irrefl _ (sizeOf_lt_of_follow? hne h)
  · rintro rfl
    rfl

/-- A path leads to the items of an array if it leads to the array. -/
theorem resolveArray?_eq_some_iff {path : Text} :
    v.resolveArray? path = some items ↔ v.resolve? path = some (array items) := by
  unfold resolveArray?
  split
  · next items' h => simp [h]
  · next hno => exact ⟨nofun, fun h => absurd h (hno items)⟩

/-! ## An array under a key -/

variable {key : Text}

/-- In an object of one entry only paths that begin with its key lead anywhere. -/
theorem follow?_single (key : Text) (v : Value) (segment : Text) (rest : List Text) :
    follow? (segment :: rest) (object [(key, v)]) =
      if key = segment then follow? rest v else none := by
  rw [follow?]
  show (Entries.get? segment [(key, v)]).bind (follow? rest) = _
  unfold Entries.get?
  split
  · rfl
  · rfl

/-- An array under a key is reached by the key alone, and only if paths can hold the key. -/
theorem resolve?_single_iff {path : Text} :
    (object [(key, array items)]).resolve? path = some (array items) ↔
      path = key ∧ path ≠ [] ∧ '.' ∉ path := by
  unfold resolve?
  split
  · next hpath => simp [hpath]
  · next hpath =>
    obtain ⟨segment, rest, hp⟩ := List.exists_cons_of_ne_nil (Text.pieces_ne_nil '.' path)
    rw [hp, follow?_single, Option.ite_none_right_eq_some, follow?_array_eq_self_iff]
    constructor
    · rintro ⟨rfl, rfl⟩
      obtain ⟨rfl, hpoint⟩ := Text.pieces_eq_singleton_iff.1 hp
      exact ⟨rfl, hpath, hpoint⟩
    · rintro ⟨rfl, -, hpoint⟩
      rw [Text.pieces_of_notMem hpoint] at hp
      obtain ⟨rfl, rfl⟩ := List.cons.inj hp
      exact ⟨rfl, rfl⟩

/-- Under a key with a point nothing is reached, since no segment of a path has one. -/
theorem resolve?_single_of_point (h : '.' ∈ key) (v : Value) (path : Text) :
    (object [(key, v)]).resolve? path = none := by
  unfold resolve?
  split
  · rfl
  · obtain ⟨segment, rest, hp⟩ := List.exists_cons_of_ne_nil (Text.pieces_ne_nil '.' path)
    have hsegment : '.' ∉ segment := Text.notMem_of_mem_pieces (hp ▸ List.mem_cons_self)
    have hne : key ≠ segment := fun he => hsegment (he ▸ h)
    rw [hp, follow?_single, if_neg hne]

end Value

open Value

/-- The context of a document that is an array is an object with the array under the key. -/
theorem jsonContext_array (o : Options) (items : List Json) :
    jsonContext o (.array items) = object [(o.arrayRootKey, array (items.map ofJson))] := by
  rw [jsonContext, ofJson, itemsOfJson_eq_map]

/-- A document that is an array is reached in its context by the key that it is put under and by no
other path, and only if the key is not empty and has no point in it. By any other key nothing is
reached, although the array is there. -/
theorem resolveArray?_jsonContext_iff (o : Options) (items : List Json) :
    (∀ path, (jsonContext o (.array items)).resolveArray? path = some (items.map ofJson) ↔
      path = o.arrayRootKey ∧ path ≠ [] ∧ '.' ∉ path) ∧
    ((jsonContext o (.array items)).resolveArray? o.arrayRootKey = none ↔
      o.arrayRootKey = [] ∨ '.' ∈ o.arrayRootKey) := by
  rw [jsonContext_array]
  have hreached (path : Text) :
      (object [(o.arrayRootKey, array (items.map ofJson))]).resolve? path =
        some (array (items.map ofJson)) ↔ path = o.arrayRootKey ∧ path ≠ [] ∧ '.' ∉ path :=
    resolve?_single_iff
  refine ⟨fun path => resolveArray?_eq_some_iff.trans (hreached path), ?_⟩
  constructor
  · intro hnone
    by_contra hkey
    rw [not_or] at hkey
    have hsome := resolveArray?_eq_some_iff.2 ((hreached o.arrayRootKey).2 ⟨rfl, hkey.1, hkey.2⟩)
    rw [hnone] at hsome
    cases hsome
  · intro hkey
    have hresolve : (object [(o.arrayRootKey, array (items.map ofJson))]).resolve?
        o.arrayRootKey = none := by
      rcases hkey with hempty | hpoint
      · rw [resolve?, if_pos hempty]
      · exact resolve?_single_of_point hpoint _ _
    rw [resolveArray?, hresolve]

/-- Options with the key `a.b`, which are read from a text like any others, leave a list of one item
out of reach. -/
theorem jsonContext_dottedKey_unreached :
    ∃ o, Options.parse "\x7b\"array_root_key\":\"a.b\"\x7d".toList = .ok o ∧
      o.arrayRootKey = ['a', '.', 'b'] ∧
      (jsonContext o (.array [.null])).resolveArray? o.arrayRootKey = none :=
  ⟨{ arrayRootKey := ['a', '.', 'b'] }, rfl, rfl, rfl⟩

end Stencil
