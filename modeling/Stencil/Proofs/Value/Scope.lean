import Mathlib.Data.List.Nodup
import Stencil.Proofs.Number.Exact
import Stencil.Proofs.Value.Alike
import Stencil.Proofs.Value.Path
import Stencil.Scope

/-!
# What the scope of an item shows

The scope of an item is its own entries with three more set over them (`itemScope_eq`). An object
keeps its entries, and the entries of an array have the decimal numbers of its places as keys
(`get?_indexedEntries`); so a property of the item and of its scope is the same, but for the length
of an array and the three keys (`property?_itemScope`). `itemScope_shows` says this of paths, and
gives the keys of the scope with their order.
-/

namespace Stencil

/-! ## Entries set over others -/

namespace Entries

variable {α : Type} {es new : Entries α}

/-- The entries with those of another list set over them, one after another. -/
def setAll (new : List (Text × α)) (es : Entries α) : Entries α :=
  new.foldl (fun acc e => set e.1 e.2 acc) es

/-- The first entry is set first. -/
theorem setAll_cons (e : Text × α) (new : List (Text × α)) (es : Entries α) :
    setAll (e :: new) es = setAll new (set e.1 e.2 es) := rfl

/-- A key that is set has the new value, and all others have what they had. -/
theorem get?_setAll (hnew : (keys new).Nodup) (key : Text) (es : Entries α) :
    get? key (setAll new es) = (get? key new).or (get? key es) := by
  induction new generalizing es with
  | nil => rfl
  | cons e rest ih =>
    obtain ⟨k, v⟩ := e
    obtain ⟨hk, hrest⟩ := List.nodup_cons.1 hnew
    rw [setAll_cons, ih hrest, get?]
    split
    · next h =>
      -- The key is set here and not again, since it is not among the rest.
      subst h
      rw [get?_eq_none_iff.2 hk, get?_set_self, Option.none_or, Option.some_or]
    · next h => rw [get?_set_of_ne v es (Ne.symm h)]

/-- Setting a key adds it at the end, unless it is there. -/
theorem keys_set (key : Text) (value : α) (es : Entries α) :
    keys (set key value es) = keys es ++ [key].filter (· ∉ keys es) := by
  by_cases h : key ∈ keys es
  · simp [keys_set_of_mem value h, h]
  · simp [keys_set_of_notMem value h, h]

/-- Keys that are set are added at the end in their order, but for those that are there. -/
theorem keys_setAll (hnew : (keys new).Nodup) (es : Entries α) :
    keys (setAll new es) = keys es ++ (keys new).filter (· ∉ keys es) := by
  induction new generalizing es with
  | nil => exact (List.append_nil _).symm
  | cons e rest ih =>
    obtain ⟨k, v⟩ := e
    obtain ⟨hk, hrest⟩ := List.nodup_cons.1 hnew
    have hothers : (keys rest).filter (· ∉ keys (set k v es)) =
        (keys rest).filter (· ∉ keys es) := by
      refine List.filter_congr fun l hl => ?_
      have hne : l ≠ k := fun h => hk (h ▸ hl)
      simp [keys_set, hne]
    rw [setAll_cons, ih hrest, hothers, keys_set, List.append_assoc, ← List.filter_append]
    rfl

/-- Keys stay distinct when others are set. -/
theorem nodup_keys_setAll (hnew : (keys new).Nodup) (hes : (keys es).Nodup) :
    (keys (setAll new es)).Nodup := by
  rw [keys_setAll hnew]
  refine List.nodup_append.2 ⟨hes, hnew.filter _, fun k hk l hl h => ?_⟩
  obtain ⟨-, hnot⟩ := List.mem_filter.1 hl
  exact of_decide_eq_true hnot (h ▸ hk)

end Entries

/-! ## Own entries -/

/-- The keys of items are the numbers of their places. -/
theorem keys_indexedEntries (index : Nat) (items : List Value) :
    Entries.keys (indexedEntries index items) =
      (List.range' index items.length).map (Nat.toDigits 10) := by
  induction items generalizing index with
  | nil => rfl
  | cons v rest ih =>
    rw [List.length_cons, List.range'_succ, List.map_cons, ← ih]
    rfl

/-- The entry with a key is the item in the place with that number. -/
theorem get?_indexedEntries (index : Nat) (items : List Value) (key : Text) :
    Entries.get? key (indexedEntries index items) =
      (indexOfKey? key).bind fun i => if index ≤ i then items[i - index]? else none := by
  induction items generalizing index with
  | nil => cases indexOfKey? key <;> simp [indexedEntries, Entries.get?]
  | cons v rest ih =>
    rw [indexedEntries, Entries.get?]
    split
    · next h =>
      rw [indexOfKey?_eq_some_iff.2 h.symm]
      simp
    · next h =>
      rw [ih]
      refine Option.bind_congr fun i hi => ?_
      -- The place is not the first one, so it is counted from the next.
      have hne : i ≠ index := fun heq => h (heq ▸ (indexOfKey?_eq_some_iff.1 hi).symm)
      rcases Nat.lt_or_ge i index with hlt | hge
      · rw [if_neg (by omega), if_neg (by omega)]
      · rw [if_pos (by omega), if_pos hge]
        obtain ⟨d, rfl⟩ := Nat.exists_eq_add_of_lt (Nat.lt_of_le_of_ne hge (Ne.symm hne))
        rw [show index + d + 1 - (index + 1) = d by omega,
          show index + d + 1 - index = d + 1 by omega, List.getElem?_cons_succ]

namespace Value

variable {item : Value}

/-- The keys under which a value has properties of its own, in their order. -/
def ownKeys (v : Value) : List Text :=
  match v.content with
  | object entries => Entries.keys entries
  | array items => (List.range items.length).map (Nat.toDigits 10)
  | _ => []

/-- The own entries of a value have its own keys. -/
theorem keys_ownEntries (v : Value) : Entries.keys v.ownEntries = v.ownKeys := by
  unfold ownEntries ownKeys
  cases v.content with
  | array items =>
    dsimp only
    rw [keys_indexedEntries, List.range_eq_range']
  | _ => rfl

/-- No value has an own key twice. -/
theorem nodup_ownKeys (hitem : item.KeysDistinct) : item.ownKeys.Nodup := by
  rw [← keysDistinct_content] at hitem
  unfold ownKeys
  generalize item.content = v at hitem ⊢
  cases v with
  | object entries => exact hitem.1
  | array items =>
    refine List.nodup_range.map fun i j (hij : Nat.toDigits 10 i = Nat.toDigits 10 j) => ?_
    have hj : indexOfKey? (Nat.toDigits 10 i) = some j := indexOfKey?_eq_some_iff.2 hij
    exact Option.some.inj ((indexOfKey?_eq_some_iff.2 rfl).symm.trans hj)
  | _ => exact List.nodup_nil

/-- Whether what a value holds is an array. -/
def HoldsArray (v : Value) : Prop := ∃ items, v.content = array items

/-- The own entries of a value are its properties, but for the length of an array. -/
theorem get?_ownEntries {key : Text} (hlength : item.HoldsArray → key ≠ lengthKey) :
    Entries.get? key item.ownEntries = item.property? key := by
  unfold HoldsArray at hlength
  unfold ownEntries property?
  generalize item.content = v at hlength ⊢
  cases v with
  | array items =>
    dsimp only
    rw [get?_indexedEntries, if_neg (hlength ⟨items, rfl⟩)]
    simp
  | _ => rfl

end Value

/-! ## Scopes -/

/-- What a scope tells of the place of its item. -/
def placeEntries (index length : Nat) : Entries Value :=
  [(indexKey, .number (.ofNat index)), (firstKey, .bool (index == 0)),
    (lastKey, .bool (index + 1 == length))]

/-- The keys that tell of the place of an item. -/
def placeKeys : List Text := [indexKey, firstKey, lastKey]

/-- The keys that tell of the place are distinct. -/
theorem nodup_keys_placeEntries (index length : Nat) :
    (Entries.keys (placeEntries index length)).Nodup :=
  show placeKeys.Nodup by decide

/-- A scope is made of the entries of its item and of those for its place. -/
theorem itemScope_eq (item : Value) (index length : Nat) :
    itemScope item index length =
      .object (Entries.setAll (placeEntries index length) item.ownEntries) := rfl

namespace Value

variable {item : Value} {index length : Nat} {key : Text}

/-- A scope has the properties of its place. -/
theorem property?_itemScope_of_place {v : Value}
    (h : Entries.get? key (placeEntries index length) = some v) :
    (itemScope item index length).property? key = some v := by
  rw [itemScope_eq]
  show Entries.get? key (Entries.setAll _ _) = some v
  rw [Entries.get?_setAll (nodup_keys_placeEntries index length), h, Option.some_or]

/-- All other properties of a scope are those of its item. -/
theorem property?_itemScope (hkey : key ∉ placeKeys) (hlength : item.HoldsArray → key ≠ lengthKey) :
    (itemScope item index length).property? key = item.property? key := by
  have hnone : Entries.get? key (placeEntries index length) = none :=
    Entries.get?_eq_none_iff.2 hkey
  rw [itemScope_eq, ← get?_ownEntries hlength]
  show Entries.get? key (Entries.setAll _ _) = _
  rw [Entries.get?_setAll (nodup_keys_placeEntries index length), hnone, Option.none_or]

/-- The keys for the place are paths to what a scope tells of the place. -/
theorem resolve?_itemScope_of_place {v : Value} (hkey : key ∈ placeKeys)
    (h : Entries.get? key (placeEntries index length) = some v) :
    (itemScope item index length).resolve? key = some v.content := by
  -- There is no point in these keys.
  have hpaths : ∀ key ∈ placeKeys, key ≠ [] ∧ Text.pieces '.' key = [key] := by decide
  obtain ⟨hne, hpieces⟩ := hpaths key hkey
  rw [resolve?_of_ne_nil hne, hpieces, follow?, property?_itemScope_of_place h]
  rfl

end Value

/-- The scope of an item shows what the item shows, its place in the array, and nothing else. A path
that does not begin with a key for the place, or with the length of an array, leads where it leads
from the item, which is nowhere if the item has no properties. The keys for the place lead to the
place whatever the item has, and the number of the place is exact up to 53 bits. The keys of the
scope are those of the item in their order, followed by the keys for the place that are not among
them. -/
theorem itemScope_shows {item : Value} {index length : Nat} (hitem : item.KeysDistinct)
    (hindex : index < length) :
    (∀ path : Text, path ≠ [] →
      (∀ key ∈ (Text.pieces '.' path).head?,
        key ∉ placeKeys ∧ (item.HoldsArray → key ≠ lengthKey)) →
      (itemScope item index length).resolve? path = item.resolve? path ∧
        (item.isContainer = false → item.resolve? path = none)) ∧
      ((itemScope item index length).resolve? indexKey = some (.number (.ofNat index)) ∧
        (itemScope item index length).resolve? firstKey = some (.bool (index == 0)) ∧
        (itemScope item index length).resolve? lastKey = some (.bool (index == length - 1))) ∧
      (index ≤ twoTo 53 →
        (Number.ofNat index).position = some ((index * Magnitude.unitsInOne : Nat) : Int)) ∧
      ∃ entries, itemScope item index length = .object entries ∧
        Entries.keys entries = item.ownKeys ++ placeKeys.filter (· ∉ item.ownKeys) ∧
        (Entries.keys entries).Nodup := by
  refine ⟨fun path hpath hfirst => ?_, ⟨?_, ?_, ?_⟩, Number.position_ofNat, _,
    itemScope_eq item index length, ?_, ?_⟩
  · obtain ⟨key, rest, hpieces⟩ := List.exists_cons_of_ne_nil (Text.pieces_ne_nil '.' path)
    rw [hpieces] at hfirst
    obtain ⟨hplace, hlength⟩ := hfirst key rfl
    rw [Value.resolve?_of_ne_nil hpath, Value.resolve?_of_ne_nil hpath, hpieces, Value.follow?,
      Value.follow?, Value.property?_itemScope hplace hlength]
    refine ⟨rfl, fun hcontainer => ?_⟩
    rw [Value.property?_eq_none (by simp [hcontainer]), Option.bind_none]
  · exact Value.resolve?_itemScope_of_place (v := .number (.ofNat index)) (by decide) rfl
  · exact Value.resolve?_itemScope_of_place (v := .bool (index == 0)) (by decide) rfl
  · have hlast : (index + 1 == length) = (index == length - 1) := by
      rw [Bool.eq_iff_iff, beq_iff_eq, beq_iff_eq]
      omega
    rw [← hlast]
    exact Value.resolve?_itemScope_of_place (v := .bool (index + 1 == length)) (by decide) rfl
  · rw [Entries.keys_setAll (nodup_keys_placeEntries index length), Value.keys_ownEntries]
    rfl
  · refine Entries.nodup_keys_setAll (nodup_keys_placeEntries index length) ?_
    rw [Value.keys_ownEntries]
    exact Value.nodup_ownKeys hitem

/-- An object in a cell that has a list, and something of its own under the last of the keys for the
place. -/
def markedItem : Value :=
  .cell (.object [(lastKey, .text ['x']), (['l'], .cell (.array [.null, .text ['y']]))])

/-- The list is found in the scope. The key of the object keeps its position, but it tells of the
place of the object, which is the first of two. -/
theorem itemScope_shows_markedItem :
    (markedItem.KeysDistinct ∧ 0 < 2) ∧
      (itemScope markedItem 0 2).resolve? ['l', '.', '1'] = some (.text ['y']) ∧
      (itemScope markedItem 0 2).resolve? lastKey = some (.bool false) ∧
      ∃ entries, itemScope markedItem 0 2 = .object entries ∧
        Entries.keys entries = [lastKey, ['l'], indexKey, firstKey] := by
  have hdistinct : markedItem.KeysDistinct := by
    simp [markedItem, Value.KeysDistinct, Value.ItemsDistinct, Value.EntriesDistinct, Entries.keys,
      lastKey]
  obtain ⟨hpaths, ⟨-, -, hlast⟩, -, entries, hscope, hkeys, -⟩ :=
    itemScope_shows hdistinct (show 0 < 2 by decide)
  have hfirst : ∀ key ∈ (Text.pieces '.' ['l', '.', '1']).head?,
      key ∉ placeKeys ∧ (markedItem.HoldsArray → key ≠ lengthKey) := by
    rintro key ⟨⟩
    exact ⟨by decide, fun _ => by decide⟩
  obtain ⟨hlist, -⟩ := hpaths ['l', '.', '1'] (by decide) hfirst
  exact ⟨⟨hdistinct, by decide⟩, hlist.trans rfl, hlast, entries, hscope, hkeys.trans (by decide)⟩

end Stencil
