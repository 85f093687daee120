import Stencil.Path

/-!
# Paths in parts

To follow a path is to follow its segments one after another, so a path can be followed in parts
(`Value.resolve?_append`). `ItemAt` says where one segment leads from an array: the length and the
canonical decimal numbers of the places lead somewhere, and nothing else does.

`resolveByWalk` keeps to a walk from node to node, which checks the root only, and reads the numbers
of places as machine words. It comes to the same where arrays have no more items than there are
machine words (`resolveByWalk_eq`). `FollowsInParts` says what is asked of a way to follow paths,
and both ways do it (`resolve?_in_parts`).
-/

namespace Stencil.Value

variable {node : Value} {items : List Value}

/-! ## Paths and their segments -/

/-- From a value keys lead where they lead from its content. -/
theorem follow?_content (keys : List Text) (v : Value) :
    follow? keys v.content = follow? keys v := by
  cases keys with
  | nil => rw [follow?, follow?, content_content]
  | cons key rest => rw [follow?, follow?, property?_content]

/-- A path that is not empty leads where its segments lead. -/
theorem resolve?_of_ne_nil {path : Text} (h : path ≠ []) (context : Value) :
    context.resolve? path = follow? (Text.pieces '.' path) context := if_neg h

/-- After a path the segments of what follows a point are followed. -/
theorem resolve?_append_point {p : Text} (hp : p ≠ []) (q : Text) (context : Value) :
    context.resolve? (p ++ '.' :: q) =
      (context.resolve? p).bind (follow? (Text.pieces '.' q)) := by
  have hpq : p ++ '.' :: q ≠ [] := by simp
  rw [resolve?_of_ne_nil hpq, resolve?_of_ne_nil hp, Text.pieces_append, follow?_append]

/-- A path is followed in parts. -/
theorem resolve?_append {p q : Text} (hp : p ≠ []) (hq : q ≠ []) (context : Value) :
    context.resolve? (p ++ '.' :: q) = (context.resolve? p).bind fun v => v.resolve? q := by
  rw [resolve?_append_point hp]
  exact congrArg _ (funext fun v => (resolve?_of_ne_nil hq v).symm)

/-! ## Segments in arrays -/

/-- What a segment of a path leads to in an array: the length, or what the item holds in the place
whose decimal number it is. -/
inductive ItemAt (items : List Value) : Text → Value → Prop
  | length : ItemAt items lengthKey (number (.ofNat items.length))
  | item {i : Nat} (hi : i < items.length) :
    ItemAt items (Nat.toDigits 10 i) (items[i]).content

/-- The key of the length is no decimal number. -/
theorem lengthKey_ne_toDigits (i : Nat) : lengthKey ≠ Nat.toDigits 10 i := by
  intro h
  have hindex : indexOfKey? lengthKey = some i := indexOfKey?_eq_some_iff.2 h
  exact absurd hindex (by simp [show indexOfKey? lengthKey = none by decide])

/-- A key leads from an array to one of its items or to its length. -/
theorem property?_array_iff {key : Text} {v : Value} (h : node.content = array items) :
    (node.property? key).map content = some v ↔ ItemAt items key v := by
  unfold property?
  rw [h]
  dsimp only
  -- The key of the length is tried first, but it is no number, so nothing is lost by that.
  by_cases hkey : key = lengthKey
  · rw [if_pos hkey, hkey]
    constructor
    · rintro ⟨⟩
      exact .length
    · intro hitem
      generalize hk : lengthKey = k at hitem
      cases hitem with
      | length => rfl
      | item hi => exact absurd hk (lengthKey_ne_toDigits _)
  · rw [if_neg hkey]
    simp only [Option.map_eq_some_iff, Option.bind_eq_some_iff, indexOfKey?_eq_some_iff]
    constructor
    · rintro ⟨u, ⟨i, rfl, hu⟩, rfl⟩
      obtain ⟨hi, rfl⟩ := List.getElem?_eq_some_iff.1 hu
      exact .item hi
    · intro hitem
      cases hitem with
      | length => exact absurd rfl hkey
      | item hi => exact ⟨_, ⟨_, rfl, List.getElem?_eq_getElem hi⟩, rfl⟩

/-- Where a segment leads from an array, and the segments behind it from there. -/
theorem follow?_cons_array_iff {segment : Text} {rest : List Text} {v : Value}
    (h : node.content = array items) :
    follow? (segment :: rest) node = some v ↔
      ∃ u, ItemAt items segment u ∧ follow? rest u = some v := by
  rw [follow?, Option.bind_eq_some_iff]
  constructor
  · rintro ⟨u, hu, hv⟩
    refine ⟨u.content, (property?_array_iff h).1 (congrArg _ hu), ?_⟩
    rwa [follow?_content]
  · rintro ⟨u, hu, hv⟩
    obtain ⟨w, hw, rfl⟩ := Option.map_eq_some_iff.1 ((property?_array_iff h).2 hu)
    exact ⟨w, hw, by rwa [follow?_content] at hv⟩

/-! ## The walk -/

/-- The number that digits stand for, with a plus before them or not, if it is below the limit of
machine words. -/
def wordOf? (limit : Nat) (key : Text) : Option Nat :=
  let digits := if key.head? = some '+' then key.tail else key
  let number := Nat.ofDigitChars 10 digits 0
  if digits ≠ [] ∧ digits.all Char.isDigit = true ∧ number < limit then some number else none

/-- The machine word that a key is the decimal text of. -/
def wordOfKey? (limit : Nat) (key : Text) : Option Nat :=
  (wordOf? limit key).filter fun i => Nat.toDigits 10 i = key

/-- The decimal text of a number below the limit is read as that number. -/
theorem wordOf?_toDigits {limit i : Nat} (h : i < limit) :
    wordOf? limit (Nat.toDigits 10 i) = some i := by
  have hdigit : ∀ c ∈ Nat.toDigits 10 i, c.isDigit = true := fun c hc =>
    Nat.isDigit_of_mem_toDigits (by decide) (by decide) hc
  have hplus : (Nat.toDigits 10 i).head? ≠ some '+' := fun hhead =>
    absurd (hdigit '+' (List.mem_of_mem_head? hhead)) (by decide)
  have hne : Nat.toDigits 10 i ≠ [] := Nat.toDigits_ne_nil
  unfold wordOf?
  rw [if_neg hplus]
  dsimp only
  rw [Nat.ofDigitChars_ten_toDigits, if_pos ⟨hne, List.all_eq_true.2 hdigit, h⟩]

/-- A key is the decimal text of exactly one number, which is a machine word if it is below the
limit. -/
theorem wordOfKey?_eq_some_iff {limit i : Nat} {key : Text} :
    wordOfKey? limit key = some i ↔ indexOfKey? key = some i ∧ i < limit := by
  rw [wordOfKey?, Option.filter_eq_some_iff, indexOfKey?_eq_some_iff, decide_eq_true_eq]
  constructor
  · rintro ⟨hword, hkey⟩
    simp only [wordOf?, Option.ite_none_right_eq_some, Option.some.injEq] at hword
    obtain ⟨⟨-, -, hlimit⟩, hnumber⟩ := hword
    rw [hnumber] at hlimit
    exact ⟨hkey.symm, hlimit⟩
  · rintro ⟨rfl, hi⟩
    exact ⟨wordOf?_toDigits hi, rfl⟩

/-- A number is read with a plus before it, but it is not written so. -/
example :
    wordOf? UInt64.size ['+', '1'] = some 1 ∧ wordOfKey? UInt64.size ['+', '1'] = none := by decide

/-- The property of a node that is not in a cell. -/
def ownProperty? (limit : Nat) : Value → Text → Option Value
  | object entries, key => Entries.get? key entries
  | array items, key =>
    if key = lengthKey then some (number (.ofNat items.length))
    else (wordOfKey? limit key).bind (items[·]?)
  | _, _ => none

/-- What segments lead to, one node after another. -/
def walk (limit : Nat) : List Text → Value → Option Value
  | [], node => some node
  | segment :: rest, node =>
    (ownProperty? limit node segment).bind fun v => walk limit rest v.content

/-- What a path leads to by a walk that begins at a container. -/
def resolveByWalk (limit : Nat) (context : Value) (path : Text) : Option Value :=
  if path = [] then none
  else if context.isContainer then walk limit (Text.pieces '.' path) context.content
  else none

/-- The arrays that keys lead to have no more items than there are machine words. -/
def Addressable (limit : Nat) (v : Value) : Prop :=
  ∀ keys items, follow? keys v = some (array items) → items.length ≤ limit

/-- A value is addressable if its content is. -/
theorem addressable_content {limit : Nat} {v : Value} :
    v.content.Addressable limit ↔ v.Addressable limit := by
  unfold Addressable
  simp only [follow?_content]

/-- A value is addressable if its properties are, and, where it is an array, its items are few
enough. -/
theorem addressable_of_properties {limit : Nat} {v : Value}
    (hlength : ∀ items, v.content = array items → items.length ≤ limit)
    (h : ∀ key w, v.property? key = some w → w.Addressable limit) : v.Addressable limit := by
  intro keys items hkeys
  cases keys with
  | nil => exact hlength items (Option.some.inj hkeys)
  | cons key rest =>
    obtain ⟨w, hw, hrest⟩ := Option.bind_eq_some_iff.1 hkeys
    exact h key w hw rest items hrest

/-- Places that are no machine words are beyond the end of an array, so nothing is lost with
them. -/
theorem ownProperty?_eq {limit : Nat} {v : Value} (h : v.Addressable limit) (key : Text) :
    ownProperty? limit v.content key = v.property? key := by
  have harray := h []
  rw [← property?_content]
  unfold property?
  rw [content_content]
  simp only [follow?, Option.some.injEq] at harray
  generalize v.content = u at harray ⊢
  cases u with
  | array items =>
    have hlength : items.length ≤ limit := harray items rfl
    simp only [ownProperty?]
    congr 1
    ext w
    simp only [Option.bind_eq_some_iff, wordOfKey?_eq_some_iff]
    constructor
    · rintro ⟨i, ⟨hi, -⟩, hw⟩
      exact ⟨i, hi, hw⟩
    · rintro ⟨i, hi, hw⟩
      obtain ⟨hplace, -⟩ := List.getElem?_eq_some_iff.1 hw
      exact ⟨i, ⟨hi, by omega⟩, hw⟩
  | _ => rfl

/-- What a key of an addressable value leads to is addressable. -/
theorem Addressable.property? {limit : Nat} {v w : Value} {key : Text} (h : v.Addressable limit)
    (hw : v.property? key = some w) : w.Addressable limit := by
  intro keys items hkeys
  apply h (key :: keys)
  rw [follow?, hw, Option.bind_some]
  exact hkeys

/-- Segments are followed by the walk. -/
theorem walk_eq {limit : Nat} {segments : List Text} {v : Value} (h : v.Addressable limit) :
    walk limit segments v.content = follow? segments v := by
  induction segments generalizing v with
  | nil => rfl
  | cons segment rest ih =>
    rw [walk, follow?, ownProperty?_eq h]
    exact Option.bind_congr fun w hw => ih (h.property? hw)

/-- Only containers have properties. -/
theorem property?_eq_none {v : Value} (h : ¬ v.isContainer = true) (key : Text) :
    v.property? key = none := by
  unfold isContainer at h
  unfold property?
  generalize v.content = u at h ⊢
  cases u with
  | array items => exact absurd rfl h
  | object entries => exact absurd rfl h
  | _ => rfl

/-- A value without properties is addressable. -/
theorem addressable_of_not_isContainer {limit : Nat} {v : Value} (h : ¬ v.isContainer = true) :
    v.Addressable limit := by
  refine addressable_of_properties (fun items hitems => ?_) fun key w hw => ?_
  · rw [isContainer, hitems] at h
    exact absurd rfl h
  · rw [property?_eq_none h] at hw
    cases hw

/-- An object is addressable if the values of its entries are. -/
theorem addressable_object {limit : Nat} {entries : Entries Value}
    (h : ∀ e ∈ entries, e.2.Addressable limit) : (object entries).Addressable limit :=
  addressable_of_properties nofun fun _ _ hw => h _ (Entries.mem_of_get?_eq_some hw)

/-- An array is addressable if its items are, and few enough. -/
theorem addressable_array {limit : Nat} (hlength : items.length ≤ limit)
    (h : ∀ v ∈ items, v.Addressable limit) : (array items).Addressable limit := by
  refine addressable_of_properties (fun _ hitems => ?_) fun key w hw => ?_
  · obtain rfl := array.inj hitems
    exact hlength
  · have harray : (array items).content = array items := rfl
    have hitem : ItemAt items key w.content := (property?_array_iff harray).1 (congrArg _ hw)
    rw [← addressable_content]
    generalize w.content = u at hitem
    cases hitem with
    | length => exact addressable_of_not_isContainer nofun
    | item hi => exact addressable_content.2 (h _ (List.getElem_mem hi))

/-- A path is followed by the walk. -/
theorem resolveByWalk_eq {limit : Nat} {context : Value} (h : context.Addressable limit)
    (path : Text) : resolveByWalk limit context path = context.resolve? path := by
  unfold resolveByWalk
  split
  · next hpath => rw [resolve?, if_pos hpath]
  · next hpath =>
    rw [resolve?_of_ne_nil hpath]
    split
    · exact walk_eq h
    · next hcontainer =>
      -- A path has at least one segment, and no segment leads away from such a root.
      obtain ⟨segment, rest, hpieces⟩ := List.exists_cons_of_ne_nil (Text.pieces_ne_nil '.' path)
      rw [hpieces, follow?, property?_eq_none hcontainer, Option.bind_none]

/-! ## Paths in contexts -/

/-- What keys of an addressable value lead to is addressable. -/
theorem Addressable.follow? {limit : Nat} {v w : Value} {keys : List Text}
    (h : v.Addressable limit) (hw : follow? keys v = some w) : w.Addressable limit := by
  intro keys' items hitems
  apply h (keys ++ keys')
  rw [follow?_append, hw, Option.bind_some]
  exact hitems

/-- What a path in an addressable context leads to is addressable. -/
theorem Addressable.resolve? {limit : Nat} {context v : Value} {path : Text}
    (h : context.Addressable limit) (hv : context.resolve? path = some v) :
    v.Addressable limit := by
  unfold Value.resolve? at hv
  split at hv
  · cases hv
  · exact h.follow? hv

/-- What a segment leads to in an addressable array is addressable. -/
theorem ItemAt.addressable {limit : Nat} {segment : Text} {u : Value}
    (h : (array items).Addressable limit) (hu : ItemAt items segment u) : u.Addressable limit := by
  have harray : (array items).content = array items := rfl
  obtain ⟨w, hw, rfl⟩ := Option.map_eq_some_iff.1 ((property?_array_iff harray).2 hu)
  exact addressable_content.2 (h.property? hw)

/-- The items of an addressable array are addressable. -/
theorem Addressable.item {limit : Nat} {v : Value} (h : (array items).Addressable limit)
    (hv : v ∈ items) : v.Addressable limit := by
  obtain ⟨i, hi, rfl⟩ := List.getElem_of_mem hv
  exact addressable_content.1 (ItemAt.addressable h (.item hi))

/-- What is asked of a way to follow paths from a context, and of a way to follow segments. -/
structure FollowsInParts (follow : List Text → Value → Option Value)
    (resolve : Value → Text → Option Value) (context : Value) : Prop where
  /-- A path is followed in parts. -/
  append : ∀ p q : Text, p ≠ [] → q ≠ [] →
    resolve context (p ++ '.' :: q) = (resolve context p).bind fun v => resolve v q
  /-- What a path leads to is never a cell. -/
  ne_cell : ∀ (path : Text) (w : Value), resolve context path ≠ some (cell w)
  /-- Where segments of a path lead to an array, the next one leads on exactly if it is the key of
  the length or the decimal number of a place in the array. -/
  array_iff : ∀ (path segment : Text) (before rest : List Text) (items : List Value), path ≠ [] →
    Text.pieces '.' path = before ++ segment :: rest →
    follow before context = some (array items) →
    ∀ v, resolve context path = some v ↔
      ∃ u, ItemAt items segment u ∧ follow rest u = some v

/-- A path is followed in parts, and so it is by the walk where arrays have no more items than there
are machine words. -/
theorem resolve?_in_parts (context : Value) :
    FollowsInParts follow? resolve? context ∧
      ∀ limit, context.Addressable limit →
        FollowsInParts (fun segments v => walk limit segments v.content) (resolveByWalk limit)
          context := by
  have hparts : FollowsInParts follow? resolve? context := by
    refine ⟨fun p q hp hq => resolve?_append hp hq context, resolve?_ne_cell context, ?_⟩
    intro path segment before rest items hpath hpieces hbefore v
    rw [resolve?_of_ne_nil hpath, hpieces, follow?_append, hbefore, Option.bind_some]
    exact follow?_cons_array_iff rfl
  refine ⟨hparts, fun limit h => ⟨fun p q hp hq => ?_, fun path w => ?_, ?_⟩⟩
  · rw [resolveByWalk_eq h, resolveByWalk_eq h, hparts.append p q hp hq]
    exact Option.bind_congr fun v hv => (resolveByWalk_eq (h.resolve? hv) q).symm
  · rw [resolveByWalk_eq h]
    exact hparts.ne_cell path w
  · intro path segment before rest items hpath hpieces hbefore v
    rw [walk_eq h] at hbefore
    rw [resolveByWalk_eq h, hparts.array_iff path segment before rest items hpath hpieces hbefore]
    refine exists_congr fun u => and_congr_right fun hu => ?_
    rw [walk_eq (hu.addressable (h.follow? hbefore))]

/-- An object with an empty key. -/
def emptyKeyed : Value := object [([], object [(['k'], text ['x'])])]

/-- A list in cells, with the object in a cell in its second place. -/
def listInCells : Value := cell (object [(['l'], cell (array [null, cell emptyKeyed]))])

/-- The list and the object are addressable with words of 64 bits. -/
theorem addressable_listInCells : listInCells.Addressable UInt64.size := by
  have hkeyed : emptyKeyed.Addressable UInt64.size :=
    addressable_object (List.forall_mem_singleton.2
      (addressable_object (List.forall_mem_singleton.2 (addressable_of_not_isContainer nofun))))
  have hlist : (array [null, cell emptyKeyed]).Addressable UInt64.size :=
    addressable_array (by decide) (List.forall_mem_cons.2
      ⟨addressable_of_not_isContainer nofun,
        List.forall_mem_singleton.2 (addressable_content.1 hkeyed)⟩)
  exact addressable_content.1
    (addressable_object (List.forall_mem_singleton.2 (addressable_content.1 hlist)))

/-- `l.1..k` is followed from `l.1` along `.k`, which begins with the empty key, and the walk
follows it likewise. There is no place `01`. -/
theorem resolve?_listInCells :
    listInCells.Addressable UInt64.size ∧
      listInCells.resolve? ['l', '.', '1'] = some emptyKeyed ∧
      listInCells.resolve? ['l', '.', '1', '.', '.', 'k'] = some (text ['x']) ∧
      resolveByWalk UInt64.size listInCells ['l', '.', '1', '.', '.', 'k'] = some (text ['x']) ∧
      listInCells.resolve? ['l', '.', '0', '1'] = none := by
  obtain ⟨hparts, hwalks⟩ := resolve?_in_parts listInCells
  have hwalk := hwalks _ addressable_listInCells
  have hfollow : follow? [['l']] listInCells = some (array [null, cell emptyKeyed]) := rfl
  have hone : listInCells.resolve? ['l', '.', '1'] = some emptyKeyed :=
    (hparts.array_iff ['l', '.', '1'] ['1'] [['l']] [] _ (by decide) (by decide) hfollow _).2
      ⟨emptyKeyed, .item (i := 1) (by decide), rfl⟩
  refine ⟨addressable_listInCells, hone, ?_, ?_, ?_⟩
  · calc listInCells.resolve? ['l', '.', '1', '.', '.', 'k']
        = (listInCells.resolve? ['l', '.', '1']).bind fun v => v.resolve? ['.', 'k'] :=
          hparts.append ['l', '.', '1'] ['.', 'k'] (by decide) (by decide)
      _ = emptyKeyed.resolve? ['.', 'k'] := by rw [hone, Option.bind_some]
      _ = some (text ['x']) := rfl
  · calc resolveByWalk UInt64.size listInCells ['l', '.', '1', '.', '.', 'k']
        = (resolveByWalk UInt64.size listInCells ['l', '.', '1']).bind fun v =>
            resolveByWalk UInt64.size v ['.', 'k'] :=
          hwalk.append ['l', '.', '1'] ['.', 'k'] (by decide) (by decide)
      _ = some (text ['x']) := rfl
  · rw [Option.eq_none_iff_forall_ne_some]
    intro v hv
    obtain ⟨u, hu, -⟩ := (hparts.array_iff ['l', '.', '0', '1'] ['0', '1'] [['l']] [] _ (by decide)
      (by decide) hfollow v).1 hv
    generalize hkey : ['0', '1'] = key at hu
    cases hu with
    | length => cases hkey
    | item hi =>
      have hnone : indexOfKey? ['0', '1'] = none := by decide
      exact absurd (indexOfKey?_eq_some_iff.2 hkey) (by simp [hnone])

end Stencil.Value
