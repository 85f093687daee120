import Mathlib.Logic.Relation
import Stencil.Proofs.Value.Readers

/-!
# Equality of values as a relation

`Value.equals` is symmetric and transitive, but not reflexive: a value is equal to itself exactly if
`nan` stands nowhere in it (`equals_self_iff`). It does not see what `Reshaped` does to a value,
which is to put a node of it into a cell or to change the order of the keys of an object in it; and
what is equal is read alike in all other ways as well (`equals_partial_equivalence`).

Equality is carried back to twins. Equal values are twins (`Twins.of_equals`), and twins compare
alike with everything, which gives symmetry and transitivity at once. In all of this the keys of
objects are distinct.
-/

namespace Stencil.Value

variable {u v w : Value}

/-! ## Equivalent values -/

/-- Arrays with equivalent items are equivalent. -/
theorem equivalent_array {xs ys : List Value} (h : List.Forall₂ Equivalent xs ys) :
    (array xs).Equivalent (array ys) := by
  refine ⟨plainItems ys, rfl, itemsAlike_iff.2 ?_⟩
  rw [plainItems_eq_map, plainItems_eq_map, List.forall₂_map_left_iff, List.forall₂_map_right_iff]
  exact h

/-- Objects are equivalent if the entries of one, put in some order, agree with those of the
other. -/
theorem equivalent_object {xs ys zs : List (Text × Value)} (hperm : ys.Perm zs)
    (h : Entries.Agree Equivalent xs zs) : (object xs).Equivalent (object ys) := by
  have hplain : (plainEntries ys).Perm (plainEntries zs) := by
    rw [plainEntries_eq_map, plainEntries_eq_map]
    exact hperm.map _
  refine ⟨plainEntries ys, plainEntries zs, rfl, hplain, entriesAlike_iff.2 ?_⟩
  unfold Entries.Agree
  rw [plainEntries_eq_map, plainEntries_eq_map, List.forall₂_map_left_iff,
    List.forall₂_map_right_iff]
  exact h

/-- Every value is equivalent to itself. -/
theorem equivalent_refl (v : Value) : v.Equivalent v := by
  induction v using Value.induction with
  | null => rfl
  | bool b => rfl
  | number n => exact ⟨n, rfl, .inl rfl⟩
  | text t => rfl
  | array items ih => exact equivalent_array (List.forall₂_same.2 ih)
  | object entries ih =>
    refine equivalent_object (.refl entries) (List.forall₂_same.2 ?_)
    exact fun e he => ⟨rfl, ih e he⟩
  | cell v ih => exact ih

/-- A value with distinct keys is its own twin. -/
theorem twins_refl (hv : v.KeysDistinct) : v.Twins v := ⟨hv, equivalent_refl v⟩

/-- Equal values are twins. -/
theorem Twins.of_equals (hv : v.KeysDistinct) (h : v.equals w = true) : v.Twins w :=
  ⟨hv, equivalent_of_equals hv h⟩

/-! ## A partial equivalence -/

/-- What is equal one way is equal the other way. -/
theorem equals_swap (hv : v.KeysDistinct) (h : v.equals w = true) : w.equals v = true := by
  -- Both `v` and `w` are twins of `v`, so either side can be taken for the other.
  have hself := twins_refl hv
  have htwins := Twins.of_equals hv h
  calc w.equals v = v.equals v := (htwins.equals_eq hself).symm
    _ = v.equals w := hself.equals_eq htwins
    _ = true := h

/-- Equality has no direction. -/
theorem equals_comm (hv : v.KeysDistinct) (hw : w.KeysDistinct) : v.equals w = w.equals v :=
  Bool.eq_iff_iff.2 ⟨equals_swap hv, equals_swap hw⟩

/-- What is equal to an equal is equal. -/
theorem equals_trans (hu : u.KeysDistinct) (hw : w.KeysDistinct) (h : u.equals v = true)
    (h' : v.equals w = true) : u.equals w = true := by
  rw [(Twins.of_equals hu h).equals_eq (twins_refl hw)]
  exact h'

/-! ## Values that are not equal to themselves -/

/-- A value stands in another one: it is that value, or it stands in an item of it, in the value of
an entry, or in what a cell holds. -/
inductive Within (node : Value) : Value → Prop
  | self : Within node node
  | item {items : List Value} {v : Value} (hv : v ∈ items) (h : Within node v) :
    Within node (array items)
  | entry {entries : List (Text × Value)} {e : Text × Value} (he : e ∈ entries)
    (h : Within node e.2) : Within node (object entries)
  | cell {v : Value} (h : Within node v) : Within node (cell v)

/-- A number stands in an array if it stands in one of the items. -/
theorem number_within_array_iff {n : Number} {items : List Value} :
    (number n).Within (array items) ↔ ∃ v ∈ items, (number n).Within v := by
  constructor
  · intro h
    cases h with
    | item hv h => exact ⟨_, hv, h⟩
  · rintro ⟨v, hv, h⟩
    exact .item hv h

/-- A number stands in an object if it stands in the value of one of the entries. -/
theorem number_within_object_iff {n : Number} {entries : List (Text × Value)} :
    (number n).Within (object entries) ↔ ∃ e ∈ entries, (number n).Within e.2 := by
  constructor
  · intro h
    cases h with
    | entry he h => exact ⟨_, he, h⟩
  · rintro ⟨e, he, h⟩
    exact .entry he h

/-- A value is equal to itself exactly if `nan` does not stand in it. -/
theorem equals_self_iff (hv : v.KeysDistinct) :
    v.equals v = true ↔ ¬ (number .nan).Within v := by
  induction v using Value.induction with
  | null =>
    have hnot : ¬ (number .nan).Within null := fun h => by cases h
    simp [equals, content, hnot]
  | bool b =>
    have hnot : ¬ (number .nan).Within (bool b) := fun h => by cases h
    simp [equals, content, hnot]
  | text t =>
    have hnot : ¬ (number .nan).Within (text t) := fun h => by cases h
    simp [equals, content, hnot]
  | number n =>
    have hplace : n.equals n = true ↔ n ≠ .nan := by
      rw [Number.equals_iff]
      cases n <;> simp [Number.position]
    have hwithin : (number .nan).Within (number n) ↔ n = .nan := by
      constructor
      · intro h
        cases h
        rfl
      · rintro rfl
        exact .self
    simp only [equals, content]
    rw [hplace, hwithin]
  | array items ih =>
    rw [KeysDistinct, itemsDistinct_iff] at hv
    simp only [equals, content]
    rw [itemsEqual_iff, List.forall₂_same, number_within_array_iff]
    simp only [not_exists, not_and]
    exact forall₂_congr fun x hx => ih x hx (hv x hx)
  | object entries ih =>
    obtain ⟨hkeys, hvalues⟩ := hv
    rw [entriesDistinct_iff] at hvalues
    -- Since the keys are distinct, each entry is compared with itself.
    have hget (e : Text × Value) (he : e ∈ entries) : Entries.get? e.1 entries = some e.2 :=
      (Entries.get?_eq_some_iff hkeys).2 he
    simp only [equals, content, beq_self_eq_true, Bool.true_and]
    rw [entriesWithin_iff, number_within_object_iff]
    simp only [not_exists, not_and]
    refine forall₂_congr fun e he => ?_
    rw [hget e he, ← ih e he (hvalues e he)]
    simp
  | cell v ih =>
    have hwithin : (number .nan).Within (cell v) ↔ (number .nan).Within v := by
      constructor
      · intro h
        cases h with
        | cell h => exact h
      · exact .cell
    rw [equals_cell_left, ← equals_content_right, content_cell, equals_content_right, hwithin]
    exact ih hv

/-! ## What equality does not see -/

/-- One value becomes another when a node of it is put into a cell, or when the entries of an object
in it are put into another order. -/
inductive Reshaped : Value → Value → Prop
  | wrap (v : Value) : Reshaped v (cell v)
  | reorder {xs ys : List (Text × Value)} (h : xs.Perm ys) : Reshaped (object xs) (object ys)
  | item (before after : List Value) {v w : Value} (h : Reshaped v w) :
    Reshaped (array (before ++ v :: after)) (array (before ++ w :: after))
  | entry (before after : List (Text × Value)) (k : Text) {v w : Value} (h : Reshaped v w) :
    Reshaped (object (before ++ (k, v) :: after)) (object (before ++ (k, w) :: after))
  | inside {v w : Value} (h : Reshaped v w) : Reshaped (cell v) (cell w)

/-- A list with one part changed agrees with what it was. -/
theorem forall₂_middle {α : Type} {r : α → α → Prop} (hr : ∀ a, r a a) (before after : List α)
    {a b : α} (h : r a b) : List.Forall₂ r (before ++ a :: after) (before ++ b :: after) := by
  have hself (l : List α) : List.Forall₂ r l l := List.forall₂_same.2 fun x _ => hr x
  exact List.rel_append (hself before) (.cons h (hself after))

/-- A reshaped value is equivalent to what it was. -/
theorem Reshaped.equivalent (h : v.Reshaped w) : v.Equivalent w := by
  induction h with
  | wrap v => exact equivalent_refl v
  | @reorder xs ys hperm =>
    exact equivalent_object hperm.symm (List.forall₂_same.2 fun e _ => ⟨rfl, equivalent_refl e.2⟩)
  | item before after _ ih =>
    exact equivalent_array (forall₂_middle equivalent_refl before after ih)
  | entry before after k _ ih =>
    refine equivalent_object (.refl _) (forall₂_middle ?_ before after ⟨rfl, ih⟩)
    exact fun e => ⟨rfl, equivalent_refl e.2⟩
  | inside _ ih => exact ih

/-- The keys of a reshaped value are distinct if they were. -/
theorem Reshaped.keysDistinct (h : v.Reshaped w) (hv : v.KeysDistinct) : w.KeysDistinct := by
  induction h with
  | wrap v => exact hv
  | @reorder xs ys hperm =>
    obtain ⟨hkeys, hvalues⟩ := hv
    rw [entriesDistinct_iff] at hvalues
    refine ⟨(hperm.map Prod.fst).nodup_iff.1 hkeys, entriesDistinct_iff.2 ?_⟩
    exact fun e he => hvalues e (hperm.mem_iff.2 he)
  | item before after _ ih =>
    rw [KeysDistinct, itemsDistinct_iff, List.forall_mem_append, List.forall_mem_cons] at hv ⊢
    exact ⟨hv.1, ih hv.2.1, hv.2.2⟩
  | entry before after k _ ih =>
    obtain ⟨hkeys, hvalues⟩ := hv
    rw [entriesDistinct_iff, List.forall_mem_append, List.forall_mem_cons] at hvalues
    refine ⟨by simpa [Entries.keys] using hkeys, entriesDistinct_iff.2 ?_⟩
    rw [List.forall_mem_append, List.forall_mem_cons]
    exact ⟨hvalues.1, ih hvalues.2.1, hvalues.2.2⟩
  | inside _ ih => exact ih hv

/-- A value that has been reshaped compares as it did, however often that was. -/
theorem equals_of_reshaped_left {v' : Value} (hv : v.KeysDistinct) (hw : w.KeysDistinct)
    (h : Relation.ReflTransGen Reshaped v v') :
    v'.KeysDistinct ∧ v'.equals w = v.equals w := by
  induction h with
  | refl => exact ⟨hv, rfl⟩
  | tail _ hstep ih =>
    -- The keys are still distinct before the step, so that the step leads to a twin.
    obtain ⟨hkeys, hequal⟩ := ih
    have htwins : Twins _ _ := ⟨hkeys, hstep.equivalent⟩
    refine ⟨hstep.keysDistinct hkeys, ?_⟩
    rw [← htwins.equals_eq (twins_refl hw)]
    exact hequal

/-- However often both sides are reshaped, they compare as they did. -/
theorem equals_of_reshaped {v' w' : Value} (hv : v.KeysDistinct) (hw : w.KeysDistinct)
    (h : Relation.ReflTransGen Reshaped v v') (h' : Relation.ReflTransGen Reshaped w w') :
    v'.equals w' = v.equals w := by
  obtain ⟨hw', hright⟩ := equals_of_reshaped_left hw hv h'
  obtain ⟨-, hleft⟩ := equals_of_reshaped_left hv hw' h
  calc v'.equals w' = v.equals w' := hleft
    _ = w'.equals v := equals_comm hv hw'
    _ = w.equals v := hright
    _ = v.equals w := equals_comm hw hv

/-! ## Loose equality of values of one kind -/

/-- Two values of one kind, which loose equality compares without a conversion. -/
inductive SameKind : Value → Value → Prop
  | bool (a b : Bool) : SameKind (bool a) (bool b)
  | number (a b : Number) : SameKind (number a) (number b)
  | text (s t : Text) : SameKind (text s) (text t)
  | containers {v w : Value} (hv : v.isContainer = true) (hw : w.isContainer = true) : SameKind v w

/-- A value has properties if its content has. -/
theorem isContainer_content (v : Value) : v.content.isContainer = v.isContainer := by
  rw [isContainer, content_content, isContainer]

/-- A value has the truth of its content. -/
theorem isTruthy_content (v : Value) : v.content.isTruthy = v.isTruthy := by
  rw [isTruthy, content_content, isTruthy]

/-- A value is converted as its content. -/
theorem scalar?_content (v : Value) : v.content.scalar? = v.scalar? := by
  rw [scalar?, content_content, scalar?]

/-- Loose equality looks through cells. -/
theorem looselyEqual_content (v w : Value) :
    looselyEqual (some v.content) (some w.content) = looselyEqual (some v) (some w) := by
  simp only [looselyEqual, isContainer_content, scalar?_content, equals_content_left,
    equals_content_right]

/-- Values of one kind are loosely equal when they are equal. -/
theorem looselyEqual_of_sameKind (h : v.content.SameKind w.content) :
    looselyEqual (some v) (some w) = v.equals w := by
  -- Both functions look through cells, so only the contents matter.
  rw [← looselyEqual_content, ← equals_content_left v, ← equals_content_right]
  generalize v.content = v at h ⊢
  generalize w.content = w at h ⊢
  cases h with
  | bool a b => cases a <;> cases b <;> decide +kernel
  | number a b => rfl
  | text s t => rfl
  | containers hv hw => simp only [looselyEqual, hv, hw, Bool.and_self, if_true]

/-- The contents of twins are of one kind, unless they are both `null`. -/
theorem TwinContents.sameKind (h : TwinContents v w) : (v = .null ∧ w = .null) ∨ v.SameKind w := by
  cases h with
  | null => exact .inl ⟨rfl, rfl⟩
  | bool b => exact .inr (.bool b b)
  | number _ => exact .inr (.number _ _)
  | text t => exact .inr (.text t t)
  | array _ => exact .inr (.containers rfl rfl)
  | object _ _ _ => exact .inr (.containers rfl rfl)

/-- Equal values are loosely equal. -/
theorem looselyEqual_of_equals (hv : v.KeysDistinct) (h : v.equals w = true) :
    looselyEqual (some v) (some w) = true := by
  rcases (Twins.of_equals hv h).content.sameKind with ⟨hv', hw'⟩ | hkind
  · rw [← looselyEqual_content, hv', hw']
    rfl
  · rw [looselyEqual_of_sameKind hkind]
    exact h

/-- Equality of values is symmetric and transitive, and holds of a value and itself exactly if `nan`
stands nowhere in it. Cells and the order of keys do not show in it, wherever they stand, and what
is equal has the same text and the same truth and is loosely equal. -/
theorem equals_partial_equivalence (hu : u.KeysDistinct) (hv : v.KeysDistinct)
    (hw : w.KeysDistinct) :
    (v.equals w = w.equals v ∧ (u.equals v = true → v.equals w = true → u.equals w = true)) ∧
      (v.equals v = true ↔ ¬ (number .nan).Within v) ∧
      (∀ v' w' : Value, Relation.ReflTransGen Reshaped v v' →
        Relation.ReflTransGen Reshaped w w' → v'.equals w' = v.equals w) ∧
      (v.equals w = true → v.display = w.display ∧ v.isTruthy = w.isTruthy ∧
        looselyEqual (some v) (some w) = true) := by
  refine ⟨⟨equals_comm hv hw, equals_trans hu hw⟩, equals_self_iff hv,
    fun v' w' => equals_of_reshaped hv hw, fun h => ?_⟩
  have htwins := Twins.of_equals hv h
  refine ⟨htwins.display_eq, ?_, looselyEqual_of_equals hv h⟩
  rw [← isTruthy_content v, ← isTruthy_content w]
  exact htwins.content.isTruthy_eq

/-- An object with a zero and a text in a list. -/
def listAndNull : Value :=
  object [(['l'], array [number .zero, text ['x']]), (['n'], null)]

/-- The list with the other zero, in a cell. -/
def otherList : Value := array [cell (number (.negate .zero)), text ['x']]

/-- The object with the other list, with cells and with its keys in the other order. -/
def nullAndList : Value := cell (object [(['n'], cell (cell null)), (['l'], otherList)])

/-- The two objects are equal both ways, and also after one of them has been put into a cell and the
keys of the other one have been put in order. -/
theorem equals_nullAndList :
    (listAndNull.KeysDistinct ∧ nullAndList.KeysDistinct) ∧
      nullAndList.equals listAndNull = true ∧ nullAndList.equals nullAndList = true ∧
      ¬ (number .nan).Within listAndNull ∧
      (cell listAndNull).equals
        (cell (object [(['l'], otherList), (['n'], cell (cell null))])) = true ∧
      looselyEqual (some listAndNull) (some nullAndList) = true := by
  have hleft : listAndNull.KeysDistinct := by
    simp [listAndNull, KeysDistinct, ItemsDistinct, EntriesDistinct, Entries.keys]
  have hright : nullAndList.KeysDistinct := by
    simp [nullAndList, otherList, KeysDistinct, ItemsDistinct, EntriesDistinct, Entries.keys]
  have hequal : listAndNull.equals nullAndList = true := by decide
  obtain ⟨⟨hcomm, htrans⟩, hself, hreshaped, hread⟩ :=
    equals_partial_equivalence hright hleft hright
  have hback : nullAndList.equals listAndNull = true := hcomm.symm.trans hequal
  have hother := hreshaped _ _ (.single (.wrap listAndNull))
    (.single (.inside (.reorder (.swap _ _ []))))
  exact ⟨⟨hleft, hright⟩, hback, htrans hback hequal, hself.1 (by decide), hother.trans hequal,
    (hread hequal).2.2⟩

/-- A value with `nan` in a cell is not equal to itself. -/
example : (array [cell (number .nan)]).equals (array [cell (number .nan)]) = false := by decide

end Stencil.Value
