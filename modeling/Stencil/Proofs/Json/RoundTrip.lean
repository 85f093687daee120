import Stencil.Proofs.Json.Written
import Stencil.Proofs.Value.Equality

/-!
# Values that are written and read back

A value that is written as a document and read back has lost what documents cannot hold: cells, the
numbers that are not finite, and the sign of zero (`Value.ofJson_toJson`). The number `2 ^ 63`,
which is written as an integer that is one less, is not lost: that integer is rounded to `2 ^ 63`
when it is read.
-/

namespace Stencil

/-! ## Numbers -/

namespace Number

/-- What is left of a number in a document: a finite number, zero without its sign, and nothing of
any other. -/
def kept : Number → Value
  | finite negative m => .number (if m.units = 0 then zero else finite negative m)
  | _ => .null

/-- `2 ^ 63` is kept. -/
theorem kept_firstBeyond : firstBeyond.kept = .number firstBeyond :=
  congrArg Value.number (if_neg (by decide +kernel))

/-- An integer is its absolute value with its sign. -/
theorem signed_natAbs (i : Int) : signed (decide (i < 0)) i.natAbs = i := by
  unfold signed
  split
  · next h =>
    have hlt : i < 0 := of_decide_eq_true h
    omega
  · next h =>
    have hge : ¬ i < 0 := fun hlt => h (decide_eq_true hlt)
    omega

/-- The integer at whose place a finite number stands has its size, and its sign unless it is
zero. -/
theorem units_eq_of_position_eq {negative : Bool} {m : Magnitude} {i : Int}
    (h : (finite negative m).position = some (i * Magnitude.unitsInOne)) :
    m.units = i.natAbs * Magnitude.unitsInOne ∧ (negative = decide (i < 0) ∨ m.units = 0) := by
  have hplace : signed negative m.units =
      signed (decide (i < 0)) (i.natAbs * Magnitude.unitsInOne) := by
    rw [signed_mul, signed_natAbs]
    exact Option.some.inj h
  exact signed_eq_signed_iff.1 hplace

/-- A finite number is read back from what is written for it, zero without its sign. -/
theorem WrittenAs.ofJson_eq {negative : Bool} {m : Magnitude} {j : Json}
    (h : WrittenAs (finite negative m) j) : Value.ofJson j = (finite negative m).kept := by
  generalize hn : finite negative m = n at h
  cases h with
  | @integer _ i hlow hhigh hplace =>
    subst hn
    obtain ⟨hunits, hsign⟩ := units_eq_of_position_eq hplace
    rw [Value.ofJson, ofInt_eq_finite hunits, kept]
    congr 1
    by_cases hzero : m.units = 0
    · have hi : i = 0 := by
        rw [hzero] at hunits
        have hpos := twoTo_pos 1074
        rcases Nat.mul_eq_zero.1 hunits.symm with h0 | h0
        · exact Int.natAbs_eq_zero.1 h0
        · exact absurd h0 (Nat.ne_of_gt hpos)
      obtain rfl : m = .zero := Magnitude.ext_units (hzero.trans Magnitude.units_zero.symm)
      rw [if_pos hzero, hi]
      rfl
    · rw [if_neg hzero, hsign.resolve_right hzero]
  | greatest =>
    rw [Value.ofJson, ofInt_greatest]
    exact kept_firstBeyond.symm
  | real hzero hne =>
    subst hn
    have hunits : ¬ m.units = 0 := fun h0 =>
      beq_eq_false_iff_ne.1 hzero (Magnitude.units_eq_zero_iff.1 h0)
    rw [Value.ofJson, kept, if_neg hunits]

/-- What is read back of a number is what is kept of it. -/
theorem ofJson_toJson_eq_kept (n : Number) : Value.ofJson n.toJson = n.kept := by
  cases n with
  | nan => rfl
  | infinity negative => rfl
  | finite negative m => exact (writtenAs_toJson negative m).ofJson_eq

/-- What is kept of a finite number is the number, but for the sign of zero. -/
theorem exists_kept_eq (negative : Bool) (m : Magnitude) :
    ∃ b, (finite negative m).kept = .number b ∧ (finite negative m).Alike b := by
  refine ⟨_, rfl, ?_⟩
  split
  · next hzero =>
    exact .inr ⟨beq_iff_eq.2 (Magnitude.units_eq_zero_iff.1 hzero), rfl⟩
  · exact .inl rfl

end Number

/-! ## Values -/

namespace Value

variable {v : Value}

mutual

/-- A value with other values in place of the numbers in it. -/
def replaceNumbers (f : Number → Value) : Value → Value
  | number n => f n
  | array items => array (replaceInItems f items)
  | object entries => object (replaceInEntries f entries)
  | cell c => cell (c.replaceNumbers f)
  | null => null
  | bool b => bool b
  | text t => text t
termination_by structural v => v

/-- The items of an array with other values in place of the numbers in them. -/
def replaceInItems (f : Number → Value) : List Value → List Value
  | [] => []
  | v :: rest => v.replaceNumbers f :: replaceInItems f rest
termination_by structural items => items

/-- The entries of an object with other values in place of the numbers in them. -/
def replaceInEntries (f : Number → Value) : List (Text × Value) → List (Text × Value)
  | [] => []
  | (k, v) :: rest => (k, v.replaceNumbers f) :: replaceInEntries f rest
termination_by structural entries => entries

end

/-- What documents can hold of a value: what cells hold stands in the place of all cells, and of
numbers stands what is kept of them. -/
def storable (v : Value) : Value := v.plain.replaceNumbers Number.kept

/-- Numbers are replaced in the items one by one. -/
theorem replaceInItems_eq_map (f : Number → Value) (items : List Value) :
    replaceInItems f items = items.map (replaceNumbers f) := by
  induction items with
  | nil => rfl
  | cons v rest ih => rw [replaceInItems, ih, List.map_cons]

/-- Numbers are replaced in the entries one by one. -/
theorem replaceInEntries_eq_map (f : Number → Value) (entries : List (Text × Value)) :
    replaceInEntries f entries = entries.map fun e => (e.1, e.2.replaceNumbers f) := by
  induction entries with
  | nil => rfl
  | cons e rest ih => rw [replaceInEntries, ih, List.map_cons]

/-- The items of an array are read one by one. -/
theorem itemsOfJson_eq_map (items : List Json) : itemsOfJson items = items.map ofJson := by
  induction items with
  | nil => rfl
  | cons j rest ih => rw [itemsOfJson, ih, List.map_cons]

/-- The entries of an object are read one by one, with their keys. -/
theorem entriesOfJson_eq_map (entries : List (Text × Json)) :
    entriesOfJson entries = entries.map fun e => (e.1, ofJson e.2) := by
  induction entries with
  | nil => rfl
  | cons e rest ih => rw [entriesOfJson, ih, List.map_cons]

/-- The items of an array are kept in their order. -/
theorem storable_array (items : List Value) :
    (array items).storable = array (items.map storable) := by
  rw [storable, plain, replaceNumbers, plainItems_eq_map, replaceInItems_eq_map, List.map_map]
  rfl

/-- The entries of an object are kept in their order, with their keys. -/
theorem storable_object (entries : List (Text × Value)) :
    (object entries).storable = object (entries.map fun e => (e.1, e.2.storable)) := by
  rw [storable, plain, replaceNumbers, plainEntries_eq_map, replaceInEntries_eq_map, List.map_map]
  rfl

/-- Of a cell is kept what is kept of what it holds. -/
theorem storable_cell (v : Value) : (cell v).storable = v.storable := by
  rw [storable, plain, storable]

/-- What is written and read back is what documents can hold. -/
theorem ofJson_toJson_eq_storable (v : Value) : ofJson v.toJson = v.storable := by
  induction v using Value.induction with
  | null => rfl
  | bool b => rfl
  | text t => rfl
  | number n => exact n.ofJson_toJson_eq_kept
  | array items ih =>
    rw [storable_array, toJson, ofJson, itemsToJson_eq_map, itemsOfJson_eq_map, List.map_map]
    exact congrArg array (List.map_congr_left ih)
  | object entries ih =>
    rw [storable_object, toJson, ofJson, entriesToJson_eq_map, entriesOfJson_eq_map, List.map_map]
    exact congrArg object (List.map_congr_left fun e he => Prod.ext rfl (ih e he))
  | cell v ih => rw [storable_cell, toJson, ih]

/-- No cells are kept. -/
theorem not_cell_within_storable (v w : Value) : ¬ (cell w).Within v.storable := by
  induction v using Value.induction with
  | null => exact fun h => by cases h
  | bool b => exact fun h => by cases h
  | text t => exact fun h => by cases h
  | number n => cases n <;> exact fun h => by cases h
  | array items ih =>
    rw [storable_array]
    intro h
    cases h with
    | item hv h =>
      obtain ⟨u, hu, rfl⟩ := List.mem_map.1 hv
      exact ih u hu h
  | object entries ih =>
    rw [storable_object]
    intro h
    cases h with
    | entry hentry h =>
      obtain ⟨e, he, rfl⟩ := List.mem_map.1 hentry
      exact ih e he h
  | cell v ih => rwa [storable_cell]

/-- All numbers in a value are finite. -/
def NumbersFinite (v : Value) : Prop :=
  ∀ n : Number, (number n).Within v → ∃ negative m, n = .finite negative m

/-- What is kept of a value with finite numbers is equivalent to it. -/
theorem NumbersFinite.equivalent_storable (h : v.NumbersFinite) : v.Equivalent v.storable := by
  induction v using Value.induction with
  | null => rfl
  | bool b => rfl
  | text t => rfl
  | number n =>
    obtain ⟨negative, m, rfl⟩ := h n .self
    obtain ⟨b, hb, halike⟩ := Number.exists_kept_eq negative m
    refine ⟨b, ?_, halike⟩
    show ((Number.finite negative m).kept).plain = number b
    rw [hb]
    rfl
  | array items ih =>
    rw [storable_array]
    refine equivalent_array (List.forall₂_map_right_iff.2 (List.forall₂_same.2 fun v hv => ?_))
    exact ih v hv fun n hn => h n (.item hv hn)
  | object entries ih =>
    rw [storable_object]
    refine equivalent_object (.refl _) ?_
    refine List.forall₂_map_right_iff.2 (List.forall₂_same.2 fun e he => ⟨rfl, ?_⟩)
    exact ih e he fun n hn => h n (.entry he hn)
  | cell v ih =>
    rw [storable_cell]
    exact ih fun n hn => h n (.cell hn)

/-- What is kept of a value with finite numbers is equal to it. -/
theorem NumbersFinite.storable_equals (hv : v.KeysDistinct) (h : v.NumbersFinite) :
    v.storable.equals v = true := by
  have htwins : v.Twins v.storable := ⟨hv, h.equivalent_storable⟩
  have hnan : ¬ (number .nan).Within v := fun hwithin => by
    obtain ⟨negative, m, hfinite⟩ := h .nan hwithin
    cases hfinite
  rw [← htwins.equals_eq (twins_refl hv)]
  exact (equals_self_iff hv).2 hnan

/-- A value that is written and read back is what documents can hold of it, without any cells. If
all numbers in it are finite it is equal to what it was. -/
theorem ofJson_toJson (v : Value) :
    ofJson v.toJson = v.storable ∧ (∀ w, ¬ (cell w).Within (ofJson v.toJson)) ∧
      (v.KeysDistinct → v.NumbersFinite → (ofJson v.toJson).equals v = true) := by
  rw [ofJson_toJson_eq_storable]
  exact ⟨rfl, not_cell_within_storable v, fun hv h => h.storable_equals hv⟩

/-- An object with a list of `2 ^ 63` and the negative zero in a cell. -/
def listInObject : Value :=
  object [(['l'], cell (array [number .firstBeyond, cell (number (.negate .zero))])),
    (['k'], text ['x'])]

/-- The object comes back without its cells and with the positive zero, and it is equal to what it
was. -/
theorem ofJson_toJson_listInObject :
    (listInObject.KeysDistinct ∧ listInObject.NumbersFinite) ∧
      ofJson listInObject.toJson =
        object [(['l'], array [number .firstBeyond, number .zero]), (['k'], text ['x'])] ∧
      (ofJson listInObject.toJson).equals listInObject = true := by
  have hdistinct : listInObject.KeysDistinct := by
    simp [listInObject, KeysDistinct, ItemsDistinct, EntriesDistinct, Entries.keys]
  have hfinite : listInObject.NumbersFinite := by
    intro n hn
    obtain ⟨e, he, hn⟩ := number_within_object_iff.1 hn
    rcases List.mem_pair.1 he with rfl | rfl
    · cases hn with
      | cell hn =>
        obtain ⟨v, hv, hn⟩ := number_within_array_iff.1 hn
        rcases List.mem_pair.1 hv with rfl | rfl
        · cases hn
          exact ⟨_, _, rfl⟩
        · cases hn with
          | cell hn =>
            cases hn
            exact ⟨_, _, rfl⟩
    · cases hn
  have hkept : listInObject.storable =
      object [(['l'], array [number .firstBeyond, number .zero]), (['k'], text ['x'])] := by
    rw [listInObject, storable_object, List.map_cons, storable_cell, storable_array, List.map_cons]
    exact congrArg
      (fun u => object [(['l'], array [u, number .zero]), (['k'], text ['x'])])
      Number.kept_firstBeyond
  obtain ⟨hread, -, hequal⟩ := ofJson_toJson listInObject
  exact ⟨⟨hdistinct, hfinite⟩, hread.trans hkept, hequal hdistinct hfinite⟩

/-- Nothing is kept of numbers that are not finite. -/
example : (array [number .nan, cell (number (.infinity true))]).storable = array [null, null] := rfl

end Value

end Stencil
