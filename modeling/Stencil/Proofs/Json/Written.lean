import Stencil.Json.Basic
import Stencil.Proofs.Number.Exact
import Stencil.Proofs.Value.Alike

/-!
# How numbers are written in documents

A number without a part after the point is written as an integer if it is not greater in size than
the greatest integer of 64 bits, and the integer is the nearest one of 64 bits
(`Number.wireInteger?_finite`). The comparison is one of numbers, and as a number the greatest
integer is `2 ^ 63`, which is one more (`Number.ofInt_greatest`). So `Number.firstBeyond`, which is
`2 ^ 63`, is written as an integer that is one less, and it is the only number that is not written
exactly (`Number.WrittenAs.position?_eq_iff`). `Value.toJson_exact_iff` says this of the numbers at
all places in a value.
-/

namespace Stencil

/-! ## Integers of 64 bits -/

/-- The integer of 64 bits that is nearest to an integer. -/
def saturate (i : Int) : Int := max (-(twoTo 63 : Int)) (min i (twoTo 63 - 1))

/-- The next power of two is greater. -/
theorem twoTo_lt_succ (n : Nat) : twoTo n < twoTo (n + 1) := by
  have hpos := twoTo_pos n
  rw [twoTo_succ]
  omega

namespace Number

/-- `2 ^ 63`, which is just beyond the integers of 64 bits. -/
def firstBeyond : Number :=
  .finite false ⟨twoTo 52, 1085, twoTo_lt_succ 52, by decide, .inr (Nat.le_refl _)⟩

/-- The place of `2 ^ 63`. -/
theorem position_firstBeyond :
    firstBeyond.position = some ((twoTo 63 * Magnitude.unitsInOne : Nat) : Int) := by
  decide +kernel

/-- The number nearest to the greatest integer of 64 bits is one more. -/
theorem ofInt_greatest : ofInt (twoTo 63 - 1) = firstBeyond := by
  decide +kernel

/-- A factor can be taken out of a signed number. -/
theorem signed_mul (negative : Bool) (a b : Nat) :
    signed negative (a * b) = signed negative a * b := by
  cases negative
  · exact Int.natCast_mul a b
  · simp only [signed, if_true, Int.natCast_mul, Int.neg_mul]

/-- A natural number with a sign is not below its negative. -/
theorem neg_le_signed {n limit : Nat} (negative : Bool) (h : n ≤ limit) :
    -(limit : Int) ≤ signed negative n := by
  cases negative
  · simp only [signed, Bool.false_eq_true, if_false]
    omega
  · simp only [signed, if_true]
    omega

/-- A natural number with a sign reaches its limit only if it is the limit and not negative. -/
theorem eq_limit_of_le_signed {n limit : Nat} {negative : Bool} (hpos : 0 < limit)
    (h : n ≤ limit) (hge : (limit : Int) ≤ signed negative n) : negative = false ∧ n = limit := by
  cases negative
  · simp only [signed, Bool.false_eq_true, if_false] at hge
    exact ⟨rfl, by omega⟩
  · simp only [signed, if_true] at hge
    omega

/-- A number is not greater than the number nearest to the greatest integer of 64 bits exactly if it
is at most `2 ^ 63`. -/
theorem order?_greatest_ne_gt_iff (m : Magnitude) :
    (finite false m).order? (ofInt (twoTo 63 - 1)) ≠ some .gt ↔
      m.units ≤ twoTo 63 * Magnitude.unitsInOne := by
  rw [ofInt_greatest, order?, position_firstBeyond]
  simp only [position, signed, Bool.false_eq_true, if_false, ne_eq, Option.some.injEq,
    Int.compare_eq_gt, Int.not_lt, Int.ofNat_le]

/-- A finite number is written as an integer if it has no part after the point and is not greater in
size than the number nearest to the greatest integer of 64 bits; it is taken to the nearest integer
of 64 bits. -/
theorem wireInteger?_finite (negative : Bool) (m : Magnitude) :
    (finite negative m).wireInteger? =
      if m.units % Magnitude.unitsInOne = 0 ∧
          (finite false m).order? (ofInt (twoTo 63 - 1)) ≠ some .gt then
        some (saturate (signed negative (m.units / Magnitude.unitsInOne)))
      else none := by
  unfold wireInteger?
  simp only [order?_greatest_ne_gt_iff]
  refine ite_congr rfl (fun h => ?_) fun _ => rfl
  have hsize : m.units / Magnitude.unitsInOne ≤ twoTo 63 :=
    Nat.div_le_of_le_mul (by rw [Nat.mul_comm]; exact h.2)
  have hlow := neg_le_signed negative hsize
  have hpos := twoTo_pos 63
  rw [saturate, Int.max_eq_right (by omega)]

/-! ## The forms of a finite number -/

/-- How a finite number is written. -/
inductive WrittenAs : Number → Json → Prop
  /-- As the integer of 64 bits that it is. -/
  | integer {n : Number} {i : Int} (hlow : -(twoTo 63 : Int) ≤ i) (hhigh : i < twoTo 63)
    (h : n.position = some (i * Magnitude.unitsInOne)) : WrittenAs n (.integer i)
  /-- As the greatest integer of 64 bits, which it is not. -/
  | greatest : WrittenAs firstBeyond (.integer (twoTo 63 - 1))
  /-- As it is. -/
  | real {n : Number} (hzero : n.isZero = false) (hne : n ≠ firstBeyond) : WrittenAs n (.real n)

/-- A whole number of at most `2 ^ 63` in size is an integer of 64 bits, or it is `2 ^ 63`. -/
theorem writtenAs_saturate {m : Magnitude} {n : Nat} (negative : Bool)
    (hunits : m.units = n * Magnitude.unitsInOne) (hsize : n ≤ twoTo 63) :
    WrittenAs (finite negative m) (.integer (saturate (signed negative n))) := by
  have hpos := twoTo_pos 63
  have hlow := neg_le_signed negative hsize
  rcases Int.lt_or_le (signed negative n) (twoTo 63) with hlt | hge
  · have hself : saturate (signed negative n) = signed negative n := by
      rw [saturate, Int.min_eq_left (by omega), Int.max_eq_right hlow]
    rw [hself]
    refine .integer hlow hlt ?_
    rw [position, hunits, signed_mul]
  · obtain ⟨rfl, rfl⟩ := eq_limit_of_le_signed hpos hsize hge
    have hfirst : finite false m = firstBeyond := by
      refine congrArg (finite false) (Magnitude.ext_units ?_)
      rw [hunits]
      exact (Int.ofNat_inj.1 (Option.some.inj position_firstBeyond)).symm
    have hgreatest : saturate (signed false (twoTo 63)) = twoTo 63 - 1 := by decide
    rw [hfirst, hgreatest]
    exact .greatest

/-- What has an integer is written as that integer. -/
theorem toJson_of_wireInteger? {n : Number} {i : Int} (h : n.wireInteger? = some i) :
    n.toJson = .integer i := by
  simp only [toJson, h]

/-- `2 ^ 63` is written as the greatest integer of 64 bits. -/
theorem toJson_firstBeyond : firstBeyond.toJson = .integer (twoTo 63 - 1) :=
  toJson_of_wireInteger? (by decide +kernel)

/-- What is finite and not written as an integer is written as it is. -/
theorem toJson_of_wireInteger?_eq_none {negative : Bool} {m : Magnitude}
    (h : (finite negative m).wireInteger? = none) :
    (finite negative m).toJson = .real (finite negative m) := by
  simp only [toJson, h]

/-- Every finite number is written in one of the three ways. -/
theorem writtenAs_toJson (negative : Bool) (m : Magnitude) :
    WrittenAs (finite negative m) (finite negative m).toJson := by
  have hwire := wireInteger?_finite negative m
  simp only [order?_greatest_ne_gt_iff] at hwire
  by_cases h : m.units % Magnitude.unitsInOne = 0 ∧ m.units ≤ twoTo 63 * Magnitude.unitsInOne
  · rw [if_pos h] at hwire
    rw [toJson_of_wireInteger? hwire]
    refine writtenAs_saturate negative ?_ ?_
    · exact (Nat.div_mul_cancel (Nat.dvd_of_mod_eq_zero h.1)).symm
    · exact Nat.div_le_of_le_mul (by rw [Nat.mul_comm]; exact h.2)
  · rw [if_neg h] at hwire
    rw [toJson_of_wireInteger?_eq_none hwire]
    -- Zero and `2 ^ 63` are whole and not too great.
    refine .real ?_ ?_
    · rw [isZero, beq_eq_false_iff_ne]
      intro hzero
      refine h ?_
      rw [Magnitude.units_eq_zero_iff.2 hzero]
      exact ⟨Nat.zero_mod _, Nat.zero_le _⟩
    · intro hfirst
      refine h ?_
      obtain ⟨-, rfl⟩ := Number.finite.inj hfirst
      decide +kernel

end Number

/-- The place on the line of integers of the number that a document is, in units. -/
def Json.position? : Json → Option Int
  | .integer i => some (i * Magnitude.unitsInOne)
  | .real n => n.position
  | _ => none

namespace Number

/-- The greatest integer of 64 bits stands below `2 ^ 63`. -/
theorem position?_greatest_ne :
    (Json.integer (twoTo 63 - 1)).position? ≠ firstBeyond.position := by
  decide +kernel

/-- A finite number is written exactly, unless it is `2 ^ 63`. -/
theorem WrittenAs.position?_eq_iff {n : Number} {j : Json} (h : WrittenAs n j) :
    j.position? = n.position ↔ n ≠ firstBeyond := by
  cases h with
  | @integer _ i hlow hhigh h =>
    refine iff_of_true h.symm ?_
    rintro rfl
    -- The integer would be `2 ^ 63`.
    have hplace := Option.some.inj (h.symm.trans position_firstBeyond)
    rw [Int.natCast_mul] at hplace
    have hunits : (Magnitude.unitsInOne : Int) ≠ 0 :=
      Int.ofNat_ne_zero.2 (Nat.ne_of_gt (twoTo_pos 1074))
    rw [Int.mul_eq_mul_right_iff hunits] at hplace
    omega
  | greatest => exact iff_of_false position?_greatest_ne fun h => h rfl
  | real hzero hne => exact iff_of_true rfl hne

/-- What is written as an integer is an integer of 64 bits, and what is not is written as it is. -/
theorem WrittenAs.forms {n : Number} {j : Json} (h : WrittenAs n j) :
    (∃ i : Int, j = .integer i ∧ -(twoTo 63 : Int) ≤ i ∧ i < twoTo 63) ∨ j = .real n := by
  cases h with
  | integer hlow hhigh _ => exact .inl ⟨_, rfl, hlow, hhigh⟩
  | greatest => exact .inl ⟨_, rfl, by decide, by decide⟩
  | real _ _ => exact .inr rfl

end Number

/-! ## Places in values and documents -/

namespace Value

/-- What stands at a place in a value: the place of an item or an entry, then a place in that, and
so on. Cells are no places of their own. -/
def partAt? : List Nat → Value → Option Value
  | [], v => some v.content
  | i :: place, v =>
    match v.content with
    | array items => items[i]?.bind (partAt? place)
    | object entries => entries[i]?.bind fun e => partAt? place e.2
    | _ => none

end Value

/-- What stands at a place in a document. -/
def Json.partAt? : List Nat → Json → Option Json
  | [], j => some j
  | i :: place, j =>
    match j with
    | .array items => items[i]?.bind (partAt? place)
    | .object entries => entries[i]?.bind fun e => partAt? place e.2
    | _ => none

/-- There are no places in a number. -/
theorem Number.partAt?_toJson_cons (n : Number) (i : Nat) (place : List Nat) :
    n.toJson.partAt? (i :: place) = none := by
  unfold Number.toJson
  split <;> rfl

namespace Value

/-- A cell is written as what it holds. -/
theorem toJson_content (v : Value) : v.content.toJson = v.toJson := by
  fun_induction content v with
  | case1 v ih => rw [ih, toJson]
  | case2 v h => rfl

/-- The items of an array are written one by one. -/
theorem itemsToJson_eq_map (items : List Value) : itemsToJson items = items.map toJson := by
  induction items with
  | nil => rfl
  | cons v rest ih => rw [itemsToJson, ih, List.map_cons]

/-- The entries of an object are written one by one, with their keys. -/
theorem entriesToJson_eq_map (entries : List (Text × Value)) :
    entriesToJson entries = entries.map fun e => (e.1, e.2.toJson) := by
  induction entries with
  | nil => rfl
  | cons e rest ih => rw [entriesToJson, ih, List.map_cons]

/-- At each place of a document stands what is written for the part of the value at that place. -/
theorem partAt?_toJson (place : List Nat) (v : Value) :
    v.toJson.partAt? place = (v.partAt? place).map toJson := by
  induction place generalizing v with
  | nil => rw [Json.partAt?, partAt?, Option.map_some, toJson_content]
  | cons i place ih =>
    have hcell := content_ne_cell v
    rw [← toJson_content v]
    unfold partAt?
    generalize v.content = u at hcell ⊢
    cases u with
    | array items =>
      rw [toJson, itemsToJson_eq_map]
      simp only [Json.partAt?, List.getElem?_map, Option.bind_map, Option.map_bind]
      exact Option.bind_congr fun w _ => ih w
    | object entries =>
      rw [toJson, entriesToJson_eq_map]
      simp only [Json.partAt?, List.getElem?_map, Option.bind_map, Option.map_bind]
      exact Option.bind_congr fun e _ => ih e.2
    | number n =>
      rw [toJson, n.partAt?_toJson_cons]
      rfl
    | cell w => exact absurd rfl (hcell w)
    | _ => rfl

/-- At a place where a finite number stands in a value there stands in its document an integer of 64
bits, or the number as it is. What stands there is equal to the number exactly if that is not
`2 ^ 63`, for which the greatest integer is written. -/
theorem toJson_exact_iff {v : Value} {place : List Nat} {negative : Bool} {m : Magnitude}
    (h : v.partAt? place = some (number (.finite negative m))) :
    ∃ j, v.toJson.partAt? place = some j ∧
      ((∃ i : Int, j = .integer i ∧ -(twoTo 63 : Int) ≤ i ∧ i < twoTo 63) ∨
        j = .real (.finite negative m)) ∧
      (j.position? = (Number.finite negative m).position ↔
        Number.finite negative m ≠ .firstBeyond) ∧
      (Number.finite negative m = .firstBeyond → j = .integer (twoTo 63 - 1)) := by
  have hwritten := Number.writtenAs_toJson negative m
  refine ⟨(Number.finite negative m).toJson, ?_, hwritten.forms, hwritten.position?_eq_iff, ?_⟩
  · rw [partAt?_toJson, h, Option.map_some, toJson]
  · intro hfirst
    rw [hfirst, Number.toJson_firstBeyond]

/-- The least integer of 64 bits in a cell, in a list in an object. -/
def leastInObject : Value :=
  object [(['k'], array [null, cell (number (.negate .firstBeyond))])]

/-- The least integer of 64 bits, which is `-2 ^ 63`, is written exactly. -/
theorem toJson_exact_iff_leastInObject :
    leastInObject.partAt? [0, 1] = some (number (.negate .firstBeyond)) ∧
      ∃ j, leastInObject.toJson.partAt? [0, 1] = some j ∧
        j.position? = (Number.negate .firstBeyond).position := by
  have hpart : leastInObject.partAt? [0, 1] = some (number (.negate .firstBeyond)) := rfl
  obtain ⟨j, hj, -, hexact, -⟩ := toJson_exact_iff hpart
  exact ⟨hpart, j, hj, hexact.2 (by decide)⟩

/-- `2 ^ 63` in a cell in a list. -/
def listOfFirstBeyond : Value := array [null, cell (cell (number .firstBeyond))]

/-- `2 ^ 63` is written as `9223372036854775807`, which is one less. -/
theorem toJson_listOfFirstBeyond_inexact :
    listOfFirstBeyond.partAt? [1] = some (number .firstBeyond) ∧
      listOfFirstBeyond.toJson.partAt? [1] = some (.integer 9223372036854775807) ∧
      (Json.integer 9223372036854775807).position? ≠ Number.firstBeyond.position :=
  ⟨rfl, (partAt?_toJson [1] listOfFirstBeyond).trans (congrArg some Number.toJson_firstBeyond),
    Number.position?_greatest_ne⟩

end Value

end Stencil
