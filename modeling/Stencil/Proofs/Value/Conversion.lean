import Stencil.Proofs.Value.Equality

/-!
# Conversions in loose equality

`looselyEqual` converts both sides to scalars at once, unless both are containers.
`looselyEqualStepwise` comes to the same by rules that are tried in order, where a rule converts one
side and the rules are tried again (`looselyEqualStepwise_eq`). A side that has been converted comes
to stand on the left, so it has to be shown that the sides can change places.

`CoherentEquality` says what a loose equality should do with two values. Both do it
(`looselyEqual_coherent`), as is put together from the conversions: what a value can be exchanged
with follows from what scalar it has.
-/

namespace Stencil

/-! ## Scalars -/

/-- Equality of scalars either of which may be missing; only a missing one is equal to a missing
one. -/
def Scalar.optionEquals : Option Scalar → Option Scalar → Bool
  | some a, some b => a.equals b
  | none, none => true
  | _, _ => false

/-- A missing scalar is equal to a missing scalar only. -/
theorem Scalar.optionEquals_none (b : Option Scalar) :
    optionEquals none b = true ↔ b = none := by
  cases b <;> simp [optionEquals]

/-- Equality of scalars has no direction, also where one is missing. -/
theorem Scalar.optionEquals_comm (a b : Option Scalar) :
    optionEquals a b = optionEquals b a := by
  cases a with
  | none => cases b <;> rfl
  | some a =>
    cases b with
    | none => rfl
    | some b => exact a.equals_comm b

namespace Value

variable {v w : Value}

/-- Only `null` has no scalar. -/
theorem scalar?_eq_none_iff : v.scalar? = none ↔ v.content = null := by
  have hcell := content_ne_cell v
  unfold scalar?
  generalize v.content = u at hcell ⊢
  cases u with
  | cell c => exact absurd rfl (hcell c)
  | _ => simp

/-- A truth value is converted to the number one or zero. -/
theorem scalar?_of_bool {c : Bool} (h : v.content = bool c) :
    v.scalar? = some (.number (.ofNat c.toNat)) := by
  rw [scalar?, h]

/-- A container is converted to its text. -/
theorem scalar?_of_isContainer (h : v.isContainer = true) : v.scalar? = some (.text v.display) := by
  rw [← display_content v]
  unfold isContainer at h
  unfold scalar?
  generalize v.content = u at h ⊢
  cases u with
  | array items => rfl
  | object entries => rfl
  | _ => cases h

end Value

/-! ## Conversions -/

section Conversions

open Value

variable {a b : Option Value} {v w : Value}

/-- A value that is missing, or whose content is no container. -/
def NoContainer (a : Option Value) : Prop := ∀ v ∈ a, v.isContainer = false

/-- A value is no container if its content is none. -/
theorem noContainer_some (h : v.isContainer = false) : NoContainer (some v) := by
  rintro _ ⟨⟩
  exact h

/-- Where one of two values is no container, they are compared by their scalars. -/
theorem looselyEqual_eq_optionEquals (h : NoContainer a ∨ NoContainer b) :
    looselyEqual a b = Scalar.optionEquals (a.bind scalar?) (b.bind scalar?) := by
  cases a with
  | none => cases b with
    | none => rfl
    | some w => cases hw : w.scalar? <;> simp [looselyEqual, Scalar.optionEquals, hw]
  | some v =>
    cases b with
    | none => cases hv : v.scalar? <;> simp [looselyEqual, Scalar.optionEquals, hv]
    | some w =>
      have hboth : (v.isContainer && w.isContainer) = false := by
        rcases h with h | h
        · rw [h v rfl, Bool.false_and]
        · rw [h w rfl, Bool.and_false]
      simp only [looselyEqual, hboth]
      rfl

/-- Where one of two values is no container, loose equality has no direction. -/
theorem looselyEqual_swap (h : NoContainer a ∨ NoContainer b) :
    looselyEqual a b = looselyEqual b a := by
  rw [looselyEqual_eq_optionEquals h, looselyEqual_eq_optionEquals h.symm]
  exact Scalar.optionEquals_comm _ _

/-- Loose equality has no direction. -/
theorem looselyEqual_comm (ha : ∀ v ∈ a, v.KeysDistinct) (hb : ∀ w ∈ b, w.KeysDistinct) :
    looselyEqual a b = looselyEqual b a := by
  by_cases h : NoContainer a ∨ NoContainer b
  · exact looselyEqual_swap h
  · -- Both are containers, which are compared as they are.
    simp only [NoContainer, not_or, not_forall, Bool.not_eq_false] at h
    obtain ⟨⟨v, hv, hvc⟩, ⟨w, hw, hwc⟩⟩ := h
    obtain rfl : a = some v := hv
    obtain rfl : b = some w := hw
    rw [looselyEqual_of_sameKind (.containers _ _), looselyEqual_of_sameKind (.containers _ _)]
    · exact equals_comm (ha v rfl) (hb w rfl)
    all_goals rwa [isContainer_content]

/-- A truth value is loosely equal to what its number is loosely equal to. -/
theorem looselyEqual_of_bool {c : Bool} (h : v.content = bool c) (b : Option Value) :
    looselyEqual (some v) b = looselyEqual (some (number (.ofNat c.toNat))) b := by
  have hv : NoContainer (some v) := noContainer_some (by rw [isContainer, h])
  have hnumber : NoContainer (some (number (.ofNat c.toNat))) := noContainer_some rfl
  rw [looselyEqual_eq_optionEquals (.inl hv), looselyEqual_eq_optionEquals (.inl hnumber)]
  exact congrArg (Scalar.optionEquals · _) (scalar?_of_bool h)

/-- Where the other side is no container, a container is loosely equal to what its text is loosely
equal to. -/
theorem looselyEqual_of_isContainer (h : v.isContainer = true) (hb : NoContainer b) :
    looselyEqual (some v) b = looselyEqual (some (text v.display)) b := by
  rw [looselyEqual_eq_optionEquals (.inr hb), looselyEqual_eq_optionEquals (.inr hb)]
  exact congrArg (Scalar.optionEquals · _) (scalar?_of_isContainer h)

/-- The values that are like a missing one: `null`, in any cells. -/
def IsMissing (a : Option Value) : Prop := ∀ v ∈ a, v.content = null

/-- What is like a missing value has no scalar. -/
theorem isMissing_iff : IsMissing a ↔ a.bind scalar? = none := by
  rw [Option.bind_eq_none_iff]
  exact forall₂_congr fun v _ => scalar?_eq_none_iff.symm

/-- What is like a missing value is no container. -/
theorem IsMissing.noContainer (h : IsMissing a) : NoContainer a := fun v hv => by
  rw [isContainer, h v hv]

/-- What is like a missing value is loosely equal to its like, and to nothing else. -/
theorem looselyEqual_of_isMissing (h : IsMissing a) : looselyEqual a b = true ↔ IsMissing b := by
  rw [looselyEqual_eq_optionEquals (.inl h.noContainer), isMissing_iff.1 h, isMissing_iff]
  exact Scalar.optionEquals_none _

/-- What is like a missing value is not loosely equal to any other value. -/
theorem looselyEqual_eq_false (ha : IsMissing a) (hb : ¬ IsMissing b) :
    looselyEqual a b = false := by
  rw [Bool.eq_false_iff, ne_eq, looselyEqual_of_isMissing ha]
  exact hb

end Conversions

/-! ## One conversion after another -/

namespace Value

variable {v w : Value}

/-- How many conversions a value can undergo. -/
def conversions : Value → Nat
  | null | number _ | text _ => 0
  | _ => 1

/-- A text is not converted any further. -/
theorem conversions_text (t : Text) : (text t).conversions = 0 := rfl

/-- A container can be converted. -/
theorem conversions_of_isContainer (h : v.isContainer = true) : v.conversions = 1 := by
  cases v with
  | null => cases h
  | number n => cases h
  | text t => cases h
  | _ => rfl

/-- Equality of two values by the first rule that fits: a truth value becomes a number, and a
container becomes a text if the other side is none. After a conversion the rules are tried again,
with the converted value on the left. -/
def convertedEqual : Value → Value → Bool
  | number a, number b => a.equals b
  | text s, text t => s == t
  | bool a, bool b => a == b
  | number n, text t | text t, number n => n.equals (.ofText t)
  | bool c, w | w, bool c => convertedEqual (number (.ofNat c.toNat)) w
  | v, w =>
    if v.isContainer && w.isContainer then v.equals w
    else if v.isContainer then convertedEqual (text v.display) w
    else if w.isContainer then convertedEqual (text w.display) v
    else false
termination_by v w => v.conversions + w.conversions
decreasing_by
  -- Of a truth value a number is left, and of a container a text, and neither is converted again.
  · simp [conversions]
  · simp [conversions]
  · rw [conversions_of_isContainer ‹v.isContainer = true›, conversions_text]
    omega
  · rw [conversions_of_isContainer ‹w.isContainer = true›, conversions_text]
    omega

/-- A value that the rules are made for: neither `null` nor a cell. -/
structure IsOperand (v : Value) : Prop where
  content_eq : v.content = v
  ne_null : v ≠ null

/-- An operand without properties is a truth value, a number or a text. -/
theorem IsOperand.scalar_cases (h : v.IsOperand) (hv : ¬ v.isContainer = true) :
    (∃ c, v = bool c) ∨ (∃ n, v = number n) ∨ ∃ t, v = text t := by
  cases v with
  | null => exact absurd rfl h.ne_null
  | bool c => exact .inl ⟨c, rfl⟩
  | number n => exact .inr (.inl ⟨n, rfl⟩)
  | text t => exact .inr (.inr ⟨t, rfl⟩)
  | array items => exact absurd rfl hv
  | object entries => exact absurd rfl hv
  | cell c => exact absurd h.content_eq (content_ne_cell _ c)

/-- The rules come to loose equality. -/
theorem convertedEqual_eq (hv : v.IsOperand) (hw : w.IsOperand) :
    v.convertedEqual w = looselyEqual (some v) (some w) := by
  have hnumber (n : Number) : (number n).IsOperand := ⟨rfl, by simp⟩
  have htext (t : Text) : (text t).IsOperand := ⟨rfl, by simp⟩
  fun_induction convertedEqual v w with
  | case1 a b => rfl
  | case2 s t => rfl
  | case3 a b => exact (looselyEqual_of_sameKind (v := bool a) (w := bool b) (.bool a b)).symm
  | case4 n t => rfl
  | case5 t n => rfl
  | case6 c w _ ih =>
    rw [ih (hnumber _) hw, ← looselyEqual_of_bool (v := bool c) rfl]
  | case7 w c _ ih =>
    -- The truth value stands on the right, so the sides change places.
    rw [ih (hnumber _) hv, ← looselyEqual_of_bool (v := bool c) rfl]
    exact looselyEqual_swap (.inl (noContainer_some rfl))
  | case8 v w _ _ _ _ _ _ _ hboth =>
    simp only [looselyEqual, hboth, if_true]
  | case9 v w _ _ _ _ _ _ _ hboth hcontainer ih =>
    rw [hcontainer, Bool.true_and, Bool.not_eq_true] at hboth
    rw [ih (htext _) hw, looselyEqual_of_isContainer hcontainer (noContainer_some hboth)]
  | case10 v w _ _ _ _ _ _ _ _ hv' hcontainer ih =>
    -- The container stands on the right.
    have hleft : NoContainer (some v) := noContainer_some (Bool.not_eq_true _ ▸ hv')
    rw [ih (htext _) hv, ← looselyEqual_of_isContainer hcontainer hleft]
    exact looselyEqual_swap (.inr hleft)
  | case11 v w hnumbers htexts _ hnumberText htextNumber hbool hbool' _ hv' hw' =>
    -- All pairs of scalars have been dealt with by the rules above.
    exfalso
    rcases hv.scalar_cases hv' with ⟨c, rfl⟩ | ⟨n, rfl⟩ | ⟨t, rfl⟩
    · exact hbool c rfl
    · rcases hw.scalar_cases hw' with ⟨c, rfl⟩ | ⟨m, rfl⟩ | ⟨t, rfl⟩
      · exact hbool' c rfl
      · exact hnumbers n m rfl rfl
      · exact hnumberText n t rfl rfl
    · rcases hw.scalar_cases hw' with ⟨c, rfl⟩ | ⟨m, rfl⟩ | ⟨s, rfl⟩
      · exact hbool' c rfl
      · exact htextNumber t m rfl rfl
      · exact htexts t s rfl rfl

end Value

section Stepwise

open Value

/-- Loose equality looks through cells, also where a value is missing. -/
theorem looselyEqual_map_content (a b : Option Value) :
    looselyEqual (a.map content) (b.map content) = looselyEqual a b := by
  cases a with
  | none => cases b <;> simp [looselyEqual, scalar?_content]
  | some v =>
    cases b with
    | none => simp [looselyEqual, scalar?_content]
    | some w => exact looselyEqual_content v w

/-- The content of a value holds no further content. -/
theorem content_of_mem_map (a : Option Value) : ∀ v ∈ a.map content, v.content = v := by
  intro v hv
  obtain ⟨u, -, rfl⟩ := Option.map_eq_some_iff.1 hv
  exact content_content u

/-- Content other than `null` is not like a missing value. -/
theorem not_isMissing {a : Option Value} (hcontent : ∀ v ∈ a, v.content = v) (h : a ≠ none)
    (h' : a ≠ some null) : ¬ IsMissing a := by
  obtain ⟨v, rfl⟩ := Option.ne_none_iff_exists'.1 h
  intro hmissing
  have hv : v = null := (hcontent v rfl).symm.trans (hmissing v rfl)
  exact h' (congrArg some hv)

/-- Loose equality by rules: what is missing and `null` are like each other and like nothing else,
and other values are compared by conversions. -/
def looselyEqualStepwise (left right : Option Value) : Bool :=
  match left.map content, right.map content with
  | none, none | none, some null | some null, none | some null, some null => true
  | none, _ | some null, _ | _, none | _, some null => false
  | some v, some w => v.convertedEqual w

/-- The rules, tried in their order, come to loose equality. -/
theorem looselyEqualStepwise_eq (a b : Option Value) :
    looselyEqualStepwise a b = looselyEqual a b := by
  have hnone : IsMissing none := fun _ hv => by cases hv
  have hnull : IsMissing (some null) := by
    rintro _ ⟨⟩
    rfl
  have ha := content_of_mem_map a
  have hb := content_of_mem_map b
  rw [← looselyEqual_map_content, looselyEqualStepwise]
  generalize a.map content = x at ha ⊢
  generalize b.map content = y at hb ⊢
  split
  · rfl
  · rfl
  · rfl
  · rfl
  -- One side is missing and the other is not.
  · next h h' => exact (looselyEqual_eq_false hnone (not_isMissing hb h h')).symm
  · next h h' => exact (looselyEqual_eq_false hnull (not_isMissing hb h h')).symm
  · next h h' =>
    rw [looselyEqual_swap (.inr hnone.noContainer)]
    exact (looselyEqual_eq_false hnone (not_isMissing ha h h')).symm
  · next h h' =>
    rw [looselyEqual_swap (.inr hnull.noContainer)]
    exact (looselyEqual_eq_false hnull (not_isMissing ha h h')).symm
  · next v w _ hv hw => exact convertedEqual_eq ⟨ha v rfl, hv⟩ ⟨hb w rfl, hw⟩

/-- What a loose equality does with two values. On either side a value that is converted can be
exchanged with what it is converted to. -/
structure CoherentEquality (equal : Option Value → Option Value → Bool) (a b : Option Value) :
    Prop where
  /-- The sides can change places. -/
  comm : (∀ v ∈ a, v.KeysDistinct) → (∀ w ∈ b, w.KeysDistinct) → equal a b = equal b a
  /-- Missing values and `null` are equal to each other, and to nothing else. -/
  missing_iff : IsMissing a → (equal a b = true ↔ IsMissing b)
  /-- Values of one kind are equal when they are the same. -/
  sameKind : ∀ v w, a = some v → b = some w → v.content.SameKind w.content →
    equal a b = v.equals w
  /-- A truth value is like one or zero. -/
  bool : ∀ v c, a = some v → v.content = bool c →
    equal a b = equal (some (number (.ofNat c.toNat))) b ∧
      equal b a = equal b (some (number (.ofNat c.toNat)))
  /-- A container is like its text, if no container stands on the other side. -/
  container : ∀ v, a = some v → v.isContainer = true → NoContainer b →
    equal a b = equal (some (text v.display)) b ∧ equal b a = equal b (some (text v.display))

/-- Loose equality is coherent, whether both sides are converted at once or by rules that are tried
in order. -/
theorem looselyEqual_coherent (a b : Option Value) :
    CoherentEquality looselyEqual a b ∧ CoherentEquality looselyEqualStepwise a b := by
  have hsame : looselyEqualStepwise = looselyEqual :=
    funext fun a => funext fun b => looselyEqualStepwise_eq a b
  rw [hsame, and_self]
  refine ⟨looselyEqual_comm, looselyEqual_of_isMissing, ?_, ?_, ?_⟩
  · rintro v w rfl rfl hkind
    exact looselyEqual_of_sameKind hkind
  -- What holds of the left side carries over to the right, since the sides can change places.
  · rintro v c rfl hc
    have hleft := looselyEqual_of_bool hc b
    have hbool : NoContainer (some v) := noContainer_some (by rw [isContainer, hc])
    have hnumber : NoContainer (some (number (.ofNat c.toNat))) := noContainer_some rfl
    refine ⟨hleft, ?_⟩
    calc looselyEqual b (some v) = looselyEqual (some v) b := looselyEqual_swap (.inr hbool)
      _ = looselyEqual (some (number (.ofNat c.toNat))) b := hleft
      _ = looselyEqual b (some (number (.ofNat c.toNat))) := looselyEqual_swap (.inl hnumber)
  · rintro v rfl hv hb
    have hleft := looselyEqual_of_isContainer hv hb
    refine ⟨hleft, ?_⟩
    calc looselyEqual b (some v) = looselyEqual (some v) b := looselyEqual_swap (.inl hb)
      _ = looselyEqual (some (text v.display)) b := hleft
      _ = looselyEqual b (some (text v.display)) := looselyEqual_swap (.inr hb)

/-- A list of the text `1`, in cells. -/
def listOfOne : Value := cell (array [cell (text ['1'])])

/-- A list of the text `1` is compared with `true` as that text is, and `true` as one is. A missing
value is loosely equal to `null` in a cell. The rules say the same. -/
theorem looselyEqual_listOfOne :
    (listOfOne.KeysDistinct ∧ listOfOne.isContainer = true ∧ NoContainer (some (bool true))) ∧
      looselyEqual (some (bool true)) (some listOfOne) = true ∧
      looselyEqual (some (text ['1'])) (some (bool true)) = true ∧
      looselyEqual (some listOfOne) (some (number (.ofNat 1))) = true ∧
      looselyEqual (some (cell null)) none = true ∧
      looselyEqualStepwise (some (text ['1'])) (some (bool true)) = true ∧
      looselyEqualStepwise (some listOfOne) (some (number (.ofNat 1))) = true := by
  have hkeys : listOfOne.KeysDistinct := by
    simp [listOfOne, KeysDistinct, ItemsDistinct]
  have hbool : NoContainer (some (bool true)) := noContainer_some rfl
  have hequal : looselyEqual (some listOfOne) (some (bool true)) = true := by decide +kernel
  have hequal' : looselyEqualStepwise (some listOfOne) (some (bool true)) = true := by
    rw [looselyEqualStepwise_eq]
    exact hequal
  obtain ⟨hlist, hlist'⟩ := looselyEqual_coherent (some listOfOne) (some (bool true))
  obtain ⟨htrue, htrue'⟩ := looselyEqual_coherent (some (bool true)) (some listOfOne)
  have hmissing : looselyEqual (some (cell null)) none = true :=
    ((looselyEqual_coherent (some (cell null)) none).1.missing_iff (by rintro _ ⟨⟩; rfl)).2
      fun _ hv => by cases hv
  refine ⟨⟨hkeys, rfl, hbool⟩, ?_, ?_, ?_, hmissing, ?_, ?_⟩
  · exact (hlist.comm (by rintro _ ⟨⟩; exact hkeys) (by rintro _ ⟨⟩; trivial)).symm.trans hequal
  · exact (hlist.container _ rfl rfl hbool).1.symm.trans hequal
  · exact (htrue.bool _ true rfl rfl).2.symm.trans hequal
  · exact (hlist'.container _ rfl rfl hbool).1.symm.trans hequal'
  · exact (htrue'.bool _ true rfl rfl).2.symm.trans hequal'

end Stepwise

end Stencil
