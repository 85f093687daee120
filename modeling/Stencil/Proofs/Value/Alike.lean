import Mathlib.Data.List.Forall2
import Stencil.Value.Equality

/-!
# Values that hold alike

Two values are alike when they differ at most in the order of keys and in the sign of zero
(`Value.Alike`, for values without cells), and equivalent when they are alike after all cells have
been replaced by what they hold (`Value.Equivalent`).

To read a value is to look at its content and then at its parts. `Twins` are equivalent values of
which the keys are distinct, and `Twins.content` says what their contents have in common: they are
of the same kind, and their parts are twins again, those of objects key by key. Values that are
equal are equivalent (`Value.equivalent_of_equals`).
-/

namespace Stencil

/-! ## Numbers -/

/-- A magnitude without units has no significand. -/
theorem Magnitude.units_eq_zero_iff {m : Magnitude} : m.units = 0 ↔ m.significand = 0 := by
  unfold units
  rw [Nat.mul_eq_zero]
  exact or_iff_left (Nat.ne_of_gt (twoTo_pos _))

namespace Number

/-- Signed numbers have the same size, and the same sign unless they are zero. -/
theorem signed_eq_signed_iff {s s' : Bool} {m n : Nat} :
    signed s m = signed s' n ↔ m = n ∧ (s = s' ∨ m = 0) := by
  unfold signed
  cases s <;> cases s' <;> simp <;> omega

/-- Two numbers are the same but for the sign of zero. -/
def Alike (a b : Number) : Prop := a = b ∨ (a.isZero = true ∧ b.isZero = true)

/-- Numbers that are equal are the same but for the sign of zero. -/
theorem alike_of_equals {a b : Number} (h : a.equals b = true) : a.Alike b := by
  obtain ⟨x, ha, hb⟩ := equals_iff.1 h
  have hplace : a.position = b.position := ha.trans hb.symm
  have hbeyond : Magnitude.beyond ≠ 0 := Nat.ne_of_gt (Nat.mul_pos (twoTo_pos _) (twoTo_pos _))
  cases a with
  | nan => cases ha
  | infinity s =>
    cases b with
    | nan => cases hb
    | infinity s' =>
      obtain ⟨-, rfl | hzero⟩ := signed_eq_signed_iff.1 (Option.some.inj hplace)
      · exact .inl rfl
      · exact absurd hzero hbeyond
    | finite s' n =>
      obtain ⟨hsize, -⟩ := signed_eq_signed_iff.1 (Option.some.inj hplace)
      exact absurd hsize.symm (Nat.ne_of_lt n.units_lt_beyond)
  | finite s m =>
    -- The units tell the magnitude, so only the sign can differ, and only at zero.
    cases b with
    | nan => cases hb
    | infinity s' =>
      obtain ⟨hsize, -⟩ := signed_eq_signed_iff.1 (Option.some.inj hplace)
      exact absurd hsize (Nat.ne_of_lt m.units_lt_beyond)
    | finite s' n =>
      obtain ⟨hsize, hsign⟩ := signed_eq_signed_iff.1 (Option.some.inj hplace)
      obtain rfl := Magnitude.ext_units hsize
      rcases hsign with rfl | hzero
      · exact .inl rfl
      · have hsignificand : (m.significand == 0) = true :=
          beq_iff_eq.2 (Magnitude.units_eq_zero_iff.1 hzero)
        exact .inr ⟨hsignificand, hsignificand⟩

end Number

/-! ## Entries -/

namespace Entries

variable {α β : Type} {k : Text} {v : α} {xs ys : Entries α}

/-- When the keys are distinct every entry is found. -/
theorem get?_eq_some_iff (hx : (keys xs).Nodup) : get? k xs = some v ↔ (k, v) ∈ xs := by
  refine ⟨mem_of_get?_eq_some, fun h => ?_⟩
  induction xs with
  | nil => cases h
  | cons e rest ih =>
    obtain ⟨k', v'⟩ := e
    obtain ⟨hnot, hrest⟩ := List.nodup_cons.1 hx
    unfold get?
    rcases List.mem_cons.1 h with heq | hmem
    · cases heq
      rw [if_pos rfl]
    · have hne : k' ≠ k := by
        rintro rfl
        exact hnot (List.mem_map.2 ⟨_, hmem, rfl⟩)
      rw [if_neg hne]
      exact ih hrest hmem

/-- When the keys are distinct their order does not matter. -/
theorem get?_eq_of_perm (hx : (keys xs).Nodup) (h : xs.Perm ys) (k : Text) :
    get? k xs = get? k ys := by
  have hy : (keys ys).Nodup := (h.map Prod.fst).nodup_iff.1 hx
  ext v
  rw [get?_eq_some_iff hx, get?_eq_some_iff hy, h.mem_iff]

/-- Two lists of entries agree place by place. -/
def Agree (r : α → β → Prop) (xs : Entries α) (ys : Entries β) : Prop :=
  List.Forall₂ (fun e f => e.1 = f.1 ∧ r e.2 f.2) xs ys

/-- Entries that agree have the same keys. -/
theorem Agree.keys_eq {r : α → β → Prop} {xs : Entries α} {ys : Entries β} (h : Agree r xs ys) :
    keys xs = keys ys := by
  induction h with
  | nil => rfl
  | cons he _ ih => exact congrArg₂ List.cons he.1 ih

/-- Entries that agree have values for the same keys, and these agree. -/
theorem Agree.get? {r : α → β → Prop} {xs : Entries α} {ys : Entries β} (h : Agree r xs ys)
    (k : Text) : Option.Rel r (get? k xs) (get? k ys) := by
  induction h with
  | nil => exact .none
  | @cons e f _ _ he _ ih =>
    obtain ⟨k', v⟩ := e
    obtain ⟨k'', w⟩ := f
    obtain ⟨rfl, hr⟩ : k' = k'' ∧ r v w := he
    unfold Entries.get?
    split
    · exact .some hr
    · exact ih

/-- Distinct keys that all stand among as many entries are the keys of those entries, and the
entries can be put in their order. -/
theorem exists_perm_agree {r : α → β → Prop} {xs : Entries α} {ys : Entries β}
    (hx : (keys xs).Nodup) (hlength : xs.length = ys.length)
    (h : ∀ e ∈ xs, ∃ w, (e.1, w) ∈ ys ∧ r e.2 w) : ∃ zs, ys.Perm zs ∧ Agree r xs zs := by
  induction xs generalizing ys with
  | nil =>
    obtain rfl := List.eq_nil_of_length_eq_zero hlength.symm
    exact ⟨[], .nil, .nil⟩
  | cons e rest ih =>
    obtain ⟨hnot, hrest⟩ := List.nodup_cons.1 hx
    obtain ⟨⟨w, hw, hr⟩, hothers⟩ := List.forall_mem_cons.1 h
    obtain ⟨s, t, rfl⟩ := List.append_of_mem hw
    -- The entry with the key goes to the front, and the others are put in order among themselves.
    have hmiddle : (s ++ (e.1, w) :: t).Perm ((e.1, w) :: (s ++ t)) := List.perm_middle
    have hlength' : rest.length = (s ++ t).length :=
      Nat.succ.inj (hlength.trans hmiddle.length_eq)
    obtain ⟨zs, hperm, hagree⟩ := ih hrest hlength' fun f hf => by
        obtain ⟨u, hu, hru⟩ := hothers f hf
        refine ⟨u, ?_, hru⟩
        rcases List.mem_cons.1 (hmiddle.mem_iff.1 hu) with heq | hmem
        · -- The key of the first entry is not among the others.
          exact absurd (List.mem_map.2 ⟨f, hf, (Prod.mk.inj heq).1⟩) hnot
        · exact hmem
    exact ⟨(e.1, w) :: zs, hmiddle.trans (hperm.cons _), .cons ⟨rfl, hr⟩ hagree⟩

end Entries

namespace Value

/-! ## Induction on values -/

/-- What holds of a value if it holds of its parts holds of all values. -/
@[elab_as_elim]
theorem induction {motive : Value → Prop} (null : motive null) (bool : ∀ b, motive (bool b))
    (number : ∀ n, motive (number n)) (text : ∀ t, motive (text t))
    (array : ∀ items, (∀ v ∈ items, motive v) → motive (array items))
    (object : ∀ entries, (∀ e ∈ entries, motive e.2) → motive (object entries))
    (cell : ∀ v, motive v → motive (cell v)) (v : Value) : motive v :=
  @Value.rec motive (fun items => ∀ v ∈ items, motive v) (fun entries => ∀ e ∈ entries, motive e.2)
    (fun e => motive e.2) null bool number text array object cell
    (List.forall_mem_nil _) (fun _ _ hv hrest => List.forall_mem_cons.2 ⟨hv, hrest⟩)
    (List.forall_mem_nil _) (fun _ _ he hrest => List.forall_mem_cons.2 ⟨he, hrest⟩)
    (fun _ _ hv => hv) v

/-! ## Distinct keys -/

mutual

/-- No object in the value has a key twice. -/
def KeysDistinct : Value → Prop
  | array items => ItemsDistinct items
  | object entries => (Entries.keys entries).Nodup ∧ EntriesDistinct entries
  | cell v => v.KeysDistinct
  | null => True
  | bool _ => True
  | number _ => True
  | text _ => True
termination_by structural v => v

/-- No object in the items of an array has a key twice. -/
def ItemsDistinct : List Value → Prop
  | [] => True
  | v :: rest => v.KeysDistinct ∧ ItemsDistinct rest
termination_by structural items => items

/-- No object in the values of entries has a key twice. -/
def EntriesDistinct : List (Text × Value) → Prop
  | [] => True
  | (_, v) :: rest => v.KeysDistinct ∧ EntriesDistinct rest
termination_by structural entries => entries

end

/-- The keys in items are distinct if they are in each of them. -/
theorem itemsDistinct_iff {items : List Value} :
    ItemsDistinct items ↔ ∀ v ∈ items, v.KeysDistinct := by
  induction items with
  | nil => simp [ItemsDistinct]
  | cons v rest ih => simp [ItemsDistinct, ih]

/-- The keys in the values of entries are distinct if they are in each of them. -/
theorem entriesDistinct_iff {entries : List (Text × Value)} :
    EntriesDistinct entries ↔ ∀ e ∈ entries, e.2.KeysDistinct := by
  induction entries with
  | nil => simp [EntriesDistinct]
  | cons e rest ih => simp [EntriesDistinct, ih]

/-- The keys in a value are those in its content. -/
theorem keysDistinct_content (v : Value) : v.content.KeysDistinct ↔ v.KeysDistinct := by
  fun_induction content v with
  | case1 v ih => rw [ih, KeysDistinct]
  | case2 v h => rfl

/-! ## Values without cells -/

/-- A value without cells is its content without cells. -/
theorem plain_content (v : Value) : v.content.plain = v.plain := by
  fun_induction content v with
  | case1 v ih => rw [ih, plain]
  | case2 v h => rfl

/-- The items of an array lose their cells one by one. -/
theorem plainItems_eq_map (items : List Value) : plainItems items = items.map plain := by
  induction items with
  | nil => rfl
  | cons v rest ih => rw [plainItems, ih, List.map_cons]

/-- The entries of an object lose the cells in their values. -/
theorem plainEntries_eq_map (entries : List (Text × Value)) :
    plainEntries entries = entries.map fun e => (e.1, e.2.plain) := by
  induction entries with
  | nil => rfl
  | cons e rest ih => rw [plainEntries, ih, List.map_cons]

mutual

/-- Two values without cells are the same but for the order of keys and the sign of zero. -/
def Alike : Value → Value → Prop
  | null, w => w = null
  | bool b, w => w = bool b
  | number a, w => ∃ b, w = number b ∧ a.Alike b
  | text t, w => w = text t
  | array xs, w => ∃ ys, w = array ys ∧ ItemsAlike xs ys
  | object xs, w => ∃ ys zs, w = object ys ∧ ys.Perm zs ∧ EntriesAlike xs zs
  | cell _, _ => False
termination_by structural v => v

/-- Two lists of items are alike place by place. -/
def ItemsAlike : List Value → List Value → Prop
  | [], ys => ys = []
  | x :: xs, ys => ∃ y rest, ys = y :: rest ∧ x.Alike y ∧ ItemsAlike xs rest
termination_by structural xs => xs

/-- Two lists of entries have the same keys with values that are alike, place by place. -/
def EntriesAlike : List (Text × Value) → List (Text × Value) → Prop
  | [], ys => ys = []
  | (k, v) :: xs, ys => ∃ w rest, ys = (k, w) :: rest ∧ v.Alike w ∧ EntriesAlike xs rest
termination_by structural xs => xs

end

/-- Items are alike place by place. -/
theorem itemsAlike_iff {xs ys : List Value} : ItemsAlike xs ys ↔ List.Forall₂ Alike xs ys := by
  induction xs generalizing ys with
  | nil => rw [ItemsAlike, List.forall₂_nil_left_iff]
  | cons x xs ih =>
    rw [ItemsAlike, List.forall₂_cons_left_iff]
    constructor
    · rintro ⟨y, rest, rfl, hy, hrest⟩
      exact ⟨y, rest, hy, ih.1 hrest, rfl⟩
    · rintro ⟨y, rest, hy, hrest, rfl⟩
      exact ⟨y, rest, rfl, hy, ih.2 hrest⟩

/-- Entries are alike when they agree. -/
theorem entriesAlike_iff {xs ys : List (Text × Value)} :
    EntriesAlike xs ys ↔ Entries.Agree Alike xs ys := by
  unfold Entries.Agree
  induction xs generalizing ys with
  | nil => rw [EntriesAlike, List.forall₂_nil_left_iff]
  | cons e xs ih =>
    obtain ⟨k, v⟩ := e
    rw [EntriesAlike, List.forall₂_cons_left_iff]
    constructor
    · rintro ⟨w, rest, rfl, hw, hrest⟩
      exact ⟨(k, w), rest, ⟨rfl, hw⟩, ih.1 hrest, rfl⟩
    · rintro ⟨⟨k', w⟩, rest, ⟨hk, hw⟩, hrest, rfl⟩
      obtain rfl : k = k' := hk
      exact ⟨w, rest, rfl, hw, ih.2 hrest⟩

/-- Two values are alike when what cells hold stands in the place of all cells. -/
def Equivalent (v w : Value) : Prop := v.plain.Alike w.plain

/-! ## Twins -/

/-- Two equivalent values with distinct keys. -/
structure Twins (v w : Value) : Prop where
  distinct : v.KeysDistinct
  equivalent : v.Equivalent w

/-- What the contents of twins have in common. -/
inductive TwinContents : Value → Value → Prop
  | null : TwinContents null null
  | bool (b : Bool) : TwinContents (bool b) (bool b)
  | number {a b : Number} (h : a.Alike b) : TwinContents (number a) (number b)
  | text (t : Text) : TwinContents (text t) (text t)
  | array {xs ys : List Value} (h : List.Forall₂ Twins xs ys) : TwinContents (array xs) (array ys)
  | object {xs ys : List (Text × Value)} (hx : (Entries.keys xs).Nodup)
    (hkeys : (Entries.keys xs).Perm (Entries.keys ys))
    (h : ∀ k, Option.Rel Twins (Entries.get? k xs) (Entries.get? k ys)) :
    TwinContents (object xs) (object ys)

/-- A key has the value without cells of what it had. -/
theorem get?_plainEntries (k : Text) (entries : List (Text × Value)) :
    Entries.get? k (plainEntries entries) = (Entries.get? k entries).map plain := by
  induction entries with
  | nil => rfl
  | cons e rest ih =>
    obtain ⟨k', v⟩ := e
    rw [plainEntries, Entries.get?, Entries.get?]
    split
    · rfl
    · exact ih

/-- The keys stay when the values lose their cells. -/
theorem keys_plainEntries (entries : List (Text × Value)) :
    Entries.keys (plainEntries entries) = Entries.keys entries := by
  rw [plainEntries_eq_map, Entries.keys, List.map_map]
  rfl

/-- The items of twin arrays are twins. -/
theorem twins_items {xs ys : List Value} (hx : ItemsDistinct xs)
    (h : ItemsAlike (plainItems xs) (plainItems ys)) : List.Forall₂ Twins xs ys := by
  rw [itemsAlike_iff, plainItems_eq_map, plainItems_eq_map, List.forall₂_map_left_iff,
    List.forall₂_map_right_iff] at h
  rw [itemsDistinct_iff] at hx
  exact ((List.forall₂_and_left xs ys).2 ⟨hx, h⟩).imp fun _ _ hv => ⟨hv.1, hv.2⟩

/-- The keys of twin objects are the same, and their values are twins. -/
theorem twins_entries {xs ys zs : List (Text × Value)} (hx : (Entries.keys xs).Nodup)
    (hv : EntriesDistinct xs) (hperm : (plainEntries ys).Perm zs)
    (h : EntriesAlike (plainEntries xs) zs) :
    (Entries.keys xs).Perm (Entries.keys ys) ∧
      ∀ k, Option.Rel Twins (Entries.get? k xs) (Entries.get? k ys) := by
  rw [entriesAlike_iff] at h
  -- `zs` has the keys of `xs` in their order, and as an order of `ys` it finds what `ys` finds.
  have hkeys : Entries.keys xs = Entries.keys zs := by rw [← keys_plainEntries, h.keys_eq]
  constructor
  · rw [hkeys, ← keys_plainEntries ys]
    exact (hperm.map Prod.fst).symm
  · intro k
    have hrel := h.get? k
    rw [Entries.get?_eq_of_perm (hkeys ▸ hx) hperm.symm k, get?_plainEntries,
      get?_plainEntries] at hrel
    rw [entriesDistinct_iff] at hv
    cases hgx : Entries.get? k xs with
    | none =>
      cases hgy : Entries.get? k ys with
      | none => exact .none
      | some w =>
        rw [hgx, hgy] at hrel
        cases hrel
    | some v =>
      cases hgy : Entries.get? k ys with
      | none =>
        rw [hgx, hgy] at hrel
        cases hrel
      | some w =>
        rw [hgx, hgy] at hrel
        cases hrel with
        | some halike => exact .some ⟨hv _ (Entries.mem_of_get?_eq_some hgx), halike⟩

/-- Twins have the same kind of content, with twins for its parts. -/
theorem Twins.content {v w : Value} (h : v.Twins w) : TwinContents v.content w.content := by
  have hdistinct := (keysDistinct_content v).2 h.distinct
  have halike : v.content.plain.Alike w.content.plain := by
    rw [plain_content, plain_content]
    exact h.equivalent
  have hv := content_ne_cell v
  have hw := content_ne_cell w
  generalize v.content = v at *
  generalize w.content = w at *
  -- Since neither is a cell, both are of one kind.
  cases v with
  | null =>
    cases w with
    | null => exact .null
    | cell w => exact absurd rfl (hw w)
    | _ => simp [plain, Alike] at halike
  | bool b =>
    cases w with
    | bool b' =>
      obtain rfl : b' = b := by simpa [plain, Alike] using halike
      exact .bool b'
    | cell w => exact absurd rfl (hw w)
    | _ => simp [plain, Alike] at halike
  | number a =>
    cases w with
    | number b =>
      have hnumber : a.Alike b := by simpa [plain, Alike] using halike
      exact .number hnumber
    | cell w => exact absurd rfl (hw w)
    | _ => simp [plain, Alike] at halike
  | text t =>
    cases w with
    | text t' =>
      obtain rfl : t' = t := by simpa [plain, Alike] using halike
      exact .text t'
    | cell w => exact absurd rfl (hw w)
    | _ => simp [plain, Alike] at halike
  | array xs =>
    cases w with
    | array ys =>
      have hitems : ItemsAlike (plainItems xs) (plainItems ys) := by
        simpa [plain, Alike] using halike
      exact .array (twins_items hdistinct hitems)
    | cell w => exact absurd rfl (hw w)
    | _ => simp [plain, Alike] at halike
  | object xs =>
    cases w with
    | object ys =>
      obtain ⟨zs, hperm, hentries⟩ : ∃ zs, (plainEntries ys).Perm zs ∧
          EntriesAlike (plainEntries xs) zs := by
        simpa [plain, Alike] using halike
      obtain ⟨hkeys, hvalues⟩ := twins_entries hdistinct.1 hdistinct.2 hperm hentries
      exact .object hdistinct.1 hkeys hvalues
    | cell w => exact absurd rfl (hw w)
    | _ => simp [plain, Alike] at halike
  | cell v => exact absurd rfl (hv v)

/-! ## Equal values -/

/-- A cell compares as its content, on the right. -/
theorem equals_content_right (v w : Value) : v.equals w.content = v.equals w := by
  induction v using Value.induction with
  | cell v ih => rw [equals_cell_left, equals_cell_left, ih]
  | _ => simp only [equals, content_content]

/-- Arrays are equal when their items are equal place by place. -/
theorem itemsEqual_iff {xs ys : List Value} :
    itemsEqual xs ys = true ↔ List.Forall₂ (fun v w => v.equals w = true) xs ys := by
  induction xs generalizing ys with
  | nil => cases ys <;> simp [itemsEqual]
  | cons x xs ih => cases ys <;> simp [itemsEqual, ih]

/-- The entries of one object have equals in another when each of them has one. -/
theorem entriesWithin_iff {xs ys : List (Text × Value)} :
    entriesWithin xs ys = true ↔
      ∀ e ∈ xs, ∃ w, Entries.get? e.1 ys = some w ∧ e.2.equals w = true := by
  induction xs with
  | nil => simp [entriesWithin]
  | cons e xs ih =>
    obtain ⟨k, v⟩ := e
    rw [entriesWithin, Bool.and_eq_true, ih, List.forall_mem_cons]
    cases Entries.get? k ys <;> simp

/-- Values that are equal are equivalent, if the keys are distinct. -/
theorem equivalent_of_equals {v w : Value} (hv : v.KeysDistinct) (h : v.equals w = true) :
    v.Equivalent w := by
  unfold Equivalent
  rw [← plain_content w]
  induction v using Value.induction generalizing w with
  | null =>
    simp only [equals] at h
    split at h
    · next hw =>
      rw [hw]
      rfl
    · cases h
  | bool b =>
    simp only [equals] at h
    split at h
    · next b' hw =>
      obtain rfl : b = b' := by simpa using h
      rw [hw]
      rfl
    · cases h
  | number n =>
    simp only [equals] at h
    split at h
    · next m hw => exact ⟨m, by rw [hw, plain], Number.alike_of_equals h⟩
    · cases h
  | text t =>
    simp only [equals] at h
    split at h
    · next t' hw =>
      obtain rfl : t = t' := by simpa using h
      rw [hw]
      rfl
    · cases h
  | array xs ih =>
    simp only [equals] at h
    split at h
    · next ys hw =>
      rw [KeysDistinct, itemsDistinct_iff] at hv
      rw [itemsEqual_iff] at h
      refine ⟨plainItems ys, by rw [hw, plain], ?_⟩
      rw [itemsAlike_iff, plainItems_eq_map, plainItems_eq_map, List.forall₂_map_left_iff,
        List.forall₂_map_right_iff]
      refine ((List.forall₂_and_left xs ys).2 ⟨fun x hx => hx, h⟩).imp fun x y hxy => ?_
      rw [← plain_content y]
      exact ih x hxy.1 (hv x hxy.1) hxy.2
    · cases h
  | object xs ih =>
    simp only [equals] at h
    split at h
    · next ys hw =>
      obtain ⟨hkeys, hvalues⟩ := hv
      rw [entriesDistinct_iff] at hvalues
      obtain ⟨hlength, hwithin⟩ := Bool.and_eq_true_iff.1 h
      rw [entriesWithin_iff] at hwithin
      -- The values of the one object lead to entries of the other, and to all of them.
      have hdistinct : (Entries.keys (plainEntries xs)).Nodup := by rwa [keys_plainEntries]
      have hlength' : (plainEntries xs).length = (plainEntries ys).length := by
        simpa [plainEntries_eq_map] using hlength
      obtain ⟨zs, hperm, hagree⟩ := Entries.exists_perm_agree (r := Alike) hdistinct hlength'
        fun e he => by
          rw [plainEntries_eq_map] at he ⊢
          obtain ⟨f, hf, rfl⟩ := List.mem_map.1 he
          obtain ⟨u, hget, heq⟩ := hwithin f hf
          refine ⟨u.plain, List.mem_map.2 ⟨_, Entries.mem_of_get?_eq_some hget, rfl⟩, ?_⟩
          rw [← plain_content u]
          exact ih f hf (hvalues f hf) heq
      exact ⟨plainEntries ys, zs, by rw [hw, plain], hperm, entriesAlike_iff.2 hagree⟩
    · cases h
  | cell v ih =>
    rw [equals_cell_left] at h
    exact ih hv h

end Value

end Stencil
