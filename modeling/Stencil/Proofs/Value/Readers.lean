import Stencil.Proofs.Value.Alike
import Stencil.Scope

/-!
# Readers of values

All that is read of a value is the same for its twins: its text, its truth, how it compares, and
where paths lead from it. Each reader looks at the content first and then at the parts, so each
lemma is a case split on `Twins.content`.

`Interchangeable` says that all paths lead to twins from two contexts. Twins are interchangeable,
and so are the scopes of twin items.
-/

namespace Stencil

/-! ## Numbers -/

namespace Number

variable {a b c d : Number}

/-- The sign of zero does not show in its place. -/
theorem Alike.position_eq (h : a.Alike b) : a.position = b.position := by
  have hzero {n : Number} (hn : n.isZero = true) : n.position = some 0 := by
    cases n with
    | nan => cases hn
    | infinity s => cases hn
    | finite s m =>
      have hunits : m.units = 0 := Magnitude.units_eq_zero_iff.2 (beq_iff_eq.1 hn)
      cases s <;> simp [position, signed, hunits]
  rcases h with rfl | ⟨ha, hb⟩
  · rfl
  · rw [hzero ha, hzero hb]

/-- The sign of zero does not show in an order. -/
theorem Alike.order?_eq (h : a.Alike b) (h' : c.Alike d) : a.order? c = b.order? d := by
  unfold order?
  rw [h.position_eq, h'.position_eq]

/-- The sign of zero does not show in a comparison. -/
theorem Alike.equals_eq (h : a.Alike b) (h' : c.Alike d) : a.equals c = b.equals d := by
  unfold equals
  rw [h.order?_eq h']

/-- The sign of zero is not written. -/
theorem Alike.display_eq (h : a.Alike b) : a.display = b.display := by
  have hzero {n : Number} (hn : n.isZero = true) : n.display = ['0'] := by
    cases n with
    | nan => cases hn
    | infinity s => cases hn
    | finite s m => exact if_pos (Magnitude.units_eq_zero_iff.2 (beq_iff_eq.1 hn))
  rcases h with rfl | ⟨ha, hb⟩
  · rfl
  · rw [hzero ha, hzero hb]

end Number

/-! ## Scalars -/

/-- Two scalars are the same but for the sign of zero. -/
inductive Scalar.Alike : Scalar → Scalar → Prop
  | number {a b : Number} (h : a.Alike b) : Alike (number a) (number b)
  | text (t : Text) : Alike (text t) (text t)

/-- The sign of zero does not show when scalars are compared. -/
theorem Scalar.Alike.equals_eq {a b c d : Scalar} (h : a.Alike b) (h' : c.Alike d) :
    a.equals c = b.equals d := by
  cases h with
  | number ha =>
    cases h' with
    | number hc => exact ha.equals_eq hc
    | text t => exact ha.equals_eq (.inl rfl)
  | text t =>
    cases h' with
    | number hc => exact hc.equals_eq (.inl rfl)
    | text _ => rfl

namespace Value

variable {v v' w w' : Value}

/-! ## Texts -/

/-- What a cell holds has the twins of the cell. -/
theorem Twins.of_cell (h : (cell v).Twins w) : v.Twins w := ⟨h.distinct, h.equivalent⟩

/-- The contents of twins are twins. -/
theorem Twins.contents (h : v.Twins w) : v.content.Twins w.content := by
  refine ⟨(keysDistinct_content v).2 h.distinct, ?_⟩
  unfold Equivalent
  rw [plain_content, plain_content]
  exact h.equivalent

/-- Items with the same texts are joined to the same text. -/
theorem displayItems_congr {xs ys : List Value}
    (h : List.Forall₂ (fun v w => v.display = w.display) xs ys) :
    displayItems xs = displayItems ys := by
  have hjoin (v w : Value) (rest : List Value) :
      displayItems (v :: w :: rest) = v.display ++ ',' :: displayItems (w :: rest) := rfl
  induction h with
  | nil => rfl
  | cons hv hrest ih =>
    cases hrest with
    | nil => simpa only [displayItems] using hv
    | cons hw hrest => rw [hjoin, hjoin, hv, ih]

/-- Twin contents are written alike if their items are. -/
theorem TwinContents.display_eq (h : TwinContents v w)
    (hitems : ∀ xs, v = .array xs → ∀ x ∈ xs, ∀ y, x.Twins y → x.display = y.display) :
    v.display = w.display := by
  cases h with
  | null => rfl
  | bool b => rfl
  | number hn => rw [display, display, hn.display_eq]
  | text t => rfl
  | @array xs ys hxy =>
    rw [display, display]
    refine displayItems_congr ?_
    exact ((List.forall₂_and_left xs ys).2 ⟨fun x hx => hx, hxy⟩).imp fun x y hxy =>
      hitems xs rfl x hxy.1 y hxy.2
  | object => rw [display, display]

/-- Twins are written alike. -/
theorem Twins.display_eq (h : v.Twins w) : v.display = w.display := by
  -- The induction is on the left value; the right one is replaced by its content.
  induction v using Value.induction generalizing w with
  | cell v ih => rw [display_cell, ih h.of_cell]
  | array xs ih =>
    rw [← display_content w]
    refine h.content.display_eq fun xs' hxs x hx y hxy => ?_
    obtain rfl : xs = xs' := array.inj hxs
    exact ih x hx hxy
  | _ =>
    rw [← display_content w]
    exact h.content.display_eq fun xs hxs => by cases hxs

/-! ## Equality -/

/-- A cell compares as its content, on the left. -/
theorem equals_content_left (v w : Value) : v.content.equals w = v.equals w := by
  induction v using Value.induction with
  | cell v ih => rw [content_cell, ih, equals_cell_left]
  | _ => rfl

/-- Items that compare alike make arrays that compare alike. -/
theorem itemsEqual_congr {xs ys xs' ys' : List Value} (hx : List.Forall₂ Twins xs xs')
    (hy : List.Forall₂ Twins ys ys')
    (h : ∀ x ∈ xs, ∀ x' y y', x.Twins x' → y.Twins y' → x.equals y = x'.equals y') :
    itemsEqual xs ys = itemsEqual xs' ys' := by
  induction hx generalizing ys ys' with
  | nil => cases hy <;> simp [itemsEqual]
  | cons hv _ ih =>
    obtain ⟨hfirst, hrest⟩ := List.forall_mem_cons.1 h
    cases hy with
    | nil => simp [itemsEqual]
    | cons hw hys => rw [itemsEqual, itemsEqual, hfirst _ _ _ hv hw, ih hys hrest]

/-- What stands on one side of a relation between options has something on the other. -/
theorem exists_of_rel {α β : Type} {r : α → β → Prop} {x : Option α} {y : Option β}
    (h : Option.Rel r x y) : (∀ a, x = some a → ∃ b, y = some b ∧ r a b) ∧
      ∀ b, y = some b → ∃ a, x = some a ∧ r a b := by
  cases h with
  | some h =>
    constructor
    · rintro _ ⟨⟩
      exact ⟨_, rfl, h⟩
    · rintro _ ⟨⟩
      exact ⟨_, rfl, h⟩
  | none => exact ⟨(fun a ha => by cases ha), fun b hb => by cases hb⟩

/-- Entries that compare alike make objects that compare alike. -/
theorem entriesWithin_congr {xs ys xs' ys' : List (Text × Value)}
    (hxs : (Entries.keys xs).Nodup) (hxs' : (Entries.keys xs').Nodup)
    (hx : ∀ k, Option.Rel Twins (Entries.get? k xs) (Entries.get? k xs'))
    (hy : ∀ k, Option.Rel Twins (Entries.get? k ys) (Entries.get? k ys'))
    (h : ∀ e ∈ xs, ∀ x' y y', e.2.Twins x' → y.Twins y' → e.2.equals y = x'.equals y') :
    entriesWithin xs ys = entriesWithin xs' ys' := by
  rw [Bool.eq_iff_iff, entriesWithin_iff, entriesWithin_iff]
  -- An entry on one side has a twin on the other, and what is equal to the twin has a twin too.
  constructor
  · rintro hwithin ⟨k, x'⟩ he'
    obtain ⟨x, hgx, htwin⟩ := (exists_of_rel (hx k)).2 x' ((Entries.get?_eq_some_iff hxs').2 he')
    have he := Entries.mem_of_get?_eq_some hgx
    obtain ⟨y, hgy, heq⟩ := hwithin _ he
    obtain ⟨y', hgy', htwin'⟩ := (exists_of_rel (hy k)).1 y hgy
    exact ⟨y', hgy', (h _ he x' y y' htwin htwin').symm.trans heq⟩
  · rintro hwithin ⟨k, x⟩ he
    obtain ⟨x', hgx', htwin⟩ := (exists_of_rel (hx k)).1 x ((Entries.get?_eq_some_iff hxs).2 he)
    obtain ⟨y', hgy', heq⟩ := hwithin _ (Entries.mem_of_get?_eq_some hgx')
    obtain ⟨y, hgy, htwin'⟩ := (exists_of_rel (hy k)).2 y' hgy'
    exact ⟨y, hgy, (h _ he x' y y' htwin htwin').trans heq⟩

/-- Twin contents compare alike if their parts do. -/
theorem TwinContents.equals_eq (h : TwinContents v v') (h' : TwinContents w w')
    (hitems : ∀ xs, v = .array xs → ∀ x ∈ xs, ∀ x' y y', x.Twins x' → y.Twins y' →
      x.equals y = x'.equals y')
    (hentries : ∀ xs, v = .object xs → ∀ e ∈ xs, ∀ x' y y', e.2.Twins x' → y.Twins y' →
      e.2.equals y = x'.equals y') :
    v.equals w = v'.equals w' := by
  cases h with
  | null => cases h' <;> rfl
  | bool b => cases h' <;> rfl
  | number hn =>
    cases h' with
    | number hm => exact hn.equals_eq hm
    | _ => rfl
  | text t => cases h' <;> rfl
  | @array xs xs' hx =>
    cases h' with
    | array hy =>
      simp only [equals, content]
      exact itemsEqual_congr hx hy (hitems xs rfl)
    | _ => rfl
  | @object xs xs' hxs hkeys hx =>
    cases h' with
    | object _ hkeys' hy =>
      have hlength := hkeys.length_eq
      have hlength' := hkeys'.length_eq
      simp only [Entries.keys, List.length_map] at hlength hlength'
      simp only [equals, content, hlength, hlength']
      rw [entriesWithin_congr hxs (hkeys.nodup_iff.1 hxs) hx hy (hentries xs rfl)]
    | _ => rfl

/-- Twins compare alike. -/
theorem Twins.equals_eq (h : v.Twins v') (h' : w.Twins w') : v.equals w = v'.equals w' := by
  -- The induction is on the first value; the other three are replaced by their contents.
  induction v using Value.induction generalizing v' w w' with
  | cell v ih => rw [equals_cell_left, ih h.of_cell h']
  | array xs ih =>
    rw [← equals_content_left v', ← equals_content_right, ← equals_content_right v'.content]
    refine h.content.equals_eq h'.content (fun xs' hxs x hx _ _ _ hxy => ?_)
      fun xs hxs => by cases hxs
    obtain rfl : xs = xs' := array.inj hxs
    exact ih x hx hxy
  | object xs ih =>
    rw [← equals_content_left v', ← equals_content_right, ← equals_content_right v'.content]
    refine h.content.equals_eq h'.content (fun xs hxs => by cases hxs)
      fun xs' hxs e he _ _ _ hxy => ?_
    obtain rfl : xs = xs' := object.inj hxs
    exact ih e he hxy
  | _ =>
    rw [← equals_content_left v', ← equals_content_right, ← equals_content_right v'.content]
    exact h.content.equals_eq h'.content (fun xs hxs => by cases hxs)
      fun xs hxs => by cases hxs

/-! ## Truth and conversion -/

/-- Twins have the same truth. -/
theorem TwinContents.isTruthy_eq (h : TwinContents v w) : v.isTruthy = w.isTruthy := by
  have hzero {n : Number} (hn : n.isZero = true) : (Value.number n).isTruthy = false := by
    cases n with
    | nan => cases hn
    | infinity s => cases hn
    | finite s m => exact congrArg not hn
  cases h with
  | number hn =>
    rcases hn with rfl | ⟨ha, hb⟩
    · rfl
    · rw [hzero ha, hzero hb]
  | _ => rfl

/-- Both of two twins have parts, or neither. -/
theorem TwinContents.isContainer_eq (h : TwinContents v w) : v.isContainer = w.isContainer := by
  cases h <;> rfl

/-- Twins are converted alike. -/
theorem TwinContents.scalar? (h : TwinContents v w) :
    Option.Rel Scalar.Alike v.scalar? w.scalar? := by
  have hdisplay : v.display = w.display := h.display_eq fun _ _ _ _ _ hxy => hxy.display_eq
  cases h with
  | null => exact .none
  | bool b => exact .some (.number (.inl rfl))
  | number hn => exact .some (.number hn)
  | text t => exact .some (.text t)
  | array _ =>
    simp only [Value.scalar?, content, hdisplay]
    exact .some (.text _)
  | object _ _ _ =>
    simp only [Value.scalar?, content, hdisplay]
    exact .some (.text _)

/-! ## Paths -/

/-- Twin arrays have twins in the same places. -/
theorem rel_getElem? {xs ys : List Value} (h : List.Forall₂ Twins xs ys) (i : Nat) :
    Option.Rel Twins xs[i]? ys[i]? := by
  induction h generalizing i with
  | nil => exact .none
  | cons hv _ ih =>
    cases i with
    | zero => exact .some hv
    | succ i => exact ih i

/-- What is related step by step is related in the end. -/
theorem rel_bind {α β γ δ : Type} {r : α → β → Prop} {q : γ → δ → Prop} {x : Option α}
    {y : Option β} {f : α → Option γ} {g : β → Option δ} (h : Option.Rel r x y)
    (hf : ∀ a b, r a b → Option.Rel q (f a) (g b)) : Option.Rel q (x.bind f) (y.bind g) := by
  cases h with
  | some hr => exact hf _ _ hr
  | none => exact .none

/-- A number is its own twin. -/
theorem twins_number (n : Number) : (number n).Twins (number n) :=
  ⟨trivial, n, rfl, .inl rfl⟩

/-- The properties of twins are twins. -/
theorem Twins.property? (h : v.Twins w) (k : Text) :
    Option.Rel Twins (v.property? k) (w.property? k) := by
  have hcontents := h.content
  unfold Value.property?
  generalize v.content = v at hcontents ⊢
  generalize w.content = w at hcontents ⊢
  cases hcontents with
  | object _ _ hentries => exact hentries k
  | @array xs ys hitems =>
    dsimp only
    split
    · rw [hitems.length_eq]
      exact .some (twins_number _)
    · cases indexOfKey? k with
      | none => exact .none
      | some i => exact rel_getElem? hitems i
  | _ => exact .none

/-- What a path leads to in one of two contexts, and what it leads to in the other: twins, and
neither is a cell. -/
structure TwinEnds (v w : Value) : Prop where
  twins : v.Twins w
  left : v.content = v
  right : w.content = w

/-- Twins that are no cells are like their contents. -/
theorem TwinEnds.contents (h : v.TwinEnds w) : TwinContents v w := by
  have hcontents := h.twins.content
  rwa [h.left, h.right] at hcontents

/-- The same keys lead from twins to twins. -/
theorem Twins.follow? (h : v.Twins w) (ks : List Text) :
    Option.Rel TwinEnds (follow? ks v) (follow? ks w) := by
  induction ks generalizing v w with
  | nil => exact .some ⟨h.contents, content_content v, content_content w⟩
  | cons k ks ih => exact rel_bind (h.property? k) fun _ _ hu => ih hu

/-! ## Contexts -/

/-- Every path leads to twins in two contexts, or nowhere in both. -/
def Interchangeable (v w : Value) : Prop :=
  ∀ path, Option.Rel TwinEnds (v.resolve? path) (w.resolve? path)

/-- Twins are interchangeable. -/
theorem Twins.interchangeable (h : v.Twins w) : v.Interchangeable w := by
  intro path
  unfold resolve?
  split
  · exact .none
  · exact h.follow? _

/-- A path leads to twin arrays in interchangeable contexts. -/
theorem Interchangeable.resolveArray? (h : v.Interchangeable w) (path : Text) :
    Option.Rel (List.Forall₂ Twins) (v.resolveArray? path) (w.resolveArray? path) := by
  have hrel := h path
  unfold Value.resolveArray?
  generalize v.resolve? path = x at hrel ⊢
  generalize w.resolve? path = y at hrel ⊢
  cases hrel with
  | none => exact .none
  | some hends =>
    cases hends.contents with
    | array hitems => exact .some hitems
    | _ => exact .none

/-- Objects with twins for the same keys are interchangeable. -/
theorem interchangeable_object {xs ys : List (Text × Value)}
    (h : ∀ k, Option.Rel Twins (Entries.get? k xs) (Entries.get? k ys)) :
    (object xs).Interchangeable (object ys) := by
  intro path
  unfold resolve?
  split
  · exact .none
  · -- A path has a first key, and the rest is followed from its value.
    cases hks : Text.pieces '.' path with
    | nil => exact absurd hks (Text.pieces_ne_nil '.' path)
    | cons k ks => exact rel_bind (h k) fun _ _ hu => hu.follow? ks

/-- Twin items have twins under the same places. -/
theorem rel_indexedEntries {xs ys : List Value} (h : List.Forall₂ Twins xs ys) (index : Nat)
    (k : Text) : Option.Rel Twins (Entries.get? k (indexedEntries index xs))
      (Entries.get? k (indexedEntries index ys)) := by
  induction h generalizing index with
  | nil => exact .none
  | cons hv _ ih =>
    rw [indexedEntries, indexedEntries, Entries.get?, Entries.get?]
    split
    · exact .some hv
    · exact ih (index + 1)

/-- Twins have twins for their own entries. -/
theorem Twins.ownEntries (h : v.Twins w) (k : Text) :
    Option.Rel Twins (Entries.get? k v.ownEntries) (Entries.get? k w.ownEntries) := by
  have hcontents := h.content
  unfold Value.ownEntries
  generalize v.content = v at hcontents ⊢
  generalize w.content = w at hcontents ⊢
  cases hcontents with
  | object _ _ hentries => exact hentries k
  | array hitems => exact rel_indexedEntries hitems 0 k
  | _ => exact .none

/-- Setting a key to twins leaves twins for all keys. -/
theorem rel_set {xs ys : List (Text × Value)} (hv : v.Twins w)
    (h : ∀ k, Option.Rel Twins (Entries.get? k xs) (Entries.get? k ys)) (key : Text) :
    ∀ k, Option.Rel Twins (Entries.get? k (Entries.set key v xs))
      (Entries.get? k (Entries.set key w ys)) := by
  intro k
  by_cases hk : k = key
  · rw [hk, Entries.get?_set_self, Entries.get?_set_self]
    exact .some hv
  · rw [Entries.get?_set_of_ne v xs hk, Entries.get?_set_of_ne w ys hk]
    exact h k

/-- The scopes of twin items are interchangeable. -/
theorem Twins.itemScope (h : v.Twins w) (index length : Nat) :
    (itemScope v index length).Interchangeable (itemScope w index length) := by
  have hbool (b : Bool) : (bool b).Twins (bool b) := ⟨trivial, rfl⟩
  exact interchangeable_object
    (rel_set (hbool _) (rel_set (hbool _) (rel_set (twins_number _) h.ownEntries _) _) _)

end Value

/-! ## Loose equality -/

/-- Twins are loosely equal to twins or both are not. -/
theorem looselyEqual_congr {l l' r r' : Option Value} (h : Option.Rel Value.TwinEnds l l')
    (h' : Option.Rel Value.TwinEnds r r') : looselyEqual l r = looselyEqual l' r' := by
  have hnone {v w : Value} (h : v.TwinEnds w) : v.scalar?.isNone = w.scalar?.isNone := by
    have hscalar := h.contents.scalar?
    generalize v.scalar? = a at hscalar ⊢
    generalize w.scalar? = b at hscalar ⊢
    cases hscalar <;> rfl
  cases h with
  | none =>
    cases h' with
    | none => rfl
    | some hr => exact hnone hr
  | @some v v' hl =>
    cases h' with
    | none => exact hnone hl
    | @some w w' hr =>
      -- Both pairs are compared as containers, or both as scalars.
      simp only [looselyEqual]
      rw [hl.contents.isContainer_eq, hr.contents.isContainer_eq, hl.twins.equals_eq hr.twins]
      have hscalar := hl.contents.scalar?
      have hscalar' := hr.contents.scalar?
      generalize v.scalar? = a at hscalar ⊢
      generalize v'.scalar? = a' at hscalar ⊢
      generalize w.scalar? = b at hscalar' ⊢
      generalize w'.scalar? = b' at hscalar' ⊢
      split
      · rfl
      · cases hscalar with
        | none => cases hscalar' <;> rfl
        | some ha =>
          cases hscalar' with
          | none => rfl
          | some hb => exact ha.equals_eq hb

end Stencil
