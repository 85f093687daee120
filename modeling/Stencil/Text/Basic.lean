/-!
# Text and searching in it

A `Text` is the list of its characters. Places in a text are counted in the bytes of its UTF-8 form,
which `utf8Length` measures.

`after?` removes a known beginning (`after?_eq_some_iff`). `cut?` splits a text around the first
place where another text stands: what it returns is a decomposition of the text
(`cut?_eq_append`), and it fails exactly when there is no such place (`cut?_eq_none_iff`). `pieces`
splits at every occurrence of one character, also in a text that is put together
(`pieces_append`), and `intercalate_pieces` puts the pieces together again.
-/

namespace Stencil

/-- A text is the list of its characters. -/
abbrev Text := List Char

namespace Text

/-! ## Length in bytes -/

/-- The number of bytes of a text in UTF-8. -/
def utf8Length : Text → Nat
  | [] => 0
  | c :: t => c.utf8Size + utf8Length t

/-- The empty text has no bytes. -/
@[simp] theorem utf8Length_nil : utf8Length [] = 0 := rfl

/-- The first character adds its own bytes. -/
@[simp] theorem utf8Length_cons (c : Char) (t : Text) :
    utf8Length (c :: t) = c.utf8Size + utf8Length t := rfl

/-- The bytes of two texts add up when they are joined. -/
@[simp] theorem utf8Length_append (s t : Text) :
    utf8Length (s ++ t) = utf8Length s + utf8Length t := by
  induction s with
  | nil => simp
  | cons c s ih => simp [ih, Nat.add_assoc]

/-! ## Beginnings -/

/-- What follows `p` in a text that begins with `p`. -/
def after? : Text → Text → Option Text
  | [], t => some t
  | _ :: _, [] => none
  | c :: p, d :: t => if c = d then after? p t else none

/-- `after?` finds exactly the rest of a text that begins with `p`. -/
theorem after?_eq_some_iff {p t r : Text} : after? p t = some r ↔ t = p ++ r := by
  induction p generalizing t with
  | nil => simp [after?]
  | cons c p ih =>
    cases t with
    | nil => simp [after?]
    | cons d t =>
      by_cases h : c = d
      · subst h
        simp [after?, ih]
      · simp [after?, h, Ne.symm h]

/-- A beginning that was put in front is found. -/
@[simp] theorem after?_append (p r : Text) : after? p (p ++ r) = some r :=
  after?_eq_some_iff.2 rfl

/-- `after?` fails exactly on the texts that do not begin with `p`. -/
theorem after?_eq_none_iff {p t : Text} : after? p t = none ↔ ¬ p <+: t := by
  rw [Option.eq_none_iff_forall_ne_some]
  constructor
  · rintro h ⟨r, rfl⟩
    exact h r (after?_append p r)
  · intro h r hr
    exact h ⟨r, (after?_eq_some_iff.1 hr).symm⟩

/-! ## First occurrences -/

/-- The text before and the text after the first place where `needle` stands. -/
def cut? (needle : Text) : Text → Option (Text × Text)
  | [] => (after? needle []).map (([], ·))
  | c :: t =>
    match after? needle (c :: t) with
    | some r => some ([], r)
    | none => (cut? needle t).map fun (a, b) => (c :: a, b)

/-- Whether `needle` stands anywhere in a text. -/
def contains (needle t : Text) : Bool := (cut? needle t).isSome

/-- The two parts and the text between them make up the whole. -/
theorem cut?_eq_append {needle t a b : Text} (h : cut? needle t = some (a, b)) :
    t = a ++ needle ++ b := by
  induction t generalizing a with
  | nil =>
    simp only [cut?, Option.map_eq_some_iff, Prod.mk.injEq] at h
    obtain ⟨r, hr, rfl, rfl⟩ := h
    simpa using after?_eq_some_iff.1 hr
  | cons c t ih =>
    unfold cut? at h
    split at h
    · next r hr =>
      cases h
      simpa using after?_eq_some_iff.1 hr
    · simp only [Option.map_eq_some_iff, Prod.mk.injEq, Prod.exists] at h
      obtain ⟨a', b', h', rfl, rfl⟩ := h
      simp [ih h']

/-- `cut?` fails exactly when `needle` stands nowhere. -/
theorem cut?_eq_none_iff {needle t : Text} : cut? needle t = none ↔ ¬ needle <:+: t := by
  induction t with
  | nil =>
    simp [cut?, after?_eq_none_iff]
  | cons c t ih =>
    unfold cut?
    split
    · next r hr =>
      simp only [reduceCtorEq, false_iff, Decidable.not_not]
      exact ⟨[], r, by simpa using (after?_eq_some_iff.1 hr).symm⟩
    · next h =>
      rw [Option.map_eq_none_iff, ih, List.infix_cons_iff, not_or]
      exact ⟨fun h' => ⟨after?_eq_none_iff.1 h, h'⟩, And.right⟩

/-- `contains` says whether `needle` stands anywhere. -/
theorem contains_iff {needle t : Text} : contains needle t = true ↔ needle <:+: t := by
  rw [contains, Option.isSome_iff_ne_none, ne_eq, cut?_eq_none_iff, Decidable.not_not]

/-! ## Pieces between separators -/

/-- The texts between the occurrences of `sep`; there is one more of them than occurrences. -/
def pieces (sep : Char) : Text → List Text
  | [] => [[]]
  | c :: t =>
    if c = sep then [] :: pieces sep t
    else match pieces sep t with
      | [] => [[c]]
      | s :: r => (c :: s) :: r

/-- There is always a piece. -/
theorem pieces_ne_nil (sep : Char) (t : Text) : pieces sep t ≠ [] := by
  cases t with
  | nil => simp [pieces]
  | cons c t =>
    unfold pieces
    split
    · simp
    · split <;> simp

/-- The pieces with the separators between them are the text again. -/
theorem intercalate_pieces (sep : Char) (t : Text) :
    List.intercalate [sep] (pieces sep t) = t := by
  induction t with
  | nil => rfl
  | cons c t ih =>
    have hne := pieces_ne_nil sep t
    unfold pieces
    split
    · next h =>
      subst h
      obtain ⟨s, r, hp⟩ := List.exists_cons_of_ne_nil hne
      rw [hp] at ih ⊢
      simpa [List.intercalate] using ih
    · split
      · next hp => exact absurd hp hne
      · next s r hp =>
        rw [hp] at ih
        cases r with
        | nil => simpa [List.intercalate] using ih
        | cons _ _ => simpa [List.intercalate] using ih

/-- A separator between two texts comes between their pieces. -/
theorem pieces_append (sep : Char) (s t : Text) :
    pieces sep (s ++ sep :: t) = pieces sep s ++ pieces sep t := by
  induction s with
  | nil => simp [pieces]
  | cons c s ih =>
    obtain ⟨piece, rest, hp⟩ := List.exists_cons_of_ne_nil (pieces_ne_nil sep s)
    by_cases h : c = sep
    · simp [pieces, h, ih]
    · simp [pieces, h, ih, hp]

/-! ## Order -/

/-- Texts are ordered by their code points, a text before those that it begins. -/
def order : Text → Text → Ordering
  | [], [] => .eq
  | [], _ :: _ => .lt
  | _ :: _, [] => .gt
  | c :: s, d :: t => (compare c.toNat d.toNat).then (order s t)

end Text

end Stencil
