import Stencil.Text.Basic

/-!
# Tags

A tag is a text between two pairs of braces that is not empty and holds no brace that closes.
`Segment.ofText` divides a text into its tags and the characters that belong to none, from left to
right; together the segments are the text again (`Segment.flatMap_source_ofText`).
-/

namespace Stencil

/-- The beginning of a tag. -/
def tagStart : Text := ['{', '{']

/-- The end of a tag. -/
def tagEnd : Text := ['}', '}']

/-- The text up to the end of a tag, which is not empty and holds no brace that closes, and the text
after the tag. -/
def splitBraces? (t : Text) : Option (Text × Text) :=
  let inner := t.takeWhile (· ≠ '}')
  if inner = [] then none
  else (Text.after? tagEnd (t.dropWhile (· ≠ '}'))).map (inner, ·)

/-- The inner text, the end of the tag and what follows make up the text. -/
theorem splitBraces?_eq_append {t inner rest : Text} (h : splitBraces? t = some (inner, rest)) :
    t = inner ++ tagEnd ++ rest := by
  simp only [splitBraces?] at h
  split at h
  · cases h
  · simp only [Option.map_eq_some_iff, Prod.mk.injEq] at h
    obtain ⟨r, hr, rfl, rfl⟩ := h
    rw [List.append_assoc, ← Text.after?_eq_some_iff.1 hr, List.takeWhile_append_dropWhile]

/-- The inner text of the tag at the beginning of a text, and what follows the tag. -/
def tagAt? (t : Text) : Option (Text × Text) := (Text.after? tagStart t).bind splitBraces?

/-- The tag and what follows make up the text. -/
theorem tagAt?_eq_append {t inner rest : Text} (h : tagAt? t = some (inner, rest)) :
    t = tagStart ++ inner ++ tagEnd ++ rest := by
  simp only [tagAt?, Option.bind_eq_some_iff] at h
  obtain ⟨r, hr, hs⟩ := h
  rw [Text.after?_eq_some_iff.1 hr, splitBraces?_eq_append hs]
  simp

/-- A part of a text: a tag, or a character that belongs to none. -/
inductive Segment where
  | literal (c : Char)
  | tag (inner : Text)
deriving DecidableEq

namespace Segment

/-- The text of a segment. -/
def source : Segment → Text
  | literal c => [c]
  | tag inner => tagStart ++ inner ++ tagEnd

/-- The segments of a text without the first `skip` characters. -/
def ofTextFrom : Nat → Text → List Segment
  | _, [] => []
  | skip + 1, _ :: t => ofTextFrom skip t
  | 0, c :: t =>
    match tagAt? (c :: t) with
    | some (inner, _) => tag inner :: ofTextFrom (inner.length + 3) t
    | none => literal c :: ofTextFrom 0 t

/-- The segments of a text. -/
def ofText (t : Text) : List Segment := ofTextFrom 0 t

/-- Characters to be skipped can be dropped. -/
theorem ofTextFrom_eq (skip : Nat) (t : Text) : ofTextFrom skip t = ofText (t.drop skip) := by
  induction skip generalizing t with
  | zero => rfl
  | succ n ih =>
    cases t with
    | nil => rfl
    | cons c t => exact ih t

/-- The empty text has no segments. -/
@[simp] theorem ofText_nil : ofText [] = [] := rfl

/-- Where a tag stands, it is a segment. -/
theorem ofText_of_tagAt? {t inner rest : Text} (h : tagAt? t = some (inner, rest)) :
    ofText t = tag inner :: ofText rest := by
  have ht := tagAt?_eq_append h
  cases t with
  | nil => simp [tagStart] at ht
  | cons c t =>
    rw [ofText, ofTextFrom, h]
    simp only [ofTextFrom_eq, List.cons.injEq, true_and]
    congr 1
    simp only [tagStart, tagEnd, List.cons_append, List.nil_append, List.append_assoc,
      List.cons.injEq] at ht
    rw [ht.2]
    simp [← List.drop_drop]

/-- Where no tag stands, a character is a segment. -/
theorem ofText_cons_of_tagAt?_eq_none {c : Char} {t : Text} (h : tagAt? (c :: t) = none) :
    ofText (c :: t) = literal c :: ofText t := by
  rw [ofText, ofTextFrom, h]
  rfl

/-- The segments of a text, one after another, are the text. -/
theorem flatMap_source_ofText (t : Text) : (ofText t).flatMap source = t := by
  match h : t with
  | [] => rfl
  | c :: r =>
    cases htag : tagAt? (c :: r) with
    | none =>
      rw [ofText_cons_of_tagAt?_eq_none htag, List.flatMap_cons, flatMap_source_ofText r]
      rfl
    | some p =>
      -- A tag takes up characters of its own, so less text is left.
      obtain ⟨inner, rest⟩ := p
      have ht := tagAt?_eq_append htag
      have : rest.length < (c :: r).length := by
        rw [ht]
        simp [tagStart]
        omega
      rw [ofText_of_tagAt? htag, List.flatMap_cons, flatMap_source_ofText rest, ht]
      simp [source]
termination_by t.length
decreasing_by all_goals simp_all

end Segment

end Stencil
