import Stencil.Proofs.Scan.Opener

/-!
# The tags of a text

A tag stands at the beginning of a text if two braces, an inner text and the end of a tag do
(`tagAt?_eq_some_iff_eq_append`). From there on a text is read tag by tag, and character by
character where no tag stands: `tags_induction` is the induction, and `renderTags` follows it. A
text in which no tag begins, with what follows it, is `TagFree` and is written as it is
(`renderTags_append_of_tagFree`).
-/

namespace Stencil

/-! ## Tags at the beginning of a text -/

/-- A tag begins with two braces that open, and goes on to its end. -/
theorem tagAt?_eq_some_iff {t inner rest : Text} :
    tagAt? t = some (inner, rest) ↔
      ∃ r, t = tagStart ++ r ∧ splitBraces? r = some (inner, rest) := by
  unfold tagAt?
  simp only [Option.bind_eq_some_iff, Text.after?_eq_some_iff]

/-- Characters before the end of a tag belong to its inner text. -/
theorem splitBraces?_append {u s inner rest : Text} (hu : '}' ∉ u)
    (h : splitBraces? s = some (inner, rest)) :
    splitBraces? (u ++ s) = some (u ++ inner, rest) := by
  obtain ⟨rfl, hne, hinner⟩ := splitBraces?_eq_some_iff.1 h
  refine splitBraces?_eq_some_iff.2 ⟨by simp, by simp [hne], ?_⟩
  rw [List.mem_append, not_or]
  exact ⟨hu, hinner⟩

/-- No tag begins a text that does not go on to the end of one. -/
theorem tagAt?_eq_none_of_splitBraces? {t : Text} (h : splitBraces? t = none) :
    tagAt? t = none := by
  rcases htag : tagAt? t with _ | ⟨inner, rest⟩
  · rfl
  · obtain ⟨r, rfl, hsplit⟩ := tagAt?_eq_some_iff.1 htag
    rw [splitBraces?_append (by decide) hsplit] at h
    cases h

/-- A tag stands at the beginning of a text exactly if two braces, an inner text and the end of a
tag do. -/
theorem tagAt?_eq_some_iff_eq_append {t inner rest : Text} :
    tagAt? t = some (inner, rest) ↔
      t = tagStart ++ inner ++ tagEnd ++ rest ∧ Directive.each.IsInner inner := by
  rw [tagAt?_eq_some_iff]
  constructor
  · rintro ⟨s, rfl, hs⟩
    obtain ⟨rfl, hinner⟩ := splitBraces?_eq_some_iff.1 hs
    exact ⟨by simp, hinner⟩
  · rintro ⟨rfl, hinner⟩
    exact ⟨inner ++ tagEnd ++ rest, by simp, splitBraces?_eq_some_iff.2 ⟨rfl, hinner⟩⟩

/-- A tag stands at the beginning of a text that begins with one. -/
theorem tagAt?_source_append {inner : Text} (h : Directive.each.IsInner inner) (t : Text) :
    tagAt? ((Segment.tag inner).source ++ t) = some (inner, t) :=
  tagAt?_eq_some_iff_eq_append.2 ⟨rfl, h⟩

/-- No tag stands at the beginning of a text exactly if the text begins with none. -/
theorem tagAt?_eq_none_iff {t : Text} :
    tagAt? t = none ↔
      ∀ inner, Directive.each.IsInner inner → ¬ (Segment.tag inner).source <+: t := by
  constructor
  · rintro h inner hinner ⟨r, rfl⟩
    rw [tagAt?_source_append hinner] at h
    cases h
  · intro h
    rcases htag : tagAt? t with _ | ⟨inner, rest⟩
    · rfl
    · obtain ⟨rfl, hinner⟩ := tagAt?_eq_some_iff_eq_append.1 htag
      exact absurd (List.prefix_append _ _) (h inner hinner)

/-- Induction along the tags of a text and the characters that belong to none. -/
theorem tags_induction {P : Text → Prop} (nil : P [])
    (tag : ∀ t inner rest, tagAt? t = some (inner, rest) → P rest → P t)
    (literal : ∀ c t, tagAt? (c :: t) = none → P t → P (c :: t)) (t : Text) : P t := by
  induction hn : t.length using Nat.strongRecOn generalizing t with
  | ind n ih =>
    rcases t with _ | ⟨c, t⟩
    · exact nil
    · rcases htag : tagAt? (c :: t) with _ | ⟨inner, rest⟩
      · exact literal c t htag (ih _ (by rw [← hn]; exact Nat.lt_succ_self _) t rfl)
      · -- A tag has characters of its own.
        have hlt : rest.length < n := by
          rw [← hn, tagAt?_eq_append htag]
          simp [tagStart]
          omega
        exact tag _ inner rest htag (ih _ hlt rest rfl)

/-! ## Literal texts -/

/-- No tag begins in a text, where `s` follows it. -/
def TagFree (t s : Text) : Prop :=
  ∀ inner, Directive.each.IsInner inner → Text.Avoids (Segment.tag inner).source t s

/-- At the first character and in the rest of the text no tag begins. -/
theorem tagFree_cons_iff {t s : Text} {c : Char} :
    TagFree (c :: t) s ↔ tagAt? (c :: (t ++ s)) = none ∧ TagFree t s := by
  unfold TagFree
  simp only [tagAt?_eq_none_iff, Text.avoids_cons_iff]
  exact ⟨fun h => ⟨fun inner hi => (h inner hi).1, fun inner hi => (h inner hi).2⟩,
    fun h inner hi => ⟨h.1 inner hi, h.2 inner hi⟩⟩

/-- No tag begins in the empty text. -/
theorem tagFree_nil (s : Text) : TagFree [] s := fun _ _ => Text.avoids_nil _ _

/-- No tag begins in a text without braces that open. -/
theorem tagFree_of_notMem {t : Text} (ht : '{' ∉ t) (s : Text) : TagFree t s :=
  fun _ _ => Text.avoids_of_notMem ht

/-- Whether no tag begins in a text is found by looking at each of its characters. -/
instance decidableTagFree : (t s : Text) → Decidable (TagFree t s)
  | [], s => isTrue (tagFree_nil s)
  | _ :: t, s =>
    haveI := decidableTagFree t s
    decidable_of_iff _ tagFree_cons_iff.symm

/-! ## Rendering tag by tag -/

section Tags

variable {scope : Value}

/-- A tag is rendered, and then the tags of the text after it. -/
theorem renderTags_of_tagAt? {t inner rest : Text} (h : tagAt? t = some (inner, rest)) :
    renderTags scope t =
      (((Segment.tag inner).render scope).1 ++ (renderTags scope rest).1,
        ((Segment.tag inner).render scope).2 ++ (renderTags scope rest).2) := by
  unfold renderTags
  rw [Segment.ofText_of_tagAt? h]
  rfl

/-- A character that begins no tag is written as it is. -/
theorem renderTags_of_tagAt?_eq_none {c : Char} {t : Text} (h : tagAt? (c :: t) = none) :
    renderTags scope (c :: t) = (c :: (renderTags scope t).1, (renderTags scope t).2) := by
  unfold renderTags
  rw [Segment.ofText_cons_of_tagAt?_eq_none h]
  rfl

/-- A literal text is written as it is. -/
theorem renderTags_append_of_tagFree {t s : Text} (h : TagFree t s) :
    renderTags scope (t ++ s) = (t ++ (renderTags scope s).1, (renderTags scope s).2) := by
  induction t with
  | nil => rfl
  | cons c t ih =>
    obtain ⟨htag, ht⟩ := tagFree_cons_iff.1 h
    rw [List.cons_append, renderTags_of_tagAt?_eq_none htag, ih ht]
    rfl

end Tags

end Stencil
