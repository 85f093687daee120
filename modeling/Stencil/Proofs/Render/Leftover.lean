import Stencil.Proofs.Render.Tags
import Stencil.Proofs.Render.Truncation
import Stencil.Proofs.Value.Texts

/-!
# What is left of the blocks

When no block is left to expand, the tags before the first opener are substituted. If the values
hold no brace that opens, this makes no opener out of what stood between the tags: between two
braces of a text that begin no tag and the next tag there is a brace that closes
(`prefix_of_prefix_renderTags`), and no opener reaches over it. So the opener that was the first is
the first still (`avoids_renderTags`), and what follows it is read as before: no block is left in
the output.
-/

namespace Stencil

/-! ## Openers around tags -/

section Tags

variable {scope : Value}

/-- A text that does not go on to the end of a tag is written as it is up to its first brace that
closes. -/
theorem prefix_of_prefix_renderTags {s w tail : Text} (hs : splitBraces? s = none) (hw : '}' ∉ w)
    (h : w <+: (renderTags scope s).1 ++ tail) : w <+: s ++ tail := by
  induction s generalizing w with
  | nil => exact h
  | cons c s ih =>
    rw [renderTags_of_tagAt?_eq_none (tagAt?_eq_none_of_splitBraces? hs)] at h
    rcases w with _ | ⟨x, w⟩
    · exact List.nil_prefix
    · obtain ⟨rfl, hrest⟩ := List.cons_prefix_cons.1 h
      obtain ⟨hx, hw'⟩ := not_or.1 (mt List.mem_cons.2 hw)
      -- The rest does not go on to the end of a tag either: the character would be in the tag.
      have hs' : splitBraces? s = none := by
        rcases hsplit : splitBraces? s with _ | ⟨inner, rest⟩
        · rfl
        · have hcons := splitBraces?_append (u := [x]) (by simpa using hx) hsplit
          rw [List.singleton_append, hs] at hcons
          cases hcons
      exact List.cons_prefix_cons.2 ⟨rfl, ih hs' hw' hrest⟩

/-- Where no tag begins, no other text of two braces and what may follow them comes to stand. -/
theorem prefix_of_prefix_cons_renderTags {c : Char} {t v tail : Text}
    (htag : tagAt? (c :: t) = none) (hv : '}' ∉ v)
    (h : tagStart ++ v <+: c :: ((renderTags scope t).1 ++ tail)) :
    tagStart ++ v <+: c :: (t ++ tail) := by
  obtain ⟨rfl, h'⟩ := List.cons_prefix_cons.1 h
  refine List.cons_prefix_cons.2 ⟨rfl, ?_⟩
  rcases t with _ | ⟨x, t⟩
  · exact h'
  · rcases hnext : tagAt? (x :: t) with _ | ⟨inner, rest⟩
    · -- The second brace is in the text, and what follows it is written as it is.
      rw [renderTags_of_tagAt?_eq_none hnext] at h'
      obtain ⟨rfl, hrest⟩ := List.cons_prefix_cons.1 h'
      have hsplit : splitBraces? t = none := by
        rcases hsplit : splitBraces? t with _ | ⟨inner, rest⟩
        · rfl
        · have htag' := tagAt?_eq_some_iff.2 ⟨t, rfl, hsplit⟩
          rw [show tagStart ++ t = '{' :: '{' :: t from rfl, htag] at htag'
          cases htag'
      exact List.cons_prefix_cons.2 ⟨rfl, prefix_of_prefix_renderTags hsplit hv hrest⟩
    · -- A tag after one brace begins at that brace already.
      obtain ⟨r, hr, hsplit⟩ := tagAt?_eq_some_iff.1 hnext
      have htag' : tagAt? ('{' :: x :: t) = some ('{' :: inner, rest) := by
        refine tagAt?_eq_some_iff.2 ⟨['{'] ++ r, ?_, splitBraces?_append (by decide) hsplit⟩
        rw [hr]
        rfl
      rw [htag] at htag'
      cases htag'

/-- What is written for a tag is the tag itself or holds no brace that opens, if no value does. -/
theorem render_tag_eq_or_notMem (hv : scope.Lacks '{') (inner : Text) :
    ((Segment.tag inner).render scope).1 = tagStart ++ inner ++ tagEnd ∨
      '{' ∉ ((Segment.tag inner).render scope).1 := by
  simp only [Segment.render]
  split
  · exact .inl rfl
  · right
    split
    · next v hresolve => exact Value.notMem_display_of_lacks (.inl rfl) v (hv.resolve? hresolve)
    · exact List.not_mem_nil

/-- Substituting the tags of a text makes no opener, if no value holds a brace that opens. -/
theorem avoids_renderTags (hv : scope.Lacks '{') {v head tail : Text} (hbrace : '}' ∉ v)
    (h : Text.Avoids (tagStart ++ v) head tail) :
    Text.Avoids (tagStart ++ v) (renderTags scope head).1 tail := by
  induction head using tags_induction with
  | nil => exact h
  | literal c t htag ih =>
    obtain ⟨hc, ht⟩ := Text.avoids_cons_iff.1 h
    rw [renderTags_of_tagAt?_eq_none htag]
    exact Text.avoids_cons_iff.2
      ⟨fun hpre => hc (prefix_of_prefix_cons_renderTags htag hbrace hpre), ih ht⟩
  | tag t inner rest htag ih =>
    have ht := tagAt?_eq_append htag
    rw [ht, Text.avoids_append_iff] at h
    rw [renderTags_of_tagAt? htag]
    refine Text.avoids_append_iff.2 ⟨?_, ih h.2⟩
    rcases render_tag_eq_or_notMem hv inner with hkept | hnone
    · -- The braces at the end of the tag keep what follows it apart.
      have hend : tagStart ++ inner ++ tagEnd = tagStart ++ inner ++ ['}'] ++ ['}'] := by
        simp [tagEnd]
      rw [hkept, hend]
      rw [hend] at h
      exact h.1.congr (by simp [tagStart, hbrace]) _
    · exact Text.avoids_of_notMem hnone

end Tags

/-! ## The output of a render -/

/-- Substituting the tags of a text without blocks to expand makes no block. -/
theorem findBlock?_substitute {scope : Value} (hv : scope.Lacks '{') (reporting : Bool) {t : Text}
    (h : ∀ d, findBlock? d t = none) (d : Directive) :
    findBlock? d (substitute reporting scope t).1 = none := by
  have hopener : ∃ v, d.opener = tagStart ++ v ∧ '}' ∉ v := by
    cases d <;> exact ⟨_, rfl, by decide⟩
  obtain ⟨v, hv', hbrace⟩ := hopener
  -- The tags before the tail are substituted, and the tail is read as before.
  have hpart {head tail : Text} (hhead : d.opener.Avoids head tail)
      (htail : findBlock? d tail = none) :
      findBlock? d ((renderTags scope head).1 ++ tail) = none := by
    rw [hv'] at hhead
    have hout := avoids_renderTags hv hbrace hhead
    rw [← hv'] at hout
    rw [findBlock?_append tail hout, htail]
    rfl
  unfold substitute
  rcases hsplit : splitOpener? t with _ | ⟨head, d', tail⟩
  · have hno : ¬ d.opener <:+: t := splitOpener?_eq_none_iff.1 hsplit d
    have hhead : d.opener.Avoids t [] :=
      (Text.avoids_iff_not_infix (Mark.text_ne_nil d .opens)).2 hno
    have hnil : findBlock? d [] = none := by
      cases d <;> rfl
    simpa using hpart hhead hnil
  · obtain ⟨rfl, hfirst⟩ := splitOpener?_eq_some_iff.1 hsplit
    have hhead := (firstOpener_append_iff.1 hfirst).2 d
    have htail : findBlock? d tail = none := by
      have hwhole := h d
      rw [findBlock?_append tail hhead] at hwhole
      exact Option.map_eq_none_iff.1 hwhole
    exact hpart hhead htail

/-- A render that was not cut short leaves no block to expand in its output, whatever openers are
left in it: rendering the output again, with any options in any context, expands nothing and refuses
nothing.

The values may hold no brace that opens, or they could bring a block of their own. -/
theorem render_leaves_no_block (o : Options) {context : Value} (hv : context.Lacks '{')
    (template : Text) (h : ∀ n, .passLimitReached n ∉ (render o context template).issues) :
    let output := (render o context template).output
    (∀ d, findBlock? d output = none) ∧ ∀ (o' : Options) (context' : Value),
      .expanded ∉ (renderWithin o' (.left o'.maxPasses.toNat) context' output).log ∧
        ∀ n, .passLimitReached n ∉ (render o' context' output).issues := by
  intro output
  have hbudget := noLimit_renderWithin_iff.1 (noLimit_of_issues h)
  rw [renderWithin_eq_andThen] at hbudget
  have hnext := nextBlock?_expandWithin hbudget
  have houtput : output = (substitutePass
      (expandWithin o (.left o.maxPasses.toNat) context template).budget context
      (expandWithin o (.left o.maxPasses.toNat) context template).text).text := by
    show (renderWithin _ _ _ _).text = _
    rw [renderWithin_eq_andThen]
    rfl
  have hnone (d : Directive) : findBlock? d output = none := by
    rw [houtput]
    refine findBlock?_substitute hv _ (fun d => ?_) d
    obtain ⟨hcond, heach⟩ := Option.or_eq_none_iff.1 hnext
    cases d with
    | cond => exact hcond
    | each => exact heach
  refine ⟨hnone, fun o' context' => ?_⟩
  -- So the tags of the output are substituted, and nothing else is done.
  have hnext' : nextBlock? output = none := Option.or_eq_none_iff.2 ⟨hnone .cond, hnone .each⟩
  have hagain : renderWithin o' (.left o'.maxPasses.toNat) context' output =
      substitutePass (.left o'.maxPasses.toNat) context' output :=
    renderWithin_of_nextBlock?_eq_none hnext' context'
  constructor
  · rw [hagain]
    simp [substitutePass]
  · intro n hn
    have hlog := mem_filterMap_issue?_iff.1 hn
    rw [hagain] at hlog
    exact noLimit_map_issue (fun _ => isLimit_of_mem_substitute) n hlog

/-- A tag, and an `#each` without a closer before another tag. -/
def openEnded : Text :=
  tagStart ++ ['a'] ++ tagEnd ++ Directive.each.opener ++ ['l'] ++ tagEnd ++
    (tagStart ++ ['a'] ++ tagEnd)

/-- The opener of `openEnded` is left in its output, and no block is. -/
theorem render_openEnded :
    (Value.object [(['a'], .text ['x'])]).Lacks '{' ∧
      (∀ n, .passLimitReached n ∉ (render {} (.object [(['a'], .text ['x'])]) openEnded).issues) ∧
      let output := ['x'] ++ Directive.each.opener ++ ['l'] ++ tagEnd ++
        (tagStart ++ ['a'] ++ tagEnd)
      (∀ d, findBlock? d output = none) ∧ ∀ (o' : Options) (context' : Value),
        .expanded ∉ (renderWithin o' (.left o'.maxPasses.toNat) context' output).log ∧
          ∀ n, .passLimitReached n ∉ (render o' context' output).issues := by
  have hv : (Value.object [(['a'], .text ['x'])]).Lacks '{' := by
    simp [Value.Lacks, Value.EntriesLack]
  have hissues : (render {} (.object [(['a'], .text ['x'])]) openEnded).issues =
      [.unmatchedBlock .each 5] := by
    decide
  have houtput : (render {} (.object [(['a'], .text ['x'])]) openEnded).output =
      ['x'] ++ Directive.each.opener ++ ['l'] ++ tagEnd ++ (tagStart ++ ['a'] ++ tagEnd) := by
    decide
  have hnone : ∀ n, .passLimitReached n ∉
      (render {} (.object [(['a'], .text ['x'])]) openEnded).issues := by
    intro n
    rw [hissues]
    simp
  have hleft := render_leaves_no_block {} hv openEnded hnone
  rw [houtput] at hleft
  exact ⟨hv, hnone, hleft⟩

end Stencil
