import Stencil.Proofs.Render.Leftover

/-!
# Literal text around a template

A text without braces in front of a template or behind it is no part of any block or tag. So the
same block is expanded next (`nextBlock?_frame`), and the text stays where it is through all
expansions (`expandWithin_frame`) and through the substitution at their end. An opener at the end of
the template may go on in the text behind, but there is no closer for it there.
-/

namespace Stencil

/-! ## Blocks within a longer text -/

/-- A block in a text that stands between two others. -/
def Block.within (l r : Text) (b : Block) : Block :=
  { b with before := l ++ b.before, after := b.after ++ r }

/-- What replaces the block stands between the two texts. -/
theorem Block.replaceWith_within (l r t : Text) (b : Block) :
    (b.within l r).replaceWith t = l ++ b.replaceWith t ++ r := by
  simp [Block.replaceWith, Block.within]

/-- The texts around a block do not matter when it is expanded. -/
theorem expandBlock_within (detection : Detection) (render : Budget → Value → Text → Pass)
    (budget : Budget) (scope : Value) (l r : Text) (b : Block) :
    expandBlock detection render budget scope (b.within l r) =
      expandBlock detection render budget scope b := rfl

/-- An opener begins with a brace. -/
theorem Directive.exists_opener_eq_cons (d : Directive) : ∃ v, d.opener = '{' :: v := by
  cases d with
  | cond => exact ⟨_, rfl⟩
  | each => exact ⟨_, rfl⟩

section Frame

variable {l r : Text} (hl : '{' ∉ l) (hr : '}' ∉ r)
include hl hr

/-- The block to expand next is the same between two such texts. -/
theorem nextBlock?_frame (t : Text) :
    nextBlock? (l ++ t ++ r) = (nextBlock? t).map (Block.within l r) := by
  have hfind (d : Directive) :
      findBlock? d (l ++ t ++ r) = (findBlock? d t).map (Block.within l r) := by
    obtain ⟨v, hv⟩ := d.exists_opener_eq_cons
    have havoids : Text.Avoids d.opener l (t ++ r) := by
      rw [hv]
      exact Text.avoids_of_notMem hl
    rw [List.append_assoc, findBlock?_append _ havoids, findBlock?_append_of_notMem hr,
      Option.map_map]
    rfl
  unfold nextBlock?
  rw [hfind, hfind]
  rcases findBlock? .cond t with _ | b
  · rfl
  · rfl

/-- The blocks are expanded alike, between the two texts. -/
theorem expandWithin_frame (o : Options) (budget : Budget) (scope : Value) (t : Text) :
    expandWithin o budget scope (l ++ t ++ r) =
      (expandWithin o budget scope t).mapText fun t => l ++ t ++ r := by
  induction budget, t using expandWithin_induction (o := o) scope with
  | exhausted t =>
    rw [expandWithin_exhausted, expandWithin_exhausted]
    rfl
  | none n t hnext =>
    have hframe : nextBlock? (l ++ t ++ r) = none := by
      rw [nextBlock?_frame hl hr, hnext]
      rfl
    rw [expandWithin_of_nextBlock?_eq_none hnext, expandWithin_of_nextBlock?_eq_none hframe]
    rfl
  | refused t b hnext =>
    have hframe : nextBlock? (l ++ t ++ r) = some (b.within l r) := by
      rw [nextBlock?_frame hl hr, hnext]
      rfl
    rw [expandWithin_left_zero hnext, expandWithin_left_zero hframe]
    rfl
  | block n t b hnext ih =>
    have hframe : nextBlock? (l ++ t ++ r) = some (b.within l r) := by
      rw [nextBlock?_frame hl hr, hnext]
      rfl
    rw [expandWithin_left_succ hnext, expandWithin_left_succ hframe]
    simp only [Pass.andThen, expandBlock_within, Block.replaceWith_within]
    rw [ih]
    rfl

end Frame

/-! ## Substitution -/

section Tags

variable {scope : Value}

/-- The end of a tag does not stand in a text without braces that close. -/
theorem tagAt?_append_right {s : Text} (hs : '}' ∉ s) (t : Text) :
    tagAt? (t ++ s) = (tagAt? t).map fun (inner, rest) => (inner, rest ++ s) := by
  refine Option.ext fun p => ?_
  obtain ⟨inner, rest⟩ := p
  rw [tagAt?_eq_some_iff_eq_append, Option.map_eq_some_iff]
  constructor
  · rintro ⟨ht, hinner⟩
    have hend : tagStart ++ inner ++ tagEnd ++ rest =
        tagStart ++ inner ++ ['}'] ++ ['}'] ++ rest := by
      simp [tagEnd]
    rw [hend] at ht
    obtain ⟨m, rfl, rfl⟩ := Text.exists_append_of_notMem hs ht.symm
    exact ⟨(inner, m), tagAt?_eq_some_iff_eq_append.2 ⟨by simp [tagEnd], hinner⟩, rfl⟩
  · rintro ⟨⟨inner', rest'⟩, htag, heq⟩
    obtain ⟨rfl, rfl⟩ := Prod.mk.inj heq
    obtain ⟨rfl, hinner⟩ := tagAt?_eq_some_iff_eq_append.1 htag
    exact ⟨by simp, hinner⟩

/-- A text without braces that close is written as it is after any other. -/
theorem renderTags_append_right {s : Text} (hs : '}' ∉ s) (t : Text) :
    renderTags scope (t ++ s) = ((renderTags scope t).1 ++ s, (renderTags scope t).2) := by
  induction t using tags_induction with
  | nil =>
    rw [List.nil_append]
    induction s with
    | nil => rfl
    | cons c s ih =>
      have htag : tagAt? (c :: s) = none := tagAt?_append_right hs []
      rw [renderTags_of_tagAt?_eq_none htag, ih fun h => hs (List.mem_cons_of_mem c h)]
      rfl
  | literal c t htag ih =>
    have htag' : tagAt? (c :: (t ++ s)) = none := by
      rw [← List.cons_append, tagAt?_append_right hs, htag]
      rfl
    rw [List.cons_append, renderTags_of_tagAt?_eq_none htag', renderTags_of_tagAt?_eq_none htag, ih]
    rfl
  | tag t inner rest htag ih =>
    have htag' : tagAt? (t ++ s) = some (inner, rest ++ s) := by
      rw [tagAt?_append_right hs, htag]
      rfl
    rw [renderTags_of_tagAt? htag', renderTags_of_tagAt? htag, ih]
    simp

end Tags

/-- The issue of an opener that stands further on by some bytes; other issues have no place. -/
def Issue.shift (n : Nat) : Issue → Issue
  | unmatchedBlock d offset => unmatchedBlock d (offset + n)
  | i => i

/-- Paths stay as they are. -/
theorem map_shift_of_isPath {issues : List Issue} (h : ∀ i ∈ issues, i.isPath = true) (n : Nat) :
    issues.map (Issue.shift n) = issues := by
  have hshift : ∀ i ∈ issues, i.shift n = i := by
    intro i hi
    cases i with
    | unmatchedBlock d offset => cases h _ hi
    | _ => rfl
  rw [List.map_congr_left hshift, List.map_id']

/-- The first opener comes after a text without braces that open. -/
theorem splitOpener?_append_left {l : Text} (hl : '{' ∉ l) (t : Text) :
    splitOpener? (l ++ t) =
      (splitOpener? t).map fun (head, d, tail) => (l ++ head, d, tail) := by
  induction l with
  | nil => exact (Option.map_id_apply).symm
  | cons c l ih =>
    rw [List.mem_cons, not_or] at hl
    have hstart : Directive.atStart? (c :: (l ++ t)) = none := by
      refine Directive.atStart?_eq_none_iff.2 fun d hd => hl.1 ?_
      obtain ⟨v, hv⟩ := d.exists_opener_eq_cons
      rw [hv] at hd
      exact (List.cons_prefix_cons.1 hd).1
    rw [List.cons_append, splitOpener?, hstart, ih hl.2, Option.map_map]
    rfl

/-- Substitution leaves a text without braces that open as it is, and counts its bytes. -/
theorem substitute_append_left {l : Text} (hl : '{' ∉ l) (reporting : Bool) (scope : Value)
    (t : Text) :
    substitute reporting scope (l ++ t) =
      (l ++ (substitute reporting scope t).1,
        (substitute reporting scope t).2.map (Issue.shift (Text.utf8Length l))) := by
  have hpaths (u : Text) : (renderTags scope u).2.map (Issue.shift (Text.utf8Length l)) =
      (renderTags scope u).2 :=
    map_shift_of_isPath (fun _ => isPath_of_mem_renderTags) _
  unfold substitute
  rw [splitOpener?_append_left hl]
  rcases splitOpener? t with _ | ⟨head, d, tail⟩
  · dsimp only [Option.map_none]
    rw [renderTags_append_of_tagFree (tagFree_of_notMem hl _), hpaths]
  · dsimp only [Option.map_some]
    rw [renderTags_append_of_tagFree (tagFree_of_notMem hl _), List.map_append, hpaths,
      List.append_assoc, Text.utf8Length_append, Nat.add_comm]
    cases reporting with
    | true => rfl
    | false => rfl

/-- Substitution leaves a text without braces that close as it is. An opener may reach into the
text, but no tag does. -/
theorem substitute_append_right {s : Text} (hs : '}' ∉ s) (reporting : Bool) (scope : Value)
    (t : Text) :
    (substitute reporting scope (t ++ s)).1 = (substitute reporting scope t).1 ++ s := by
  have hopener (d : Directive) : tagStart <+: d.opener ∧ '}' ∉ d.opener := by
    cases d <;> decide
  unfold substitute
  rcases hsplit : splitOpener? t with _ | ⟨head, d, tail⟩
  · have hno := splitOpener?_eq_none_iff.1 hsplit
    rcases hlong : splitOpener? (t ++ s) with _ | ⟨head, d, tail⟩
    · dsimp only
      rw [renderTags_append_right hs]
    · -- The text from the opener on, as far as it stands in `t`, is no part of a tag.
      obtain ⟨htext, hfirst⟩ := splitOpener?_eq_some_iff.1 hlong
      dsimp only
      rcases List.append_eq_append_iff.1 htext with ⟨m, rfl, rfl⟩ | ⟨m, rfl, rfl⟩
      · have hm : '}' ∉ m := fun hmem => hs (List.mem_append_left _ hmem)
        rw [renderTags_append_right hm, List.append_assoc]
      · have hd : d.opener <+: m ++ s := (firstOpener_append_iff.1 (htext ▸ hfirst)).1
        have hm : '}' ∉ m := by
          rcases List.prefix_or_prefix_of_prefix hd (List.prefix_append m s) with h | h
          · exact absurd ((h.isInfix).trans (List.suffix_append _ _).isInfix) (hno d)
          · exact fun hmem => (hopener d).2 (h.subset hmem)
        rw [renderTags_append_right hm, List.append_assoc]
  · obtain ⟨rfl, hfirst⟩ := splitOpener?_eq_some_iff.1 hsplit
    obtain ⟨hd, havoids⟩ := firstOpener_append_iff.1 hfirst
    have htail : tagStart <+: tail := (hopener d).1.trans hd
    have hlong : splitOpener? (head ++ tail ++ s) = some (head, d, tail ++ s) := by
      refine splitOpener?_eq_some_iff.2 ⟨List.append_assoc _ _ _, ?_⟩
      rw [List.append_assoc]
      refine firstOpener_append_iff.2 ⟨hd.trans (List.prefix_append _ _), fun d' => ?_⟩
      exact (havoids d').of_tagStart (Mark.tagLike_text d' .opens) htail
        (htail.trans (List.prefix_append _ _))
    rw [hlong]
    exact (List.append_assoc _ _ _).symm

/-! ## The output of a render -/

/-- Literal text around a template is a frame. What a render writes stands between the two texts,
whatever the template leaves open at its ends, the values hold or the limit of passes is. The text
in front shifts the place of the opener that is recorded when the text of the whole is substituted,
and changes no other issue. -/
theorem render_frame (o : Options) (context : Value) (template : Text) {l r : Text}
    (hl : '{' ∉ l) (hr : '}' ∉ r) :
    (render o context (l ++ template ++ r)).output =
        l ++ (render o context template).output ++ r ∧
      let loop := expandWithin o (.left o.maxPasses.toNat) context template
      let nested := loop.log.filterMap Event.issue?
      let final := (substitute (loop.budget ≠ .exhausted) context loop.text).2
      (render o context template).issues = nested ++ final ∧
        (render o context (l ++ template)).issues =
          nested ++ final.map (Issue.shift (Text.utf8Length l)) := by
  have hrender (t : Text) : render o context t =
      let loop := expandWithin o (.left o.maxPasses.toNat) context t
      let final := substitute (loop.budget ≠ .exhausted) context loop.text
      ⟨final.1, loop.log.filterMap Event.issue? ++ final.2⟩ := by
    unfold render
    rw [renderWithin_eq_andThen]
    simp only [Pass.andThen, substitutePass, List.filterMap_append, filterMap_issue?_map]
  have hfront := expandWithin_frame hl (List.not_mem_nil (a := '}')) o
    (.left o.maxPasses.toNat) context template
  rw [List.append_nil] at hfront
  rw [hrender (l ++ template ++ r), hrender (l ++ template), hrender template,
    expandWithin_frame hl hr, hfront]
  dsimp only [Pass.mapText]
  refine ⟨?_, rfl, ?_⟩
  · rw [substitute_append_right hr, substitute_append_left hl]
  · rw [List.append_nil, substitute_append_left hl]

/-- The block of `openEdge`, whose body leaves an opener. -/
def openEdgeBlock : Block :=
  ⟨.cond, [], ['a'], Directive.each.opener ++ ['x'] ++ tagEnd, none, ['{', '{', '@', 'i', 'f']⟩

/-- A block, and the beginning of another opener. -/
def openEdge : Text := openEdgeBlock.source ++ openEdgeBlock.after

/-- A context in which the condition of `openEdge` holds. -/
def openEdgeContext : Value := .object [(['a'], .bool true)]

/-- The body is left where the block was, and its opener is recorded. -/
theorem expandWithin_openEdge :
    expandWithin {} (.left 10000) openEdgeContext openEdge =
      ⟨openEdgeBlock.body ++ openEdgeBlock.after, [.expanded, .issue (.unmatchedBlock .each 0)],
        .left 9999⟩ := by
  have hnext : nextBlock? openEdge = some openEdgeBlock := by decide
  have hbody : expandBlock .legacy (renderWithin {}) (.left 9999) openEdgeContext openEdgeBlock =
      ⟨openEdgeBlock.body, [.issue (.unmatchedBlock .each 0)], .left 9999⟩ := by
    rfl
  have hnone : nextBlock? (openEdgeBlock.replaceWith openEdgeBlock.body) = none := by decide
  rw [expandWithin_left_succ hnext 9999]
  simp only [Pass.andThen]
  rw [hbody, expandWithin_of_nextBlock?_eq_none hnone]
  rfl

/-- With a text after it that completes the opener at its end, and a text of three bytes before it:
the opener that the body leaves keeps its place, and that of the whole stands three bytes further
on. -/
theorem render_openEdge :
    ('{' ∉ ['é', '}'] ∧ '}' ∉ [' ', 'b']) ∧
      (render {} openEdgeContext (['é', '}'] ++ openEdge ++ [' ', 'b'])).output =
        ['é', '}'] ++ (openEdgeBlock.body ++ openEdgeBlock.after) ++ [' ', 'b'] ∧
      (render {} openEdgeContext openEdge).issues =
        [.unmatchedBlock .each 0, .unmatchedBlock .each 0] ∧
      (render {} openEdgeContext (['é', '}'] ++ openEdge)).issues =
        [.unmatchedBlock .each 0, .unmatchedBlock .each 3] := by
  have hl : '{' ∉ ['é', '}'] := by decide
  have hr : '}' ∉ [' ', 'b'] := by decide
  have houtput : (render {} openEdgeContext openEdge).output =
      openEdgeBlock.body ++ openEdgeBlock.after := by
    decide
  obtain ⟨htext, hissues, hshifted⟩ := render_frame {} openEdgeContext openEdge hl hr
  have hloop : expandWithin {} (.left (Options.maxPasses {}).toNat) openEdgeContext openEdge =
      _ := expandWithin_openEdge
  rw [hloop] at hissues hshifted
  exact ⟨⟨hl, hr⟩, houtput ▸ htext, hissues.trans (by decide), hshifted.trans (by decide)⟩

end Stencil
