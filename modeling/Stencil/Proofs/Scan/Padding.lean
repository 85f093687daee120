import Stencil.Proofs.Scan.Grammar
import Stencil.Proofs.Text.Trim

/-!
# Blanks behind the keyword of a tag

A further blank behind the opener of a block belongs to the text of the tag, which is trimmed. So a
scan finds the same with it (`Scan.SameButForBlank`), with one exception: an `#each` without a path
is no tag, but with a further blank it is one, and the blank is its path. The block behind it is
found only then (`scan_blank_iff`).
-/

namespace Stencil

variable {d : Directive} {before inner rest : Text}

/-! ## The tag -/

/-- A blank does not begin like the end of a tag. -/
theorem not_tagEnd_prefix_blank (t : Text) : ¬ tagEnd <+: ' ' :: t := fun h => by
  obtain ⟨hc, -⟩ := List.cons_prefix_cons.1 h
  exact absurd hc (by decide)

/-- A blank may be put in front of what stands in a tag, and taken away from there unless it is the
path of an `#each`. -/
theorem Directive.isInner_blank_iff :
    d.IsInner (' ' :: inner) ↔ d.IsInner inner ∨ d = each ∧ inner = [] := by
  have hbrace : '}' ≠ ' ' := by decide
  have hline : '\n' ≠ ' ' := by decide
  cases d with
  | cond =>
    have hfirst : Text.FirstAt tagEnd (' ' :: (inner ++ tagEnd)) (' ' :: inner) ↔
        Text.FirstAt tagEnd (inner ++ tagEnd) inner :=
      Text.firstAt_cons_iff (not_tagEnd_prefix_blank _)
    simp [IsInner, hfirst, hline]
  | each =>
    by_cases hinner : inner = [] <;> simp [IsInner, hinner, hbrace]

/-- A further blank stands at the beginning of the text of the tag. -/
theorem splitTag?_blank (h : ¬ (d = .each ∧ tagEnd <+: rest)) :
    splitTag? d (' ' :: rest) = (splitTag? d rest).map fun (inner, r) => (' ' :: inner, r) := by
  ext ⟨inner, r⟩
  simp only [Option.map_eq_some_iff, Prod.mk.injEq, Prod.exists, splitTag?_eq_some_iff]
  constructor
  · rintro ⟨ht, hinner⟩
    cases inner with
    | nil => exact absurd ⟨r, ht.symm⟩ (not_tagEnd_prefix_blank rest)
    | cons c inner =>
      obtain ⟨rfl, rfl⟩ : ' ' = c ∧ rest = inner ++ tagEnd ++ r := by simpa using ht
      refine ⟨inner, r, ⟨rfl, ?_⟩, rfl, rfl⟩
      refine (Directive.isInner_blank_iff.1 hinner).resolve_right ?_
      rintro ⟨hd, rfl⟩
      exact h ⟨hd, List.prefix_append _ _⟩
  · rintro ⟨inner', r', ⟨rfl, hinner⟩, rfl, rfl⟩
    exact ⟨rfl, Directive.isInner_blank_iff.2 (.inl hinner)⟩

/-- An `#each` without a path is no tag. -/
theorem splitTag?_each_tagEnd (rest : Text) : splitTag? .each (tagEnd ++ rest) = none := rfl

/-- A blank between an `#each` and the end of its tag is its path. -/
theorem splitTag?_each_blank_tagEnd (rest : Text) :
    splitTag? .each (' ' :: (tagEnd ++ rest)) = some ([' '], rest) :=
  splitTag?_eq_some_iff.2 ⟨rfl, by decide, by decide⟩

/-! ## The block -/

/-- What a scan finds if the first opener stands between two texts. -/
def scanBehind (d : Directive) (before rest : Text) : Scan :=
  match splitTag? d rest with
  | none => .unmatched before
  | some (inner, rest) =>
    match splitCloser? d 0 rest with
    | none => .unmatched before
    | some (content, after) =>
      let parts := splitParts d content
      .found ⟨d, before, inner, parts.1, parts.2, after⟩

/-- A scan goes on behind the first opener. -/
theorem scan_eq_scanBehind (h : Text.FirstAt d.opener (before ++ d.opener) before) (rest : Text) :
    scan d (before ++ d.opener ++ rest) = scanBehind d before rest := by
  rw [scan, Text.cut?_eq_some_iff.2 ⟨rfl, Text.firstAt_append_iff.2 h⟩]
  rfl

/-- What is found in two templates is the same, but the block ends one byte later in the second. -/
inductive Scan.SameButForBlank : Scan → Scan → Prop
  | absent : SameButForBlank .absent .absent
  | unmatched (before : Text) : SameButForBlank (.unmatched before) (.unmatched before)
  | found {b b' : Block} (hstart : b'.start = b.start) (hexpr : b'.expr = b.expr)
    (hbody : b'.body = b.body) (helse : b'.elseBody = b.elseBody) (hstop : b'.stop = b.stop + 1) :
    SameButForBlank (.found b) (.found b')

/-- A blank at the beginning of its tag makes a block longer by one byte, and changes nothing else
of it. -/
theorem Block.sameButForBlank (b : Block) :
    (Scan.found b).SameButForBlank (.found { b with inner := ' ' :: b.inner }) := by
  have hblank : Text.Blank [' '] := by decide
  refine .found rfl ?_ rfl rfl ?_
  · have htrim := Text.trim_append (t := b.inner) hblank Text.blank_nil
    rwa [List.append_nil] at htrim
  · have hsize : ' '.utf8Size = 1 := by decide
    simp only [stop, start, source, content, Text.utf8Length_append, Text.utf8Length_cons, hsize]
    omega

/-- With a further blank behind its opener the same block is found. -/
theorem scanBehind_blank (h : ¬ (d = .each ∧ tagEnd <+: rest)) :
    (scanBehind d before rest).SameButForBlank (scanBehind d before (' ' :: rest)) := by
  unfold scanBehind
  rw [splitTag?_blank h]
  rcases splitTag? d rest with _ | ⟨inner, r⟩
  · exact .unmatched before
  · dsimp only [Option.map_some]
    rcases splitCloser? d 0 r with _ | ⟨content, after⟩
    · exact .unmatched before
    · exact Block.sameButForBlank _

/-- The tag of an `#each` without a path, with a body and a closer behind it. -/
def Directive.PathlessBlock (d : Directive) (rest : Text) : Prop :=
  d = each ∧ ∃ body after, rest = tagEnd ++ (body ++ each.closer ++ after) ∧
    Balanced (marks each body)

/-- The block behind an `#each` without a path is found only with a further blank. -/
theorem Directive.PathlessBlock.scanBehind_eq (h : d.PathlessBlock rest) (before : Text) :
    scanBehind d before rest = .unmatched before ∧
      ∃ b : Block, scanBehind d before (' ' :: rest) = .found b ∧ b.before = before ∧
        b.expr = [] := by
  obtain ⟨rfl, body, after, rfl, hbody⟩ := h
  have hclose : splitCloser? .each 0 (body ++ each.closer ++ after) = some (body, after) :=
    splitCloser?_eq_some_iff.2 ⟨rfl, balanced_iff.1 hbody⟩
  refine ⟨by rw [scanBehind, splitTag?_each_tagEnd], ⟨.each, before, [' '], body, none, after⟩,
    ?_, rfl, rfl⟩
  rw [scanBehind, splitTag?_each_blank_tagEnd]
  dsimp only
  rw [hclose]
  rfl

/-- Without a block behind it an `#each` without a path is found in neither case. -/
theorem scanBehind_of_not_pathlessBlock (hrest : tagEnd <+: rest)
    (h : ¬ Directive.each.PathlessBlock rest) :
    (scanBehind .each before rest).SameButForBlank (scanBehind .each before (' ' :: rest)) := by
  obtain ⟨r, rfl⟩ := hrest
  unfold scanBehind
  rw [splitTag?_each_tagEnd, splitTag?_each_blank_tagEnd]
  dsimp only
  rcases hclose : splitCloser? .each 0 r with _ | ⟨body, after⟩
  · exact .unmatched before
  · obtain ⟨rfl, hends⟩ := splitCloser?_eq_some_iff.1 hclose
    exact absurd ⟨rfl, body, after, rfl, balanced_iff.2 hends⟩ h

/-- A further blank behind the first opener changes nothing of what is found but the end of the
block, unless the opener is that of an `#each` without a path that has a block behind it. There the
opener is unmatched, and with the further blank the block is found, without a path. -/
theorem scan_blank_iff (h : Text.FirstAt d.opener (before ++ d.opener ++ rest) before) :
    ((scan d (before ++ d.opener ++ rest)).SameButForBlank
        (scan d (before ++ d.opener ++ ' ' :: rest)) ↔ ¬ d.PathlessBlock rest) ∧
      (d.PathlessBlock rest → scan d (before ++ d.opener ++ rest) = .unmatched before ∧
        ∃ b : Block, scan d (before ++ d.opener ++ ' ' :: rest) = .found b ∧ b.before = before ∧
          b.expr = []) := by
  have hfirst := Text.firstAt_append_iff.1 h
  rw [scan_eq_scanBehind hfirst, scan_eq_scanBehind hfirst]
  refine ⟨⟨fun hsame hpathless => ?_, fun hnot => ?_⟩,
    fun hpathless => hpathless.scanBehind_eq before⟩
  · obtain ⟨hunmatched, b, hfound, -⟩ := hpathless.scanBehind_eq before
    rw [hunmatched, hfound] at hsame
    cases hsame
  · by_cases hempty : d = .each ∧ tagEnd <+: rest
    · obtain ⟨rfl, hrest⟩ := hempty
      exact scanBehind_of_not_pathlessBlock hrest hnot
    · exact scanBehind_blank hempty

/-- What follows the opener of an `@if` with a blank condition. -/
def blankCondition : Text := tagEnd ++ ('a' :: elseTag ++ 'b' :: Directive.cond.closer)

/-- Whether there are one or two blanks in a blank condition makes no difference. -/
theorem scan_blankCondition :
    Text.FirstAt Directive.cond.opener (['ä'] ++ Directive.cond.opener ++ blankCondition) ['ä'] ∧
      (scan .cond (['ä'] ++ Directive.cond.opener ++ blankCondition)).SameButForBlank
        (scan .cond (['ä'] ++ Directive.cond.opener ++ ' ' :: blankCondition)) ∧
      scan .cond (['ä'] ++ Directive.cond.opener ++ blankCondition) =
        .found ⟨.cond, ['ä'], [], ['a'], some ['b'], []⟩ := by
  have hfirst : Text.FirstAt Directive.cond.opener
      (['ä'] ++ Directive.cond.opener ++ blankCondition) ['ä'] :=
    (Text.cut?_eq_some_iff.1 rfl).2
  have hcond : ¬ Directive.cond.PathlessBlock blankCondition := fun h => nomatch h.1
  exact ⟨hfirst, (scan_blank_iff hfirst).1.2 hcond, by decide +kernel⟩

/-- Two blanks between an `#each` and the end of its tag make a tag, and one does not. -/
theorem scan_each_blanks_differ :
    scan .each (Directive.each.opener ++ (tagEnd ++ 'x' :: Directive.each.closer)) =
        .unmatched [] ∧
      scan .each (Directive.each.opener ++ ' ' :: (tagEnd ++ 'x' :: Directive.each.closer)) =
        .found ⟨.each, [], [' '], ['x'], none, []⟩ := by
  decide +kernel

end Stencil
