import Stencil.Proofs.Scan.Grammar
import Stencil.Proofs.Tree.Basic

/-!
# What a scan finds in a printed tree

In a printed tree the marks of either kind of block are balanced (`Tree.balanced_marks`), since a
scan for one kind ignores texts, tags and the tags of the other kind. So a scan finds the first
block of its kind with its own parts, whatever stands before and after: `firstIn_wrap`.
-/

namespace Stencil

/-! ## Pieces that a scan ignores -/

/-- A text without a brace that closes which begins like an inner text and the end of its tag begins
like the inner text. -/
theorem prefix_of_prefix_append_tagEnd {u inner s : Text} (hu : '}' ∉ u)
    (h : u <+: inner ++ tagEnd ++ s) : u <+: inner := by
  rw [List.append_assoc] at h
  exact Text.prefix_of_prefix_append_cons hu h

/-- Two inner texts whose tags begin alike are the same. -/
theorem inner_eq_of_prefix_append {u inner s : Text} (hu : '}' ∉ u) (hi : '}' ∉ inner)
    (h : u ++ tagEnd <+: inner ++ tagEnd ++ s) : u = inner := by
  have h1 : u <+: inner := prefix_of_prefix_append_tagEnd hu ((List.prefix_append _ _).trans h)
  obtain ⟨r, rfl⟩ := h1
  rcases r with _ | ⟨c, r⟩
  · simp
  · exfalso
    rw [List.append_assoc, List.append_assoc] at h
    obtain ⟨rfl, -⟩ := List.cons_prefix_cons.1 ((List.prefix_append_right_inj u).1 h)
    exact hi (by simp)

/-- The tag of a variable is ignored. -/
theorem IsVariable.ignores {inner : Text} (h : IsVariable inner) (d : Directive) :
    d.Ignores (tagStart ++ inner ++ tagEnd) := by
  have hno (m : Mark) (s : Text) : ¬ m.text d <+: tagStart ++ (inner ++ tagEnd) ++ s := by
    intro hpre
    have hcut (u : Text) (hu : tagStart ++ u <+: tagStart ++ (inner ++ tagEnd) ++ s) :
        u <+: inner ++ tagEnd ++ s := by
      rw [List.append_assoc] at hu
      exact (List.prefix_append_right_inj tagStart).1 hu
    -- An opener goes on after its name, so the name is enough to tell them apart.
    have hcond : ¬ Directive.cond.opener <+: tagStart ++ (inner ++ tagEnd) ++ s := fun hp =>
      h.no_condition (prefix_of_prefix_append_tagEnd (by decide) (hcut _ hp))
    have heach : ¬ Directive.each.opener <+: tagStart ++ (inner ++ tagEnd) ++ s := fun hp => by
      have hname : Directive.each.name <+: inner := prefix_of_prefix_append_tagEnd (by decide)
        (hcut _ ((by decide : tagStart ++ Directive.each.name <+: Directive.each.opener).trans hp))
      exact h.no_loop hname.isInfix
    have hword (u : Text) (hu : '}' ∉ u) (hne : inner ≠ u) :
        ¬ tagStart ++ (u ++ tagEnd) <+: tagStart ++ (inner ++ tagEnd) ++ s := fun hp =>
      hne (inner_eq_of_prefix_append hu h.braceFree.2 (hcut _ hp)).symm
    cases m with
    | opens => cases d with
      | cond => exact hcond hpre
      | each => exact heach hpre
    | closes => cases d with
      | cond => exact hword ['/', 'i', 'f'] (by decide) h.ne_endIf hpre
      | each => exact hword ['/', 'e', 'a', 'c', 'h'] (by decide) h.ne_endEach hpre
    | splits => exact hword ['e', 'l', 's', 'e'] (by decide) h.ne_else hpre
  rw [List.append_assoc]
  refine Directive.ignores_tagStart_append (by simp [tagEnd]) ?_ fun m _ => hno m
  simp [tagEnd, h.braceFree.1]

/-- A tag that differs from every mark is ignored, with what follows it up to the next brace that
opens. -/
theorem ignores_of_not_prefix {d : Directive} {u v : Text} (hu : u.TagLike) (hv : '{' ∉ v)
    (h : ∀ m ∈ Mark.all d, ¬ m.text d <+: u ∧ ¬ u <+: m.text d) : d.Ignores (u ++ v) := by
  obtain ⟨c, w, rfl, hw⟩ := hu
  have hsplit : '{' :: '{' :: c :: w ++ v = tagStart ++ (c :: w ++ v) := rfl
  rw [hsplit]
  refine Directive.ignores_tagStart_append (by simp) ?_ fun m hm s hpre => ?_
  · rw [List.mem_append, not_or]
    exact ⟨hw, hv⟩
  · rw [← hsplit, List.append_assoc] at hpre
    rcases List.prefix_or_prefix_of_prefix hpre (List.prefix_append _ _) with hp | hp
    · exact (h m hm).1 hp
    · exact (h m hm).2 hp

/-- The marks of one kind of block differ from the openers and closers of the other kind. -/
theorem not_prefix_of_ne {d d' : Directive} (hd : d ≠ d') :
    ∀ m ∈ Mark.all d, (¬ m.text d <+: d'.opener ∧ ¬ d'.opener <+: m.text d) ∧
      ¬ m.text d <+: d'.closer ∧ ¬ d'.closer <+: m.text d := by
  revert hd
  cases d <;> cases d' <;> decide

/-- To a scan for one kind of block the tag of an opener of the other kind is plain text. -/
theorem ignores_opener_tag {d d' : Directive} (hd : d ≠ d') {inner : Text} (hi : '{' ∉ inner) :
    d.Ignores (d'.opener ++ inner ++ tagEnd) := by
  rw [List.append_assoc]
  exact ignores_of_not_prefix (Mark.tagLike_text d' .opens) (by simp [tagEnd, hi])
    fun m hm => (not_prefix_of_ne hd m hm).1

/-- To a scan for one kind of block a closer of the other kind is plain text. -/
theorem ignores_closer {d d' : Directive} (hd : d ≠ d') : d.Ignores d'.closer := by
  rw [← List.append_nil d'.closer]
  exact ignores_of_not_prefix (Mark.tagLike_text d' .closes) (by simp)
    fun m hm => (not_prefix_of_ne hd m hm).2

/-- To a scan for `#each` blocks an `else` tag is plain text. -/
theorem each_ignores_elseTag : Directive.each.Ignores elseTag := by
  rw [← List.append_nil elseTag]
  exact ignores_of_not_prefix (Mark.tagLike_text .each .splits) (by simp) (by decide)

/-- To a scan for one kind of block, blocks of the other kind whose content is ignored are plain
text. -/
theorem ignores_wrap {d d' : Directive} (hd : d ≠ d') {inner content : Text} (hi : '{' ∉ inner)
    (hc : d.Ignores content) : d.Ignores (d'.wrap inner content) :=
  ((ignores_opener_tag hd hi).append hc).append (ignores_closer hd)

/-! ## Marks of printed trees -/

/-- The marks of a block of the kind. -/
theorem marks_wrap_append {d : Directive} {inner : Text} (hi : '{' ∉ inner) (content s : Text) :
    marks d (d.wrap inner content ++ s) = .opens :: marks d content ++ .closes :: marks d s := by
  -- The text is cut where tags of its own begin, so that no mark reaches over a cut.
  have hsplit : d.wrap inner content ++ s =
      Mark.text d .opens ++ (inner ++ tagEnd ++ (content ++ (Mark.text d .closes ++ s))) := by
    simp [Directive.wrap, Mark.text]
  have htag : d.Ignores (inner ++ tagEnd) := d.ignores_of_notMem (by simp [tagEnd, hi])
  have hclose : tagStart <+: Mark.text d .closes ++ s :=
    (Mark.tagStart_prefix_text d .closes).trans (List.prefix_append _ _)
  rw [hsplit, marks_text_append (Mark.opens_mem_all d), htag.marks_append, marks_append hclose,
    marks_text_append (Mark.closes_mem_all d)]
  rfl

/-- A block of the other kind has the marks of its content. -/
theorem marks_other_wrap_append {d d' : Directive} (hd : d ≠ d') {inner : Text} (hi : '{' ∉ inner)
    (content s : Text) :
    marks d (d'.wrap inner content ++ s) = marks d content ++ marks d s := by
  have hsplit : d'.wrap inner content ++ s =
      d'.opener ++ inner ++ tagEnd ++ (content ++ (d'.closer ++ s)) := by
    simp [Directive.wrap]
  have hclose : tagStart <+: d'.closer ++ s :=
    (Mark.tagStart_prefix_text d' .closes).trans (List.prefix_append _ _)
  rw [hsplit, (ignores_opener_tag hd hi).marks_append, marks_append hclose,
    (ignores_closer hd).marks_append]

/-- To a scan for `#each` blocks the parts of an `@if` block follow one another. -/
theorem marks_each_append_else (a b : Text) :
    marks .each (a ++ elseTag ++ b) = marks .each a ++ marks .each b := by
  have hs : tagStart <+: elseTag ++ b := ⟨_, rfl⟩
  rw [List.append_assoc, marks_append hs, each_ignores_elseTag.marks_append]

/-- A block around balanced marks, before balanced marks. -/
theorem balanced_marks_wrap_append {d d' : Directive} {inner content s : Text} (hi : '{' ∉ inner)
    (hc : Balanced (marks d content)) (hce : d ≠ d' → ElsesNested (marks d content))
    (hs : Balanced (marks d s) ∧ ElsesNested (marks d s)) :
    Balanced (marks d (d'.wrap inner content ++ s)) ∧
      ElsesNested (marks d (d'.wrap inner content ++ s)) := by
  by_cases hd : d = d'
  · subst hd
    rw [marks_wrap_append hi]
    exact ⟨hc.block hs.1, ElsesNested.block hc hs.2⟩
  · rw [marks_other_wrap_append hd hi]
    exact ⟨hc.append hs.1, ElsesNested.append hc (hce hd) hs.2⟩

/-- In a printed tree the marks of either kind of block are balanced, and every `else` tag belongs
to a block of the tree. -/
theorem Tree.balanced_marks {t : Tree} (ht : t.WellFormed) (d : Directive) :
    Balanced (marks d t.source) ∧ ElsesNested (marks d t.source) := by
  induction t with
  | nil => exact ⟨balanced_nil, elsesNested_iff.2 (elsesAt_nil 0)⟩
  | text t rest ih =>
    rw [source, (d.ignores_of_notMem ht.1).marks_append]
    exact ih ht.2
  | tag inner rest ih =>
    rw [source, (ht.1.ignores d).marks_append]
    exact ih ht.2
  | cond expr body rest ihb ihr =>
    obtain ⟨⟨⟨hbrace, -⟩, -⟩, hb, hr⟩ := ht
    obtain ⟨hbody, helses⟩ := ihb hb
    exact balanced_marks_wrap_append hbrace hbody (fun _ => helses) (ihr hr)
  | condElse expr body elseBody rest ihb ihe ihr =>
    obtain ⟨⟨⟨hbrace, -⟩, -⟩, hb, he, hr⟩ := ht
    obtain ⟨hbody, helses⟩ := ihb hb
    obtain ⟨helse, helses'⟩ := ihe he
    refine balanced_marks_wrap_append hbrace ?_ ?_ (ihr hr)
    · cases d with
      | cond =>
        rw [marks_append_else]
        exact hbody.append helse.splits
      | each =>
        rw [marks_each_append_else]
        exact hbody.append helse
    · intro hd
      cases d with
      | cond => exact absurd rfl hd
      | each =>
        rw [marks_each_append_else]
        exact ElsesNested.append hbody helses helses'
  | each path body rest ihb ihr =>
    obtain ⟨⟨⟨hbrace, -⟩, -⟩, hb, hr⟩ := ht
    obtain ⟨hbody, helses⟩ := ihb hb
    exact balanced_marks_wrap_append hbrace hbody (fun _ => helses) (ihr hr)

/-! ## Blocks of printed trees -/

/-- A balanced text is a block's body without an `else` part. -/
theorem IsParts.of_balanced {d : Directive} {body : Text} (hb : Balanced (marks d body))
    (helses : d = .cond → ElsesNested (marks d body)) : IsParts d body body none :=
  ⟨by simp, hb, nofun, helses, fun _ => rfl⟩

/-- Two balanced texts with an `else` tag between them are the parts of an `@if` block. -/
theorem IsParts.of_balanced_else {body e : Text} (hb : Balanced (marks .cond body))
    (helses : ElsesNested (marks .cond body)) (he : Balanced (marks .cond e)) :
    IsParts .cond (body ++ elseTag ++ e) body (some e) := by
  refine ⟨by simp, hb, ?_, fun _ => helses, nofun⟩
  rintro _ ⟨⟩
  exact he

/-- A printed tree is a block's body without an `else` part. -/
theorem Tree.isParts {t : Tree} (ht : t.WellFormed) (d : Directive) :
    IsParts d t.source t.source none :=
  .of_balanced (t.balanced_marks ht d).1 fun _ => (t.balanced_marks ht d).2

/-- Two printed trees with an `else` tag between them are the parts of an `@if` block. -/
theorem Tree.isParts_else {t e : Tree} (ht : t.WellFormed) (he : e.WellFormed) :
    IsParts .cond (t.source ++ elseTag ++ e.source) t.source (some e.source) :=
  .of_balanced_else (t.balanced_marks ht .cond).1 (t.balanced_marks ht .cond).2
    (e.balanced_marks he .cond).1

/-- A condition on one line without braces that close ends where its tag ends. -/
theorem isInner_cond {expr : Text} (hbrace : '}' ∉ expr) (hline : '\n' ∉ expr) :
    Directive.cond.IsInner expr := by
  refine ⟨⟨List.prefix_refl _, fun a ha => ?_⟩, hline⟩
  rcases Nat.lt_or_ge a.length expr.length with hlt | hge
  · -- An earlier end of the tag would put a brace into the condition.
    exfalso
    have hpre : a ++ ['}'] <+: expr ++ tagEnd := by
      refine List.IsPrefix.trans ?_ ha
      exact (List.prefix_append_right_inj a).2 (by decide)
    have hle : (a ++ ['}']).length ≤ expr.length := by
      rw [List.length_append]
      exact hlt
    have hin := List.prefix_of_prefix_length_le hpre (List.prefix_append _ _) hle
    exact hbrace (hin.subset (by simp))
  · exact hge

/-- A path that is not blank and without braces ends where its tag ends. -/
theorem isInner_each {path : Text} (h : path.IsBraceFree ∧ Text.trim path ≠ []) :
    Directive.each.IsInner path := by
  refine ⟨?_, h.1.2⟩
  rintro rfl
  exact h.2 rfl

/-- Where nothing before it opens a block of its kind, a scan finds a printed block. -/
theorem firstIn_wrap {d : Directive} {before inner content body : Text} {elseBody : Option Text}
    (hb : ¬ d.opener <:+: before) (hi : d.IsInner inner) (hp : IsParts d content body elseBody)
    (after : Text) :
    Block.FirstIn ⟨d, before, inner, body, elseBody, after⟩ d
      (before ++ d.wrap inner content ++ after) := by
  have hcontent : Block.content ⟨d, before, inner, body, elseBody, after⟩ = content := by
    rw [hp.content_eq]
    rcases elseBody with _ | e
    · simp [Block.content]
    · simp [Block.content]
  have hsplit : before ++ d.wrap inner content ++ after =
      before ++ d.opener ++ (inner ++ tagEnd ++ content ++ d.closer ++ after) := by
    simp [Directive.wrap]
  refine ⟨rfl, ?_, ?_, hi, ?_⟩
  · rw [hcontent]
    simp [Directive.wrap]
  · rw [hsplit]
    exact (Mark.tagLike_text d .opens).firstAt hb _
  · rw [hcontent]
    exact hp

end Stencil
