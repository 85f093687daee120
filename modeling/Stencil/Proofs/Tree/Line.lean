import Stencil.Proofs.Scan.Opener
import Stencil.Proofs.Tree.Printed
import Stencil.Proofs.Value.Texts

/-!
# Lines

When no block is left, a printed tree is a line of characters and tags. It has no opener, its
segments are the characters and tags themselves (`ofText_lineSource`), and substitution writes what
`fillTags` says (`substitute_lineSource`).

A value that lacks opening braces brings none into what is written, so the text that is put in the
place of a block is a line again.
-/

namespace Stencil

/-! ## Blocks to expand -/

/-- An `@if` block is expanded before all else. -/
theorem nextBlock?_of_firstIn_cond {t : Text} {b : Block} (h : b.FirstIn .cond t) :
    nextBlock? t = some b := by
  unfold nextBlock? findBlock?
  rw [scan_eq_found_iff.2 h]
  rfl

/-- An `#each` block is expanded if no `@if` block is found. -/
theorem nextBlock?_of_firstIn_each {t : Text} {b : Block} (hc : findBlock? .cond t = none)
    (h : b.FirstIn .each t) : nextBlock? t = some b := by
  unfold nextBlock?
  rw [hc, findBlock?_eq_some_iff.2 h]
  rfl

/-- Without an opener no block is found. -/
theorem findBlock?_eq_none {d : Directive} {t : Text} (h : ¬ d.opener <:+: t) :
    findBlock? d t = none := by
  unfold findBlock?
  rw [scan_eq_absent_iff.2 h]

/-- Without openers there is no block to expand. -/
theorem nextBlock?_eq_none {t : Text} (h : ∀ d : Directive, ¬ d.opener <:+: t) :
    nextBlock? t = none :=
  Option.or_eq_none_iff.2 ⟨findBlock?_eq_none (h .cond), findBlock?_eq_none (h .each)⟩

/-- In an ignored text there is no opener. -/
theorem Directive.Ignores.no_opener {d : Directive} {t : Text} (h : d.Ignores t) :
    ¬ d.opener <:+: t :=
  (h .opens (Mark.opens_mem_all d)).no_occurrence (Mark.text_ne_nil d .opens)

/-! ## Lines -/

/-- A character of a line does not open a brace, and a tag of a line names a path. -/
def Segment.WellFormed : Segment → Prop
  | literal c => c ≠ '{'
  | tag inner => IsVariable inner

/-- A line as a template. -/
def lineSource (line : List Segment) : Text := line.flatMap Segment.source

@[simp] theorem lineSource_nil : lineSource [] = [] := rfl

@[simp] theorem lineSource_cons (s : Segment) (line : List Segment) :
    lineSource (s :: line) = s.source ++ lineSource line := rfl

@[simp] theorem lineSource_append (line more : List Segment) :
    lineSource (line ++ more) = lineSource line ++ lineSource more := List.flatMap_append

/-- The characters of a text are a line. -/
@[simp] theorem lineSource_map_literal (t : Text) : lineSource (t.map .literal) = t := by
  induction t with
  | nil => rfl
  | cons c t ih =>
    rw [List.map_cons, lineSource_cons, ih]
    rfl

/-- The characters of a text without opening braces are well-formed. -/
theorem wellFormed_of_mem_map_literal {t : Text} (ht : '{' ∉ t) :
    ∀ s ∈ t.map Segment.literal, s.WellFormed := by
  intro s hs
  obtain ⟨c, hc, rfl⟩ := List.mem_map.1 hs
  exact fun h => ht (h ▸ hc)

/-- A line holds no marks. -/
theorem ignores_lineSource {line : List Segment} (hl : ∀ s ∈ line, s.WellFormed) (d : Directive) :
    d.Ignores (lineSource line) := by
  induction line with
  | nil => exact d.ignores_nil
  | cons s line ih =>
    obtain ⟨hs, hrest⟩ := List.forall_mem_cons.1 hl
    rw [lineSource_cons]
    refine Directive.Ignores.append ?_ (ih hrest)
    cases s with
    | literal c => exact d.ignores_of_notMem (by simpa [Segment.source] using Ne.symm hs)
    | tag inner => exact IsVariable.ignores hs d

/-- The segments of a printed line are the line. -/
theorem ofText_lineSource {line : List Segment} (hl : ∀ s ∈ line, s.WellFormed) :
    Segment.ofText (lineSource line) = line := by
  induction line with
  | nil => rfl
  | cons s line ih =>
    obtain ⟨hs, hrest⟩ := List.forall_mem_cons.1 hl
    rw [lineSource_cons]
    cases s with
    | literal c =>
      -- A tag does not begin with a character that opens no brace.
      have hstart : Text.after? tagStart (c :: lineSource line) = none :=
        Text.after?_eq_none_iff.2 fun h => hs (List.cons_prefix_cons.1 h).1.symm
      have hno : tagAt? (c :: lineSource line) = none := by
        unfold tagAt?
        rw [hstart]
        rfl
      show Segment.ofText (c :: lineSource line) = _
      rw [Segment.ofText_cons_of_tagAt?_eq_none hno, ih hrest]
    | tag inner =>
      have hbraces := splitBraces?_eq_some_iff.2 ⟨(rfl : inner ++ tagEnd ++ lineSource line = _),
        IsVariable.ne_nil hs, (IsVariable.braceFree hs).2⟩
      have htag : tagAt? (tagStart ++ inner ++ tagEnd ++ lineSource line) =
          some (inner, lineSource line) := by
        unfold tagAt?
        rw [List.append_assoc, List.append_assoc, Text.after?_append, ← List.append_assoc]
        exact hbraces
      show Segment.ofText (tagStart ++ inner ++ tagEnd ++ lineSource line) = _
      rw [Segment.ofText_of_tagAt? htag, ih hrest]

/-- A tag that names a path is rendered as what it stands for. -/
theorem Segment.render_tag {inner : Text} (h : IsVariable inner) (scope : Value) :
    (Segment.tag inner).render scope =
      ((fillTag scope inner).value, (fillTag scope inner).issues) := by
  have hname : Text.contains Directive.each.name inner = false := by
    rw [← Bool.not_eq_true, Text.contains_iff]
    exact h.no_loop
  simp only [Segment.render, hname, Bool.false_eq_true, if_false, fillTag]
  rcases scope.resolve? (Text.trim inner) with _ | v
  · rfl
  · rfl

/-- The segments of a line are rendered as `fillTags` says. -/
theorem flatMap_render_eq {line : List Segment} (hl : ∀ s ∈ line, s.WellFormed) (scope : Value) :
    (line.map (Segment.render scope)).flatMap Prod.fst = (fillTags scope line).value ∧
      (line.map (Segment.render scope)).flatMap Prod.snd = (fillTags scope line).issues := by
  induction line with
  | nil => exact ⟨rfl, rfl⟩
  | cons s line ih =>
    obtain ⟨hs, hrest⟩ := List.forall_mem_cons.1 hl
    obtain ⟨htext, hissues⟩ := ih hrest
    rw [List.map_cons, List.flatMap_cons, List.flatMap_cons, htext, hissues]
    cases s with
    | literal c => simp [Segment.render, fillTags]
    | tag inner => simp [Segment.render_tag hs, fillTags]

/-- A line is substituted as `fillTags` says. -/
theorem substitute_lineSource {line : List Segment} (hl : ∀ s ∈ line, s.WellFormed)
    (reporting : Bool) (scope : Value) :
    substitute reporting scope (lineSource line) =
      ((fillTags scope line).value, (fillTags scope line).issues) := by
  -- Without an opener the whole line is rendered, and none is reported.
  have hno : splitOpener? (lineSource line) = none :=
    splitOpener?_eq_none_iff.2 fun d => (ignores_lineSource hl d).no_opener
  obtain ⟨htext, hissues⟩ := flatMap_render_eq hl scope
  unfold substitute renderTags
  rw [hno]
  dsimp only
  rw [ofText_lineSource hl, htext, hissues]

/-! ## What is written without opening braces -/

section Lacks

variable {scope : Value} (hv : scope.Lacks '{')
include hv

/-- A tag brings no opening brace from the context. -/
theorem notMem_fillTag (inner : Text) : '{' ∉ (fillTag scope inner).value := by
  simp only [fillTag]
  split
  · next v hresolve => exact Value.notMem_display_of_lacks (.inl rfl) v (hv.resolve? hresolve)
  · simp

/-- A line brings no opening brace from the context. -/
theorem notMem_fillTags {line : List Segment} (hl : ∀ s ∈ line, s.WellFormed) :
    '{' ∉ (fillTags scope line).value := by
  induction line with
  | nil => simp [fillTags]
  | cons s line ih =>
    obtain ⟨hs, hrest⟩ := List.forall_mem_cons.1 hl
    have hline := ih hrest
    cases s with
    | literal c =>
      have hc : '{' ≠ c := Ne.symm hs
      simp [fillTags, hc, hline]
    | tag inner => simp [fillTags, notMem_fillTag hv inner, hline]

end Lacks

/-- No item brings an opening brace if its scope lacks them. -/
theorem notMem_overItems {body : Value → Outcome Text} {length index : Nat} {items : List Value}
    (hb : ∀ item ∈ items, ∀ index, '{' ∉ (body (itemScope item index length)).value) :
    '{' ∉ (overItems body length index items).value := by
  induction items generalizing index with
  | nil => simp [overItems]
  | cons item rest ih =>
    obtain ⟨hitem, hrest⟩ := List.forall_mem_cons.1 hb
    simp [overItems, hitem index, ih hrest]

/-- The text of a loop holds no opening brace if no scope of an item brings one. -/
theorem notMem_runLoop {scope : Value} {path : Text} {body : Value → Outcome Text}
    (hv : scope.Lacks '{') (hb : ∀ s : Value, s.Lacks '{' → '{' ∉ (body s).value) :
    '{' ∉ (runLoop scope path body).value := by
  simp only [runLoop]
  split
  · next items hitems =>
    have hlack := hv.resolveArray? hitems
    exact notMem_overItems fun item hmem index => hb _ ((hlack item hmem).itemScope _ _)
  · simp

/-- A settled tree is unrolled to a well-formed line. -/
theorem Settled.wellFormed_unroll {f : Settled} (hf : f.toTree.WellFormed) {scope : Value}
    (hv : scope.Lacks '{') : ∀ s ∈ (f.unroll scope).value, s.WellFormed := by
  induction f generalizing scope with
  | nil => simp [unroll]
  | text t rest ih =>
    simp only [unroll, Outcome.value_bind, Outcome.value_pure, List.forall_mem_append]
    exact ⟨wellFormed_of_mem_map_literal hf.1, ih hf.2 hv⟩
  | tag inner rest ih =>
    simp only [unroll, Outcome.value_bind, Outcome.value_pure, List.forall_mem_cons]
    exact ⟨hf.1, ih hf.2 hv⟩
  | each path body rest ihb ihr =>
    obtain ⟨-, hb, hr⟩ := hf
    simp only [unroll, Outcome.value_bind, Outcome.value_pure, List.forall_mem_append]
    refine ⟨wellFormed_of_mem_map_literal (notMem_runLoop hv fun s hs => ?_), ihr hr hv⟩
    exact notMem_fillTags hs (ihb hb hs)

/-- What a settled tree stands for holds no opening brace of the context. -/
theorem Settled.notMem_denote {f : Settled} (hf : f.toTree.WellFormed) {scope : Value}
    (hv : scope.Lacks '{') : '{' ∉ (f.denote scope).value :=
  notMem_fillTags hv (f.wellFormed_unroll hf hv)

/-- A well-formed tree is settled to a well-formed tree. -/
theorem Tree.wellFormed_settle {t : Tree} (ht : t.WellFormed) (detection : Detection)
    {scope : Value} (hv : scope.Lacks '{') :
    (t.settle detection scope).value.toTree.WellFormed := by
  induction t with
  | nil => trivial
  | text t rest ih => exact ⟨ht.1, ih ht.2⟩
  | tag inner rest ih => exact ⟨ht.1, ih ht.2⟩
  | cond expr body rest ihb ihr =>
    obtain ⟨-, hb, hr⟩ := ht
    simp only [settle, Outcome.value_bind, Outcome.value_pure]
    refine ⟨?_, ihr hr⟩
    split
    · exact Settled.notMem_denote (ihb hb) hv
    · simp
  | condElse expr body elseBody rest ihb ihe ihr =>
    obtain ⟨-, hb, he, hr⟩ := ht
    simp only [settle, Outcome.value_bind, Outcome.value_pure]
    refine ⟨?_, ihr hr⟩
    split
    · exact Settled.notMem_denote (ihb hb) hv
    · exact Settled.notMem_denote (ihe he) hv
  | each path body rest ihb ihr => exact ⟨ht.1, ihb ht.2.1, ihr ht.2.2⟩

/-- What a tree stands for holds no opening brace of the context. -/
theorem Tree.notMem_denote {t : Tree} (ht : t.WellFormed) (detection : Detection) {scope : Value}
    (hv : scope.Lacks '{') : '{' ∉ (t.denote detection scope).value :=
  Settled.notMem_denote (Tree.wellFormed_settle ht detection hv) hv

end Stencil
