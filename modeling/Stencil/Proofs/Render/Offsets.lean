import Stencil.Proofs.Render.Truncation
import Stencil.Proofs.Scan.Opener

/-!
# Where leftover openers are recorded

Every substitution records the first opener of its own text, and a nested render substitutes its own
text. So an offset that is recorded is a place in a text that some render of the run substitutes
(`Machine.unmatchedBlock_mem_reaches_iff`), which need not be that of the whole. The machine comes
to one substitution with nothing waiting for it, that of the text in which the blocks of the
template are expanded, and from there to its end (`Machine.Ending`).
-/

namespace Stencil

/-- Whether an issue is that of an opener without a closer. -/
def Issue.isUnmatched : Issue → Bool
  | unmatchedBlock _ _ => true
  | _ => false

/-- A path is no opener. -/
theorem Issue.isUnmatched_of_isPath {i : Issue} (h : i.isPath = true) : i.isUnmatched = false := by
  cases i with
  | unresolvedPath path => rfl
  | _ => cases h

/-- An opener is not among issues none of which is that of an opener. -/
theorem unmatchedBlock_notMem {issues : List Issue} (h : ∀ i ∈ issues, i.isUnmatched = false)
    (d : Directive) (n : Nat) : .unmatchedBlock d n ∉ issues := fun hmem => by
  cases h _ hmem

/-- Which opener is recorded before a text is substituted. -/
theorem unmatchedBlock_mem_of_splitOpener? {t head tail : Text} {d d' : Directive} {n : Nat}
    (h : splitOpener? t = some (head, d', tail)) :
    .unmatchedBlock d n ∈ [Issue.unmatchedBlock d' (Text.utf8Length head)] ↔
      FirstOpenerAt t d n := by
  have hfirst := (splitOpener?_eq_some_iff.1 h).2
  rw [List.mem_singleton]
  constructor
  · intro heq
    obtain ⟨rfl, rfl⟩ := Issue.unmatchedBlock.inj heq
    exact ⟨head, hfirst, rfl⟩
  · rintro ⟨before, hbefore, rfl⟩
    obtain ⟨rfl, rfl⟩ := hbefore.unique hfirst
    rfl

/-- Where no opener stands none is the first. -/
theorem not_firstOpenerAt {t : Text} (h : splitOpener? t = none) (d : Directive) (n : Nat) :
    ¬ FirstOpenerAt t d n := by
  rintro ⟨before, hfirst, -⟩
  obtain ⟨s, hs⟩ := hfirst.stands
  exact splitOpener?_eq_none_iff.1 h d ⟨before, s, hs⟩

/-- A substitution that reports records the first opener of its text. -/
theorem unmatchedBlock_mem_substitute_iff {scope : Value} {t : Text} {d : Directive} {n : Nat} :
    .unmatchedBlock d n ∈ (substitute true scope t).2 ↔ FirstOpenerAt t d n := by
  have htags (u : Text) : .unmatchedBlock d n ∉ (renderTags scope u).2 := fun hmem => by
    cases isPath_of_mem_renderTags hmem
  unfold substitute
  split
  · next hsplit => exact iff_of_false (htags t) (not_firstOpenerAt hsplit d n)
  · next head d' tail hsplit =>
    rw [← unmatchedBlock_mem_of_splitOpener? hsplit]
    exact List.mem_append.trans (or_iff_left (htags head))

/-- And it records no other. -/
theorem countP_isUnmatched_substitute_le (reporting : Bool) (scope : Value) (t : Text) :
    (substitute reporting scope t).2.countP Issue.isUnmatched ≤ 1 := by
  have htags (u : Text) : (renderTags scope u).2.countP Issue.isUnmatched = 0 :=
    List.countP_eq_zero.2 fun i hi => by
      simp [Issue.isUnmatched_of_isPath (isPath_of_mem_renderTags hi)]
  unfold substitute
  split
  · rw [htags]
    exact Nat.zero_le 1
  · dsimp only
    rw [List.countP_append, htags]
    split
    · exact Nat.le_refl 1
    · exact Nat.zero_le 1

namespace Machine

variable {o : Options} {m m' : Machine} {d : Directive} {n : Nat}

/-! ## What a step records -/

/-- The first opener of the text that is to be substituted will be recorded. -/
def Reports (m : Machine) (d : Directive) (offset : Nat) : Prop :=
  m.ledger.exhausted = false ∧
    ∃ scope t, m.control = .substitute scope t ∧ FirstOpenerAt t d offset

/-- Nothing but a substitution records an opener. -/
theorem not_reports (h : ∀ scope t, m.control ≠ .substitute scope t) : ¬ m.Reports d n :=
  fun ⟨_, scope, t, hcontrol, _⟩ => h scope t hcontrol

/-- A substitution records the first opener of its text, until a block was refused. -/
theorem reports_substitute_iff {scope : Value} {t : Text} {stack : List Frame} {l : Ledger} :
    Reports ⟨.substitute scope t, stack, l⟩ d n ↔ l.exhausted = false ∧ FirstOpenerAt t d n := by
  constructor
  · rintro ⟨hopen, scope, t, hcontrol, hfirst⟩
    cases hcontrol
    exact ⟨hopen, hfirst⟩
  · exact fun ⟨hopen, hfirst⟩ => ⟨hopen, scope, t, rfl, hfirst⟩

/-- What else is done adds no opener to the issues. -/
theorem issues_step (hstep : m.step o = some m')
    (hcontrol : ∀ scope t, m.control ≠ .substitute scope t) :
    ∃ issues, m'.ledger.issues = m.ledger.issues ++ issues ∧
      ∀ i ∈ issues, i.isUnmatched = false := by
  obtain ⟨control, stack, ledger⟩ := m
  have hsame : ∃ issues, ledger.issues = ledger.issues ++ issues ∧
      ∀ i ∈ issues, i.isUnmatched = false :=
    ⟨[], (List.append_nil _).symm, List.forall_mem_nil _⟩
  cases control with
  | substitute scope t => exact absurd rfl (hcontrol scope t)
  | render scope t =>
    simp only [step] at hstep
    split at hstep
    · cases hstep
      exact hsame
    · cases hstep
      exact hsame
  | seek d' scope t =>
    simp only [step] at hstep
    split at hstep
    · cases hstep
      exact hsame
    · cases hstep
      dsimp only
      unfold Ledger.spend
      split
      · exact hsame
      · split
        · exact ⟨_, rfl, by simp [Issue.isUnmatched]⟩
        · exact hsame
  | expand scope b =>
    cases hstep
    unfold expand
    split
    · have hcondition : ∀ i ∈ (Condition.parse o.detection b.expr).issues,
          i.isUnmatched = false := by
        cases Condition.parse o.detection b.expr <;> simp [Condition.issues, Issue.isUnmatched]
      dsimp only
      split
      · exact ⟨_, rfl, hcondition⟩
      · exact ⟨_, rfl, hcondition⟩
    · split
      · exact hsame
      · exact ⟨_, rfl, by simp [Issue.isUnmatched]⟩
  | items scope b length index out rest =>
    cases rest with
    | nil =>
      cases hstep
      exact hsame
    | cons item rest =>
      cases hstep
      exact hsame
  | segments scope out rest tail =>
    cases rest with
    | nil =>
      cases hstep
      exact hsame
    | cons s rest =>
      cases hstep
      exact ⟨_, rfl, fun i hi => Issue.isUnmatched_of_isPath (s.isPath_of_mem_render scope i hi)⟩
  | done t =>
    cases stack with
    | nil => cases hstep
    | cons frame stack =>
      cases frame with
      | part scope b =>
        cases hstep
        exact hsame
      | item scope b length index out rest =>
        cases hstep
        exact hsame

/-- A step records an opener exactly if it reports one. -/
theorem unmatchedBlock_mem_step_iff (hstep : m.step o = some m') :
    .unmatchedBlock d n ∈ m'.ledger.issues ↔
      .unmatchedBlock d n ∈ m.ledger.issues ∨ m.Reports d n := by
  by_cases hcontrol : ∃ scope t, m.control = .substitute scope t
  · obtain ⟨scope, t, hcontrol⟩ := hcontrol
    obtain ⟨control, stack, ledger⟩ := m
    obtain rfl : control = .substitute scope t := hcontrol
    rw [reports_substitute_iff]
    simp only [step] at hstep
    split at hstep
    · next hsplit =>
      cases hstep
      exact (or_iff_left fun h => not_firstOpenerAt hsplit d n h.2).symm
    · next head d' tail hsplit =>
      cases hstep
      show _ ∈ ledger.issues ++ _ ↔ _
      rw [List.mem_append]
      refine or_congr_right ?_
      cases ledger.exhausted with
      | true => simp
      | false => simpa using unmatchedBlock_mem_of_splitOpener? hsplit
  · have hother : ∀ scope t, m.control ≠ .substitute scope t := fun scope t h =>
      hcontrol ⟨scope, t, h⟩
    obtain ⟨issues, heq, hissues⟩ := issues_step hstep hother
    rw [or_iff_left (not_reports hother), heq, List.mem_append,
      or_iff_left (unmatchedBlock_notMem hissues d n)]

/-- In a run an opener is recorded exactly if a step on the way reports it. -/
theorem unmatchedBlock_mem_reaches_iff (hrun : Reaches o m m') :
    .unmatchedBlock d n ∈ m'.ledger.issues ↔
      .unmatchedBlock d n ∈ m.ledger.issues ∨
        ∃ m₁ m₂, Reaches o m m₁ ∧ m₁.Reports d n ∧ m₁.step o = some m₂ ∧ Reaches o m₂ m' := by
  have hkept {k k' : Machine} (hrun : Reaches o k k')
      (h : .unmatchedBlock d n ∈ k.ledger.issues) : .unmatchedBlock d n ∈ k'.ledger.issues := by
    induction hrun with
    | refl => exact h
    | tail _ hstep ih => exact (unmatchedBlock_mem_step_iff hstep).2 (.inl ih)
  constructor
  · intro hmem
    induction hrun with
    | refl => exact .inl hmem
    | tail hrun hstep ih =>
      rcases (unmatchedBlock_mem_step_iff hstep).1 hmem with hmem | hreports
      · -- It was recorded before the last step.
        rcases ih hmem with hmem | ⟨m₁, m₂, hrun₁, hreports, hstep₁, hrun₂⟩
        · exact .inl hmem
        · exact .inr ⟨m₁, m₂, hrun₁, hreports, hstep₁, hrun₂.tail hstep⟩
      · exact .inr ⟨_, _, hrun, hreports, hstep, .refl⟩
  · rintro (hmem | ⟨m₁, m₂, -, hreports, hstep, hrun₂⟩)
    · exact hkept hrun hmem
    · exact hkept hrun₂ ((unmatchedBlock_mem_step_iff hstep).2 (.inr hreports))

/-! ## The substitution that nothing waits for -/

/-- The machine expands the blocks of a text as `expandWithin` does, and then substitutes it. -/
theorem comes_loop {l : Ledger} {budget : Budget} (h : l.budget o.maxPasses.toNat = budget)
    (scope : Value) (t : Text) :
    Comes o l (.render scope t) (expandWithin o budget scope t).log
      (expandWithin o budget scope t).budget
      (.substitute scope (expandWithin o budget scope t).text) := by
  induction budget, t using expandWithin_induction (o := o) scope generalizing l with
  | exhausted t =>
    rw [expandWithin_exhausted]
    exact comes_loop_exhausted h scope t
  | none n t hnext =>
    rw [expandWithin_of_nextBlock?_eq_none hnext]
    exact comes_loop_of_none h hnext scope
  | refused t b hnext =>
    rw [expandWithin_left_zero hnext]
    exact comes_loop_refused h hnext scope
  | block n t b hnext ih =>
    rw [expandWithin_left_succ hnext]
    exact (comes_expand_of_some h hnext scope).trans fun l₁ h₁ =>
      (comes_expand (fun h _ scope t => comes_render h scope t) h₁ (Nat.le_refl _) scope b).trans
        fun l₂ h₂ => ih h₂

/-- A render comes to the substitution of the whole, with what was recorded while the blocks of the
template were expanded. -/
theorem reaches_substitute (o : Options) (context : Value) (template : Text) :
    ∃ m, Reaches o (start context template) m ∧ m.stack = [] ∧
      m.control =
        .substitute context (expandWithin o (.left o.maxPasses.toNat) context template).text ∧
      m.ledger.issues =
        (expandWithin o (.left o.maxPasses.toNat) context template).log.filterMap Event.issue? := by
  obtain ⟨l, hadds, hrun⟩ := comes_loop (o := o) (l := ⟨[], 0, false⟩) rfl context template []
  exact ⟨_, hrun, rfl, rfl, hadds.issues⟩

/-- Nothing waits, and what is left to do is to write the text of the whole. -/
def Ending (m : Machine) : Prop :=
  m.stack = [] ∧ ((∃ scope out rest tail, m.control = .segments scope out rest tail) ∨
    ∃ t, m.control = .done t)

/-- A substitution that nothing waits for leads to the end. -/
theorem ending_of_substitute {scope : Value} {t : Text}
    (hcontrol : m.control = .substitute scope t) (hstack : m.stack = [])
    (hstep : m.step o = some m') : m'.Ending := by
  simp only [step, hcontrol] at hstep
  split at hstep
  · cases hstep
    exact ⟨hstack, .inl ⟨_, _, _, _, rfl⟩⟩
  · cases hstep
    exact ⟨hstack, .inl ⟨_, _, _, _, rfl⟩⟩

/-- From there the machine goes on to its end. -/
theorem Ending.reaches (h : m.Ending) (hrun : Reaches o m m') : m'.Ending := by
  induction hrun with
  | refl => exact h
  | @tail k k' _ hstep ih =>
    obtain ⟨control, stack, ledger⟩ := k
    obtain ⟨rfl, ⟨scope, out, rest, tail, rfl⟩ | ⟨t, rfl⟩⟩ := ih
    · cases rest with
      | nil =>
        cases hstep
        exact ⟨rfl, .inr ⟨_, rfl⟩⟩
      | cons s rest =>
        cases hstep
        exact ⟨rfl, .inl ⟨_, _, _, _, rfl⟩⟩
    · cases hstep

/-- Near its end the machine substitutes no text. -/
theorem Ending.ne_substitute (h : m.Ending) (scope : Value) (t : Text) :
    m.control ≠ .substitute scope t := by
  rcases h.2 with ⟨_, _, _, _, heq⟩ | ⟨_, heq⟩
  · rw [heq]
    nofun
  · rw [heq]
    nofun

end Machine

/-! ## Openers of nested renders -/

/-- A nested render of a template leaves an opener, at a place in the text that it substitutes. -/
def LeavesNested (o : Options) (context : Value) (template : Text) (d : Directive)
    (offset : Nat) : Prop :=
  ∃ m, Machine.Reaches o (.start context template) m ∧ m.stack ≠ [] ∧ m.Reports d offset

section Nested

variable {o : Options} {context : Value} {template : Text} {d : Directive} {n : Nat}

/-- While the blocks of a template are expanded the openers are recorded that nested renders
leave. -/
theorem unmatchedBlock_mem_expandWithin_iff :
    .issue (.unmatchedBlock d n) ∈ (expandWithin o (.left o.maxPasses.toNat) context template).log ↔
      LeavesNested o context template d n := by
  -- The state `m` is that in which the text of the whole is substituted.
  obtain ⟨m, hrun, hstack, hcontrol, hissues⟩ := Machine.reaches_substitute o context template
  have hstart : .unmatchedBlock d n ∉ (Machine.start context template).ledger.issues :=
    List.not_mem_nil
  rw [← mem_filterMap_issue?_iff, ← hissues, Machine.unmatchedBlock_mem_reaches_iff hrun,
    or_iff_right hstart]
  constructor
  · rintro ⟨m₁, m₂, hrun₁, hreports, hstep, hrun₂⟩
    refine ⟨m₁, hrun₁, fun hempty => ?_, hreports⟩
    obtain ⟨-, scope, t', hcontrol₁, -⟩ := hreports
    exact ((Machine.ending_of_substitute hcontrol₁ hempty hstep).reaches hrun₂).ne_substitute _ _
      hcontrol
  · rintro ⟨m₁, hrun₁, hnested, hreports⟩
    rcases Machine.reaches_total hrun₁ hrun with hbefore | hafter
    · rcases hbefore.cases_head with rfl | ⟨m₂, hstep, hrun₂⟩
      · exact absurd hstack hnested
      · exact ⟨m₁, m₂, hrun₁, hreports, hstep, hrun₂⟩
    · -- After the substitution of the whole nothing is nested.
      rcases hafter.cases_head with rfl | ⟨m₂, hstep, hrun₂⟩
      · exact absurd hstack hnested
      · exact absurd ((Machine.ending_of_substitute hcontrol hstack hstep).reaches hrun₂).1 hnested

/-- A render that was not cut short records what its nested renders leave, and then the first opener
of the text in which its blocks are expanded. -/
theorem issues_render_eq (h : ∀ n, .passLimitReached n ∉ (render o context template).issues) :
    (render o context template).issues =
      (expandWithin o (.left o.maxPasses.toNat) context template).log.filterMap Event.issue? ++
        (substitute true context
          (expandWithin o (.left o.maxPasses.toNat) context template).text).2 := by
  have hbudget := noLimit_renderWithin_iff.1 (noLimit_of_issues h)
  rw [renderWithin_eq_andThen] at hbudget
  have hreporting : (expandWithin o (.left o.maxPasses.toNat) context template).budget ≠
      .exhausted := hbudget
  show (renderWithin _ _ _ _).log.filterMap Event.issue? = _
  rw [renderWithin_eq_andThen]
  show List.filterMap _ (_ ++ List.map _ (substitute _ _ _).2) = _
  rw [List.filterMap_append, filterMap_issue?_map, decide_eq_true hreporting]

end Nested

/-- Which openers a render records that was not cut short: those that its nested renders leave, at
their places in the texts that these substitute, and the first in the text in which the blocks of
the template are expanded. So all offsets are places in this text, and one opener is recorded at
most, exactly if the nested renders leave none. -/
theorem unmatchedBlock_mem_render_iff (o : Options) (context : Value) (template : Text)
    (h : ∀ n, .passLimitReached n ∉ (render o context template).issues) :
    let issues := (render o context template).issues
    let expanded := (expandWithin o (.left o.maxPasses.toNat) context template).text
    (∀ d n, .unmatchedBlock d n ∈ issues ↔
        LeavesNested o context template d n ∨ FirstOpenerAt expanded d n) ∧
      (((∀ d n, .unmatchedBlock d n ∈ issues → FirstOpenerAt expanded d n) ∧
          issues.countP Issue.isUnmatched ≤ 1) ↔
        ∀ d n, ¬ LeavesNested o context template d n) := by
  intro issues expanded
  have hissues := issues_render_eq h
  have hmem (d : Directive) (n : Nat) : .unmatchedBlock d n ∈ issues ↔
      LeavesNested o context template d n ∨ FirstOpenerAt expanded d n := by
    show _ ∈ (render o context template).issues ↔ _
    rw [hissues, List.mem_append, mem_filterMap_issue?_iff, unmatchedBlock_mem_expandWithin_iff,
      unmatchedBlock_mem_substitute_iff]
  have hcount : issues.countP Issue.isUnmatched =
      ((expandWithin o (.left o.maxPasses.toNat) context template).log.filterMap
        Event.issue?).countP Issue.isUnmatched +
        (substitute true context expanded).2.countP Issue.isUnmatched := by
    show List.countP _ (render o context template).issues = _
    rw [hissues, List.countP_append]
  refine ⟨hmem, ?_, ?_⟩
  · rintro ⟨hfirst, hone⟩ d n hnested
    -- The opener would be recorded twice, by the nested render and for the text of the whole.
    have hinside : 0 < ((expandWithin o (.left o.maxPasses.toNat) context template).log.filterMap
        Event.issue?).countP Issue.isUnmatched :=
      List.countP_pos_iff.2 ⟨.unmatchedBlock d n,
        mem_filterMap_issue?_iff.2 (unmatchedBlock_mem_expandWithin_iff.2 hnested), rfl⟩
    have hwhole : 0 < (substitute true context expanded).2.countP Issue.isUnmatched :=
      List.countP_pos_iff.2 ⟨.unmatchedBlock d n,
        unmatchedBlock_mem_substitute_iff.2 (hfirst d n ((hmem d n).2 (.inl hnested))), rfl⟩
    omega
  · intro hnone
    refine ⟨fun d n hn => ((hmem d n).1 hn).resolve_left (hnone d n), ?_⟩
    have hinside : ((expandWithin o (.left o.maxPasses.toNat) context template).log.filterMap
        Event.issue?).countP Issue.isUnmatched = 0 := by
      refine List.countP_eq_zero.2 fun i hi hunmatched => ?_
      cases i with
      | unmatchedBlock d n =>
        exact hnone d n (unmatchedBlock_mem_expandWithin_iff.1 (mem_filterMap_issue?_iff.1 hi))
      | _ => cases hunmatched
    rw [hcount, hinside, Nat.zero_add]
    exact countP_isUnmatched_substitute_le _ _ _

/-- An `#each` without a closer in the body of an `@if`. -/
def openInside : Text :=
  ['a', 'b'] ++ (Directive.cond.opener ++ ['x'] ++ tagEnd ++
    (Directive.each.opener ++ ['y'] ++ tagEnd) ++ Directive.cond.closer)

/-- A context in which the condition of `openInside` holds. -/
def openInsideContext : Value := .object [(['x'], .bool true)]

/-- The body is left where the block was. -/
theorem text_expandWithin_openInside :
    (expandWithin {} (.left 10000) openInsideContext openInside).text =
      ['a', 'b'] ++ (Directive.each.opener ++ ['y'] ++ tagEnd) := by
  have hnext : nextBlock? openInside = some
      ⟨.cond, ['a', 'b'], ['x'], Directive.each.opener ++ ['y'] ++ tagEnd, none, []⟩ := by
    decide
  have hbody : (expandBlock .legacy (renderWithin {}) (.left 9999) openInsideContext
      ⟨.cond, ['a', 'b'], ['x'], Directive.each.opener ++ ['y'] ++ tagEnd, none, []⟩).text =
      Directive.each.opener ++ ['y'] ++ tagEnd := by
    decide
  have hnone : nextBlock? (['a', 'b'] ++ (Directive.each.opener ++ ['y'] ++ tagEnd) ++ []) =
      none := by
    decide
  rw [expandWithin_left_succ hnext 9999]
  show (expandWithin _ _ _ (Block.replaceWith _ (expandBlock _ _ _ _ _).text)).text = _
  rw [hbody, Block.replaceWith, expandWithin_of_nextBlock?_eq_none hnone]
  rfl

/-- The opener is recorded for the body and for the whole. -/
theorem issues_openInside :
    (render {} openInsideContext openInside).issues =
      [.unmatchedBlock .each 0, .unmatchedBlock .each 2] := by
  decide

/-- No block is refused. -/
theorem noLimit_openInside (n : Nat) :
    .passLimitReached n ∉ (render {} openInsideContext openInside).issues := by
  rw [issues_openInside]
  simp

/-- The opener does not stand at the beginning of the text of the whole. -/
theorem not_firstOpenerAt_openInside :
    ¬ FirstOpenerAt (expandWithin {} (.left 10000) openInsideContext openInside).text .each 0 := by
  rw [text_expandWithin_openInside]
  rintro ⟨before, hfirst, hoffset⟩
  have hsplit : splitOpener? (['a', 'b'] ++ (Directive.each.opener ++ ['y'] ++ tagEnd)) =
      some (['a', 'b'], .each, Directive.each.opener ++ ['y'] ++ tagEnd) := by
    decide
  obtain ⟨-, rfl⟩ := hfirst.unique (splitOpener?_eq_some_iff.1 hsplit).2
  exact absurd hoffset (by decide)

/-- So what is recorded for the body is no place in the text of the whole. -/
theorem openInside_offset_misplaced :
    (∀ n, .passLimitReached n ∉ (render {} openInsideContext openInside).issues) ∧
      ¬ ∀ d n, .unmatchedBlock d n ∈ (render {} openInsideContext openInside).issues →
        FirstOpenerAt (expandWithin {} (.left 10000) openInsideContext openInside).text d n := by
  refine ⟨noLimit_openInside, fun h => not_firstOpenerAt_openInside (h .each 0 ?_)⟩
  rw [issues_openInside]
  simp

/-- The body of the `@if` is a nested render that leaves an opener at its beginning. -/
theorem leavesNested_openInside :
    (∀ n, .passLimitReached n ∉ (render {} openInsideContext openInside).issues) ∧
      LeavesNested {} openInsideContext openInside .each 0 := by
  have hmem := (unmatchedBlock_mem_render_iff {} openInsideContext openInside
    noLimit_openInside).1 .each 0
  refine ⟨noLimit_openInside, (hmem.1 ?_).resolve_right not_firstOpenerAt_openInside⟩
  rw [issues_openInside]
  simp

end Stencil
