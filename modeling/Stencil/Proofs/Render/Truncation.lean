import Stencil.Proofs.Render.Ledger
import Stencil.Proofs.Render.Loop

/-!
# More passes

With more passes a render does the same until it would be refused a block, which it expands then.
So a limit that is not met does not show, and one that is met only cuts the render short: what is
recorded before it is recorded with more passes too, and after it nothing but paths is.

`CutShort` relates a pass to the same with more passes. It is kept when one pass follows another
(`CutShort.andThen`), and the proof for a whole render (`cutShort_renderWithin`) goes by induction
on the passes that are left. `Pass.Spent` is what every pass is after a block was refused.
-/

namespace Stencil

/-- No block is refused in a log. -/
def NoLimit (log : List Event) : Prop := ∀ n, .issue (.passLimitReached n) ∉ log

/-- Only paths are recorded in a log. -/
def OnlyPaths (log : List Event) : Prop := ∀ e ∈ log, ∃ path, e = .issue (.unresolvedPath path)

/-- Issues of which none is that of the limit. -/
theorem noLimit_map_issue {issues : List Issue} (h : ∀ i ∈ issues, i.isLimit = false) :
    NoLimit (issues.map .issue) := by
  intro n hmem
  obtain ⟨i, hi, heq⟩ := List.mem_map.1 hmem
  obtain rfl := Event.issue.inj heq
  cases h _ hi

/-- In neither of two logs a block is refused. -/
theorem NoLimit.append {log log' : List Event} (h : NoLimit log) (h' : NoLimit log') :
    NoLimit (log ++ log') := by
  intro n hmem
  rcases List.mem_append.1 hmem with hmem | hmem
  · exact h n hmem
  · exact h' n hmem

/-- In both of two logs only paths are recorded. -/
theorem OnlyPaths.append {log log' : List Event} (h : OnlyPaths log) (h' : OnlyPaths log') :
    OnlyPaths (log ++ log') :=
  List.forall_mem_append.2 ⟨h, h'⟩

/-- Tags record paths. -/
theorem isPath_of_mem_renderTags {scope : Value} {t : Text} {i : Issue}
    (h : i ∈ (renderTags scope t).2) : i.isPath = true := by
  obtain ⟨part, hpart, hi⟩ := List.mem_flatMap.1 h
  obtain ⟨s, -, rfl⟩ := List.mem_map.1 hpart
  exact s.isPath_of_mem_render scope i hi

/-- Substitution records paths, and an opener only if it reports. -/
theorem isPath_or_of_mem_substitute {reporting : Bool} {scope : Value} {t : Text} {i : Issue}
    (h : i ∈ (substitute reporting scope t).2) :
    i.isPath = true ∨ reporting = true ∧ ∃ d n, i = .unmatchedBlock d n := by
  unfold substitute at h
  split at h
  · exact .inl (isPath_of_mem_renderTags h)
  · rcases List.mem_append.1 h with hi | hi
    · right
      split at hi
      · next hreporting => exact ⟨hreporting, _, _, List.mem_singleton.1 hi⟩
      · cases hi
    · exact .inl (isPath_of_mem_renderTags hi)

/-- Substitution refuses no block. -/
theorem isLimit_of_mem_substitute {reporting : Bool} {scope : Value} {t : Text} {i : Issue}
    (h : i ∈ (substitute reporting scope t).2) : i.isLimit = false := by
  rcases isPath_or_of_mem_substitute h with hpath | ⟨-, d, k, rfl⟩
  · exact Issue.isLimit_of_isPath hpath
  · rfl

/-! ## After a block was refused -/

/-- A pass in which no block is expanded and only paths are recorded, since the budget is
exhausted. -/
structure Pass.Spent (p : Pass) : Prop where
  budget_eq : p.budget = .exhausted
  paths : OnlyPaths p.log

/-- When the budget is exhausted a render records only paths. -/
theorem spent_renderWithin (o : Options) (scope : Value) (t : Text) :
    (renderWithin o .exhausted scope t).Spent := by
  refine ⟨rfl, fun e he => ?_⟩
  obtain ⟨i, hi, rfl⟩ := List.mem_map.1 he
  rcases isPath_or_of_mem_substitute hi with hpath | ⟨hreporting, -⟩
  · cases i with
    | unresolvedPath path => exact ⟨path, rfl⟩
    | _ => cases hpath
  · cases hreporting

/-- When the budget is exhausted the bodies of all items record only paths. -/
theorem spent_renderItems (o : Options) (length : Nat) (body : Text) (index : Nat)
    (items : List Value) :
    (renderItems (renderWithin o) length body index .exhausted items).Spent := by
  induction items generalizing index with
  | nil => exact ⟨rfl, List.forall_mem_nil _⟩
  | cons item rest ih =>
    have hfirst := spent_renderWithin o (itemScope item index length) body
    rw [renderItems_cons]
    unfold Pass.andThen
    rw [hfirst.budget_eq]
    exact ⟨(ih (index + 1)).budget_eq, hfirst.paths.append (ih (index + 1)).paths⟩

/-! ## Passes that are cut short -/

/-- How a pass relates to the same with `extra` passes more. -/
inductive CutShort (limit extra : Nat) (p q : Pass) : Prop
  /-- No block is refused, and both do the same. -/
  | whole (n : Nat) (budget_eq : p.budget = .left n) (budget_eq' : q.budget = .left (n + extra))
      (text_eq : q.text = p.text) (log_eq : q.log = p.log) (no_limit : NoLimit p.log)
  /-- A block is refused, and expanded if there are passes more. Before it both record the same, and
  after it only paths are recorded. -/
  | cut (before after : List Event) (budget_eq : p.budget = .exhausted)
      (log_eq : p.log = before ++ .issue (.passLimitReached limit) :: after)
      (no_limit : NoLimit before) (paths : OnlyPaths after) (log_begins : before <+: q.log)
      (expands : extra ≠ 0 → before ++ [.expanded] <+: q.log)

namespace CutShort

variable {limit extra : Nat} {p q : Pass}

/-- Issues that are recorded in both. -/
theorem recording {issues : List Issue} (h : ∀ i ∈ issues, i.isLimit = false) (n : Nat) :
    CutShort limit extra (Pass.recording issues (.left n))
      (Pass.recording issues (.left (n + extra))) :=
  .whole n rfl rfl rfl rfl (noLimit_map_issue h)

/-- What is made of the text changes nothing. -/
theorem mapText (h : CutShort limit extra p q) (f : Text → Text) :
    CutShort limit extra (p.mapText f) (q.mapText f) := by
  cases h with
  | whole n hp hq htext hlog hno => exact .whole n hp hq (congrArg f htext) hlog hno
  | cut before after hp hlog hno hpaths hbegin hexpands =>
    exact .cut before after hp hlog hno hpaths hbegin hexpands

/-- One pass after another. What follows the first with passes left is cut short itself; what
follows it when a block was refused is spent. -/
theorem andThen {f g : Text → Budget → Pass} (h : CutShort limit extra p q)
    (hf : ∀ t n, p.budget = .left n →
      CutShort limit extra (f t (.left n)) (g t (.left (n + extra))))
    (hspent : p.budget = .exhausted → ∀ t, (f t .exhausted).Spent) :
    CutShort limit extra (p.andThen f) (q.andThen g) := by
  unfold Pass.andThen
  cases h with
  | whole n hp hq htext hlog hno =>
    have hrest := hf p.text n hp
    rw [hp, hq, htext, hlog]
    cases hrest with
    | whole n' hp' hq' htext' hlog' hno' =>
      exact .whole n' hp' hq' htext' (congrArg (p.log ++ ·) hlog') (hno.append hno')
    | cut before after hp' hlog' hno' hpaths hbegin hexpands =>
      -- What the first records comes before what is recorded until the block is refused.
      refine .cut (p.log ++ before) after hp' ?_ (hno.append hno') hpaths ?_ fun hextra => ?_
      · show p.log ++ (f p.text (.left n)).log = _
        rw [hlog', List.append_assoc]
      · exact (List.prefix_append_right_inj p.log).2 hbegin
      · rw [List.append_assoc]
        exact (List.prefix_append_right_inj p.log).2 (hexpands hextra)
  | cut before after hp hlog hno hpaths hbegin hexpands =>
    have hrest := hspent hp p.text
    rw [hp]
    refine .cut before (after ++ (f p.text .exhausted).log) hrest.budget_eq ?_ hno
      (hpaths.append hrest.paths) (hbegin.trans (List.prefix_append _ _))
      fun hextra => (hexpands hextra).trans (List.prefix_append _ _)
    show p.log ++ (f p.text .exhausted).log = _
    rw [hlog]
    simp

end CutShort

/-! ## Renders that are cut short -/

/-- A text without a block to expand has its tags substituted, whatever is left of the budget. -/
theorem cutShort_substitutePass (limit extra n : Nat) (scope : Value) (t : Text) :
    CutShort limit extra (substitutePass (.left n) scope t)
      (substitutePass (.left (n + extra)) scope t) :=
  .whole n rfl rfl rfl rfl (noLimit_map_issue fun _ => isLimit_of_mem_substitute)

section Blocks

variable {o o' : Options} {bound extra : Nat}
  (hrender : ∀ n ≤ bound, ∀ scope t, CutShort o.maxPasses.toNat extra
    (renderWithin o (.left n) scope t) (renderWithin o' (.left (n + extra)) scope t))
include hrender

/-- The bodies of all items are cut short if each of them is. -/
theorem cutShort_renderItems (length : Nat) (body : Text) (index : Nat) {n : Nat} (hn : n ≤ bound)
    (items : List Value) :
    CutShort o.maxPasses.toNat extra
      (renderItems (renderWithin o) length body index (.left n) items)
      (renderItems (renderWithin o') length body index (.left (n + extra)) items) := by
  induction items generalizing index n with
  | nil => exact .whole n rfl rfl rfl rfl fun _ => List.not_mem_nil
  | cons item rest ih =>
    have hleft := passes_renderWithin_le (o := o) (.left n) (itemScope item index length) body
    rw [renderItems_cons, renderItems_cons]
    refine (hrender n hn _ body).andThen (fun first k hk => ?_) fun _ first => ?_
    · rw [hk] at hleft
      exact (ih (index + 1) (Nat.le_trans hleft hn)).mapText (first ++ ·)
    · have hrest := spent_renderItems o length body (index + 1) rest
      exact ⟨hrest.budget_eq, hrest.paths⟩

/-- What a block stands for is cut short if its parts are. -/
theorem cutShort_expandBlock (detection : Detection) {n : Nat} (hn : n ≤ bound) (scope : Value)
    (b : Block) :
    CutShort o.maxPasses.toNat extra
      (expandBlock detection (renderWithin o) (.left n) scope b)
      (expandBlock detection (renderWithin o') (.left (n + extra)) scope b) := by
  have hissues : ∀ i ∈ (Condition.parse detection b.expr).issues, i.isLimit = false := by
    cases Condition.parse detection b.expr <;> simp [Condition.issues, Issue.isLimit]
  unfold expandBlock
  split
  · dsimp only
    split
    · next part _ =>
      -- The issues of the condition come before those of the part.
      refine (CutShort.recording hissues n).andThen
        (f := fun _ left => renderWithin o left scope part)
        (g := fun _ left => renderWithin o' left scope part) (fun _ k hk => ?_) fun hk => ?_
      · obtain rfl := Budget.left.inj hk
        exact hrender n hn scope part
      · cases hk
    · exact CutShort.recording hissues n
  · split
    · exact cutShort_renderItems hrender _ _ _ hn _
    · have hissue : ∀ i ∈ [Issue.unresolvedArray b.expr], i.isLimit = false := by
        simp [Issue.isLimit]
      exact CutShort.recording hissue n

end Blocks

/-- A render is cut short in comparison with the same render with more passes. -/
theorem cutShort_renderWithin (o o' : Options) (hd : o.detection = o'.detection) (extra n : Nat)
    (scope : Value) (t : Text) :
    CutShort o.maxPasses.toNat extra (renderWithin o (.left n) scope t)
      (renderWithin o' (.left (n + extra)) scope t) := by
  induction n using Nat.strongRecOn generalizing scope t with
  | ind n ih =>
    cases hnext : nextBlock? t with
    | none =>
      rw [renderWithin_of_nextBlock?_eq_none hnext, renderWithin_of_nextBlock?_eq_none hnext]
      exact cutShort_substitutePass _ _ _ _ _
    | some b =>
      cases n with
      | zero =>
        -- The block is refused at once, and the first to be expanded with more passes.
        have hspent := spent_renderWithin o scope t
        rw [renderWithin_left_zero hnext]
        refine .cut [] _ hspent.budget_eq rfl (fun _ => List.not_mem_nil) hspent.paths
          List.nil_prefix fun hextra => ?_
        obtain ⟨k, rfl⟩ := Nat.exists_eq_succ_of_ne_zero hextra
        rw [Nat.zero_add, renderWithin_left_succ hnext]
        exact ⟨_, rfl⟩
      | succ n =>
        have hsucc : n + 1 + extra = n + extra + 1 := by omega
        have hexpand := cutShort_expandBlock (fun k hk => ih k (Nat.lt_succ_of_le hk)) o.detection
          (Nat.le_refl n) scope b
        have hleft := passes_expandBlock_renderWithin_le (o := o) n scope b
        -- What the block stands for is cut short, or the text that it leaves is.
        have hblock := hexpand.andThen (f := fun text left => renderWithin o left scope
            (b.replaceWith text))
          (g := fun text left => renderWithin o' left scope (b.replaceWith text))
          (fun text k hk => ih k (by rw [hk] at hleft; exact Nat.lt_succ_of_le hleft) _ _)
          fun _ text => spent_renderWithin o scope _
        have hexpanded : CutShort o.maxPasses.toNat extra ⟨[], [.expanded], .left n⟩
            ⟨[], [.expanded], .left (n + extra)⟩ :=
          .whole n rfl rfl rfl rfl (by simp [NoLimit])
        rw [hsucc, renderWithin_left_succ_eq_andThen hnext, renderWithin_left_succ_eq_andThen hnext,
          ← hd]
        refine hexpanded.andThen (fun _ k hk => ?_) fun hk => ?_
        · obtain rfl := Budget.left.inj hk
          exact hblock
        · cases hk

/-- The budget of a render is exhausted exactly if a block was refused. -/
theorem noLimit_renderWithin_iff {o : Options} {n : Nat} {scope : Value} {t : Text} :
    NoLimit (renderWithin o (.left n) scope t).log ↔
      (renderWithin o (.left n) scope t).budget ≠ .exhausted := by
  cases cutShort_renderWithin o o rfl 0 n scope t with
  | whole k hp hq htext hlog hno => simp [hp, hno]
  | cut before after hp hlog hno hpaths hbegin =>
    refine ⟨fun h => absurd ?_ (h o.maxPasses.toNat), fun h => absurd hp h⟩
    rw [hlog]
    simp

/-- The issues that are recorded before another, as those of a log. -/
theorem filterMap_issue?_append_cons (before after : List Event) (i : Issue) :
    (before ++ .issue i :: after).filterMap Event.issue? =
      before.filterMap Event.issue? ++ i :: after.filterMap Event.issue? := by
  rw [List.filterMap_append]
  rfl

/-- An issue is recorded if it is in the log. -/
theorem mem_filterMap_issue?_iff {log : List Event} {i : Issue} :
    i ∈ log.filterMap Event.issue? ↔ .issue i ∈ log := by
  rw [List.mem_filterMap]
  constructor
  · rintro ⟨e, he, hi⟩
    cases e with
    | expanded => cases hi
    | issue j =>
      obtain rfl := Option.some.inj hi
      exact he
  · exact fun h => ⟨_, h, rfl⟩

/-- No block is refused if the issues of a render do not say so. -/
theorem noLimit_of_issues {o : Options} {context : Value} {template : Text}
    (h : ∀ n, .passLimitReached n ∉ (render o context template).issues) :
    NoLimit (renderWithin o (.left o.maxPasses.toNat) context template).log :=
  fun n hn => h n (mem_filterMap_issue?_iff.2 hn)

/-- The limit of passes only cuts a render short. If it is not met, a higher limit changes neither
the text nor the issues. If it is met, the issues before it come first with a higher limit as well,
and after it nothing but unresolved paths is recorded. -/
theorem render_maxPasses_le (o : Options) {m m' : UInt64} (h : m ≤ m') (context : Value)
    (template : Text) :
    let short := render { o with maxPasses := m } context template
    let long := render { o with maxPasses := m' } context template
    ((∀ n, .passLimitReached n ∉ short.issues) → long = short) ∧
      ∀ n, .passLimitReached n ∈ short.issues → ∃ before after,
        short.issues = before ++ .passLimitReached m.toNat :: after ∧
          (∀ i ∈ after, ∃ path, i = .unresolvedPath path) ∧ before <+: long.issues := by
  intro short long
  obtain ⟨extra, hextra⟩ := Nat.exists_eq_add_of_le (UInt64.le_iff_toNat_le.1 h)
  have hcut : CutShort m.toNat extra
      (renderWithin { o with maxPasses := m } (.left m.toNat) context template)
      (renderWithin { o with maxPasses := m' } (.left m'.toNat) context template) := by
    rw [hextra]
    exact cutShort_renderWithin { o with maxPasses := m } { o with maxPasses := m' } rfl extra
      m.toNat context template
  cases hcut with
  | whole n hp hq htext hlog hno =>
    refine ⟨fun _ => ?_, fun n hn => absurd (mem_filterMap_issue?_iff.1 hn) (hno n)⟩
    show Rendered.mk _ _ = Rendered.mk _ _
    rw [htext, hlog]
  | cut before after hp hlog hno hpaths hbegin =>
    have hissues : short.issues =
        before.filterMap Event.issue? ++ .passLimitReached m.toNat ::
          after.filterMap Event.issue? := by
      show List.filterMap _ _ = _
      rw [hlog, filterMap_issue?_append_cons]
    refine ⟨fun hnone => absurd (hissues ▸ by simp) (hnone m.toNat), fun n _ => ?_⟩
    refine ⟨_, _, hissues, fun i hi => ?_, hbegin.filterMap _⟩
    obtain ⟨path, hpath⟩ := hpaths _ (mem_filterMap_issue?_iff.1 hi)
    exact ⟨path, Event.issue.inj hpath⟩

/-- Two conditions, the first of them malformed, with a tag between them. -/
def twoConditions : Text :=
  Directive.cond.opener ++ ['a', ' ', '>'] ++ tagEnd ++ ['x'] ++ Directive.cond.closer ++
    (tagStart ++ ['c'] ++ tagEnd) ++
    (Directive.cond.opener ++ ['b'] ++ tagEnd ++ ['y'] ++ Directive.cond.closer)

/-- One pass is too few for two blocks and cuts their render short, before the second of them; with
two the limit does not show. -/
theorem render_twoConditions :
    let second := Directive.cond.opener ++ ['b'] ++ tagEnd ++ ['y'] ++ Directive.cond.closer
    ((1 : UInt64) ≤ 2 ∧ (2 : UInt64) ≤ 3) ∧
      (.passLimitReached 1 ∈ (render { maxPasses := 1 } (.object []) twoConditions).issues ∧
        ∃ before after, (render { maxPasses := 1 } (.object []) twoConditions).issues =
            before ++ .passLimitReached 1 :: after ∧
          (∀ i ∈ after, ∃ path, i = .unresolvedPath path) ∧
          before <+: (render { maxPasses := 2 } (.object []) twoConditions).issues) ∧
      (∀ n, .passLimitReached n ∉
        (render { maxPasses := 2 } (.object []) twoConditions).issues) ∧
      render { maxPasses := 3 } (.object []) twoConditions =
        render { maxPasses := 2 } (.object []) twoConditions ∧
      render { maxPasses := 1 } (.object []) twoConditions =
        ⟨second, [.malformedCondition ['a', ' ', '>'], .passLimitReached 1,
          .unresolvedPath ['c']]⟩ ∧
      render { maxPasses := 2 } (.object []) twoConditions =
        ⟨[], [.malformedCondition ['a', ' ', '>'], .unresolvedPath ['c']]⟩ := by
  intro second
  have hle : (1 : UInt64) ≤ 2 ∧ (2 : UInt64) ≤ 3 := by decide
  have hshort : render { maxPasses := 1 } (.object []) twoConditions =
      ⟨second, [.malformedCondition ['a', ' ', '>'], .passLimitReached 1,
        .unresolvedPath ['c']]⟩ := rfl
  have hlong : render { maxPasses := 2 } (.object []) twoConditions =
      ⟨[], [.malformedCondition ['a', ' ', '>'], .unresolvedPath ['c']]⟩ := rfl
  have hmem : .passLimitReached 1 ∈
      (render { maxPasses := 1 } (.object []) twoConditions).issues := by
    rw [hshort]
    simp
  have hnone : ∀ n, .passLimitReached n ∉
      (render { maxPasses := 2 } (.object []) twoConditions).issues := by
    intro n
    rw [hlong]
    simp
  exact ⟨hle, ⟨hmem, (render_maxPasses_le {} hle.1 (.object []) twoConditions).2 1 hmem⟩,
    hnone, (render_maxPasses_le {} hle.2 (.object []) twoConditions).1 hnone, hshort, hlong⟩

end Stencil
