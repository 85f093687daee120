import Mathlib.Logic.Relation
import Stencil.Render.Budget

/-!
# Renders step by step

A render as a machine: what is to be done next, the renders that wait for a nested one, and a
`Ledger` that is carried through all of them, with the issues, the number of expansions and a mark
that a block was refused. `Machine.step` does one thing at a time, so that all states of a render
can be spoken of.

The machine halts with what `render` says (`reaches_render`): a render within a budget is what the
machine does with a ledger that leaves this budget. The induction is on the passes that are left,
and within an `#each` block on the items.
-/

namespace Stencil

/-! ## Ledgers -/

/-- What is carried through a render, nested renders included. -/
structure Ledger where
  issues : List Issue
  expansions : Nat
  exhausted : Bool

namespace Ledger

/-- The ledger with more issues. -/
def record (issues : List Issue) (l : Ledger) : Ledger := { l with issues := l.issues ++ issues }

/-- Counts one expansion against the limit, and tells whether it was granted. The first block that
is refused is an issue. -/
def spend (limit : Nat) (l : Ledger) : Bool × Ledger :=
  if l.exhausted then (false, l)
  else if limit ≤ l.expansions then
    (false, { l.record [.passLimitReached limit] with exhausted := true })
  else (true, { l with expansions := l.expansions + 1 })

/-- What a ledger leaves of the limit. -/
def budget (limit : Nat) (l : Ledger) : Budget :=
  if l.exhausted then .exhausted else .left (limit - l.expansions)

end Ledger

/-! ## The machine -/

/-- What is to be done next. -/
inductive Control where
  /-- A text is to be rendered. -/
  | render (scope : Value) (t : Text)
  /-- A block of a kind is to be found and expanded. -/
  | seek (d : Directive) (scope : Value) (t : Text)
  /-- A block is to be expanded; the expansion has been counted. -/
  | expand (scope : Value) (b : Block)
  /-- The body of a block is to be rendered for the items that are left, after `out`. -/
  | items (scope : Value) (b : Block) (length index : Nat) (out : Text) (rest : List Value)
  /-- No block is to be expanded: the tags are to be substituted. -/
  | substitute (scope : Value) (t : Text)
  /-- The segments that are left are to be rendered, after `out` and before `tail`. -/
  | segments (scope : Value) (out : Text) (rest : List Segment) (tail : Text)
  /-- A render has come to a text. -/
  | done (t : Text)

/-- What waits for a nested render. -/
inductive Frame where
  /-- The chosen part of a block is being rendered. -/
  | part (scope : Value) (b : Block)
  /-- The body of a block is being rendered for an item. -/
  | item (scope : Value) (b : Block) (length index : Nat) (out : Text) (rest : List Value)

/-- A state of a render. -/
structure Machine where
  control : Control
  stack : List Frame
  ledger : Ledger

namespace Machine

/-- The state with something else to do. -/
def goto (control : Control) (m : Machine) : Machine := { m with control := control }

/-- The state with more issues. -/
def record (issues : List Issue) (m : Machine) : Machine :=
  { m with ledger := m.ledger.record issues }

/-- The state that renders a nested text while `frame` waits. -/
def enter (frame : Frame) (scope : Value) (t : Text) (m : Machine) : Machine :=
  { m with control := .render scope t, stack := frame :: m.stack }

/-- What follows when no block of a kind is expanded. -/
def afterSeek (scope : Value) (t : Text) : Directive → Control
  | .cond => .seek .each scope t
  | .each => .substitute scope t

/-- Renders what a block stands for. -/
def expand (o : Options) (scope : Value) (b : Block) (m : Machine) : Machine :=
  match b.directive with
  | .cond =>
    let condition := Condition.parse o.detection b.expr
    let m := m.record condition.issues
    match if condition.eval scope then some b.body else b.elseBody with
    | some part => m.enter (.part scope b) scope part
    | none => m.goto (.render scope (b.replaceWith []))
  | .each =>
    match scope.resolveArray? b.expr with
    | some items => m.goto (.items scope b items.length 0 [] items)
    | none => (m.record [.unresolvedArray b.expr]).goto (.render scope (b.replaceWith []))

/-- The state after one step; a render that has come to a text and that nothing waits for is at its
end. -/
def step (o : Options) (m : Machine) : Option Machine :=
  match m.control with
  | .render scope t =>
    if m.ledger.exhausted then some (m.goto (.substitute scope t))
    else some (m.goto (.seek .cond scope t))
  | .seek d scope t =>
    match findBlock? d t with
    | none => some (m.goto (afterSeek scope t d))
    | some b =>
      let (granted, ledger) := m.ledger.spend o.maxPasses.toNat
      let control := if granted then .expand scope b else afterSeek scope t d
      some { m with control := control, ledger := ledger }
  | .expand scope b => some (m.expand o scope b)
  | .items scope b _ _ out [] => some (m.goto (.render scope (b.replaceWith out)))
  | .items scope b length index out (item :: rest) =>
    some (m.enter (.item scope b length index out rest) (itemScope item index length) b.body)
  | .substitute scope t =>
    match splitOpener? t with
    | none => some (m.goto (.segments scope [] (Segment.ofText t) []))
    | some (head, d, tail) =>
      let unmatched :=
        if m.ledger.exhausted then [] else [.unmatchedBlock d (Text.utf8Length head)]
      some ((m.record unmatched).goto (.segments scope [] (Segment.ofText head) tail))
  | .segments _ out [] tail => some (m.goto (.done (out ++ tail)))
  | .segments scope out (s :: rest) tail =>
    let (text, issues) := s.render scope
    some ((m.record issues).goto (.segments scope (out ++ text) rest tail))
  | .done t =>
    match m.stack with
    | [] => none
    | .part scope b :: stack =>
      some { m with control := .render scope (b.replaceWith t), stack := stack }
    | .item scope b length index out rest :: stack =>
      some { m with control := .items scope b length (index + 1) (out ++ t) rest, stack := stack }

/-- The state in which a render of a template begins. -/
def start (context : Value) (template : Text) : Machine :=
  ⟨.render context template, [], ⟨[], 0, false⟩⟩

/-- A state comes from another in some steps. -/
def Reaches (o : Options) : Machine → Machine → Prop :=
  Relation.ReflTransGen fun m m' => m.step o = some m'

end Machine

/-! ## What a render adds to a ledger -/

/-- One ledger comes from another by what is in a log, and leaves a budget. -/
structure Ledger.Adds (limit : Nat) (l : Ledger) (log : List Event) (budget : Budget)
    (l' : Ledger) : Prop where
  issues : l'.issues = l.issues ++ log.filterMap Event.issue?
  expansions : l'.expansions = l.expansions + log.count .expanded
  budget : l'.budget limit = budget

namespace Ledger

variable {limit : Nat} {l l' l'' : Ledger} {log log' : List Event} {budget budget' : Budget}

/-- A ledger to which nothing is added. -/
theorem adds_nil (h : l.budget limit = budget) : l.Adds limit [] budget l :=
  ⟨(List.append_nil _).symm, rfl, h⟩

/-- Issues are recorded at no cost. -/
theorem adds_record (issues : List Issue) (h : l.budget limit = budget) :
    l.Adds limit (issues.map .issue) budget (l.record issues) := by
  refine ⟨?_, ?_, h⟩
  · rw [filterMap_issue?_map]
    rfl
  · rw [count_expanded_map]
    rfl

/-- What is added one after the other. -/
theorem Adds.trans (h : l.Adds limit log budget l') (h' : l'.Adds limit log' budget' l'') :
    l.Adds limit (log ++ log') budget' l'' := by
  constructor
  · rw [h'.issues, h.issues, List.filterMap_append, List.append_assoc]
  · rw [h'.expansions, h.expansions, List.count_append, Nat.add_assoc]
  · exact h'.budget

/-- What is left of the limit is what was not spent. -/
theorem budget_eq_left_iff {n : Nat} :
    l.budget limit = .left n ↔ l.exhausted = false ∧ limit - l.expansions = n := by
  unfold Ledger.budget
  cases l.exhausted <;> simp

/-- Nothing is left when the ledger is exhausted. -/
theorem budget_eq_exhausted_iff : l.budget limit = .exhausted ↔ l.exhausted = true := by
  unfold Ledger.budget
  cases l.exhausted <;> simp

/-- A ledger that is exhausted grants nothing. -/
theorem spend_of_exhausted (h : l.budget limit = .exhausted) : l.spend limit = (false, l) :=
  if_pos (budget_eq_exhausted_iff.1 h)

/-- When no passes are left the first block that is refused is recorded. -/
theorem spend_of_left_zero (h : l.budget limit = .left 0) :
    (l.spend limit).1 = false ∧
      l.Adds limit [.issue (.passLimitReached limit)] .exhausted (l.spend limit).2 := by
  obtain ⟨hopen, hspent⟩ := budget_eq_left_iff.1 h
  have hspend : l.spend limit =
      (false, { l.record [.passLimitReached limit] with exhausted := true }) := by
    unfold spend
    rw [hopen, if_neg Bool.false_ne_true, if_pos (Nat.le_of_sub_eq_zero hspent)]
  rw [hspend]
  exact ⟨rfl, rfl, rfl, rfl⟩

/-- A pass that is left is granted. -/
theorem spend_of_left_succ {n : Nat} (h : l.budget limit = .left (n + 1)) :
    (l.spend limit).1 = true ∧ l.Adds limit [.expanded] (.left n) (l.spend limit).2 := by
  obtain ⟨hopen, hleft⟩ := budget_eq_left_iff.1 h
  have hspend : l.spend limit = (true, { l with expansions := l.expansions + 1 }) := by
    unfold spend
    rw [hopen, if_neg Bool.false_ne_true, if_neg (by omega)]
  rw [hspend]
  refine ⟨rfl, (List.append_nil _).symm, rfl, ?_⟩
  exact budget_eq_left_iff.2 ⟨hopen, by dsimp only; omega⟩

end Ledger

/-! ## Runs of the machine -/

namespace Machine

variable {o : Options} {l : Ledger} {log log' : List Event} {budget budget' : Budget}
  {control control' control'' : Control}

/-- From doing one thing the machine comes to doing another, whatever waits. It adds a log to its
ledger and leaves a budget. -/
def Comes (o : Options) (l : Ledger) (control : Control) (log : List Event) (budget : Budget)
    (control' : Control) : Prop :=
  ∀ stack, ∃ l', l.Adds o.maxPasses.toNat log budget l' ∧
    Reaches o ⟨control, stack, l⟩ ⟨control', stack, l'⟩

/-- What the machine does one after the other. -/
theorem Comes.trans (h : Comes o l control log budget control')
    (h' : ∀ l', l'.budget o.maxPasses.toNat = budget →
      Comes o l' control' log' budget' control'') :
    Comes o l control (log ++ log') budget' control'' := by
  intro stack
  obtain ⟨l', hadds, hrun⟩ := h stack
  obtain ⟨l'', hadds', hrun'⟩ := h' l' hadds.budget stack
  exact ⟨l'', hadds.trans hadds', hrun.trans hrun'⟩

/-- One step of the machine. -/
theorem comes_of_step {l' : Ledger} (hadds : l.Adds o.maxPasses.toNat log budget l')
    (h : ∀ stack, step o ⟨control, stack, l⟩ = some ⟨control', stack, l'⟩) :
    Comes o l control log budget control' :=
  fun stack => ⟨l', hadds, .single (h stack)⟩

/-- Segments are rendered one after another. -/
theorem comes_segments (h : l.budget o.maxPasses.toNat = budget) (scope : Value) (out tail : Text)
    (segments : List Segment) :
    Comes o l (.segments scope out segments tail)
      (((segments.map (Segment.render scope)).flatMap Prod.snd).map .issue) budget
      (.done (out ++ (segments.map (Segment.render scope)).flatMap Prod.fst ++ tail)) := by
  induction segments generalizing out l with
  | nil =>
    refine comes_of_step (Ledger.adds_nil h) fun stack => ?_
    simp [step, goto]
  | cons s rest ih =>
    have hfirst : Comes o l (.segments scope out (s :: rest) tail)
        ((s.render scope).2.map .issue) budget
        (.segments scope (out ++ (s.render scope).1) rest tail) :=
      comes_of_step (Ledger.adds_record _ h) fun stack => rfl
    have hall := hfirst.trans fun l' hl' => ih hl' (out ++ (s.render scope).1)
    rw [← List.map_append] at hall
    simpa using hall

/-- The tags of a text are rendered, and what follows it is kept. -/
theorem comes_renderTags (h : l.budget o.maxPasses.toNat = budget) (scope : Value)
    (t tail : Text) :
    Comes o l (.segments scope [] (Segment.ofText t) tail)
      ((renderTags scope t).2.map .issue) budget (.done ((renderTags scope t).1 ++ tail)) :=
  comes_segments h scope [] tail (Segment.ofText t)

/-- A text without blocks to expand is substituted. -/
theorem comes_substitute (h : l.budget o.maxPasses.toNat = budget) (scope : Value) (t : Text) :
    Comes o l (.substitute scope t) (substitutePass budget scope t).log budget
      (.done (substitutePass budget scope t).text) := by
  unfold substitutePass substitute
  cases hsplit : splitOpener? t with
  | none =>
    have hstep : Comes o l (.substitute scope t) [] budget
        (.segments scope [] (Segment.ofText t) []) :=
      comes_of_step (Ledger.adds_nil h) fun stack => by simp [step, hsplit, goto]
    have hall := hstep.trans fun l' hl' => comes_renderTags hl' scope t []
    rwa [List.append_nil] at hall
  | some parts =>
    obtain ⟨head, d, tail⟩ := parts
    -- The opener is reported by both exactly while the ledger is not exhausted.
    have hreporting : (if l.exhausted then [] else [.unmatchedBlock d (Text.utf8Length head)]) =
        (if decide (budget ≠ .exhausted) then [Issue.unmatchedBlock d (Text.utf8Length head)]
          else []) := by
      have hiff : budget = .exhausted ↔ l.exhausted = true := by
        rw [← h]
        exact Ledger.budget_eq_exhausted_iff
      cases hl : l.exhausted <;> simp [hiff, hl]
    have hstep : Comes o l (.substitute scope t)
        ((if decide (budget ≠ .exhausted) then [Issue.unmatchedBlock d (Text.utf8Length head)]
          else []).map .issue) budget (.segments scope [] (Segment.ofText head) tail) :=
      comes_of_step (Ledger.adds_record _ h) fun stack => by
        simp [step, hsplit, goto, record, hreporting]
    have hall := hstep.trans fun l' hl' => comes_renderTags hl' scope head tail
    rwa [← List.map_append] at hall

/-- When no block of a kind is expanded in a ledger that is exhausted, the text is substituted. -/
theorem comes_seek_exhausted (h : l.budget o.maxPasses.toNat = .exhausted) (d : Directive)
    (scope : Value) (t : Text) :
    Comes o l (.seek d scope t) [] .exhausted (afterSeek scope t d) :=
  comes_of_step (Ledger.adds_nil h) fun stack => by
    cases hb : findBlock? d t with
    | none => simp [step, hb, goto]
    | some b => simp [step, hb, Ledger.spend_of_exhausted h]

/-- A kind without blocks is passed over. -/
theorem comes_seek_none (h : l.budget o.maxPasses.toNat = budget) {d : Directive} {t : Text}
    (hb : findBlock? d t = none) (scope : Value) :
    Comes o l (.seek d scope t) [] budget (afterSeek scope t d) :=
  comes_of_step (Ledger.adds_nil h) fun stack => by simp [step, hb, goto]

/-- A block is refused when no passes are left. -/
theorem comes_seek_refused (h : l.budget o.maxPasses.toNat = .left 0) {d : Directive} {t : Text}
    {b : Block} (hb : findBlock? d t = some b) (scope : Value) :
    Comes o l (.seek d scope t) [.issue (.passLimitReached o.maxPasses.toNat)] .exhausted
      (afterSeek scope t d) := by
  obtain ⟨hrefused, hadds⟩ := Ledger.spend_of_left_zero h
  exact comes_of_step hadds fun stack => by simp [step, hb, hrefused]

/-- A block is expanded when a pass is left. -/
theorem comes_seek_granted {n : Nat} (h : l.budget o.maxPasses.toNat = .left (n + 1))
    {d : Directive} {t : Text} {b : Block} (hb : findBlock? d t = some b) (scope : Value) :
    Comes o l (.seek d scope t) [.expanded] (.left n) (.expand scope b) := by
  obtain ⟨hgranted, hadds⟩ := Ledger.spend_of_left_succ h
  exact comes_of_step hadds fun stack => by simp [step, hb, hgranted]

/-- A nested render returns to what waits for it. -/
theorem comes_of_nested {l₁ : Ledger} (frame : Frame) {scope : Value} {t out : Text}
    (hadds : l.Adds o.maxPasses.toNat log budget l₁)
    (hcall : ∀ stack, step o ⟨control, stack, l⟩ = some ⟨.render scope t, frame :: stack, l₁⟩)
    (h : Comes o l₁ (.render scope t) log' budget' (.done out))
    (hreturn : ∀ stack l', step o ⟨.done out, frame :: stack, l'⟩ = some ⟨control', stack, l'⟩) :
    Comes o l control (log ++ log') budget' control' := by
  intro stack
  obtain ⟨l', hadds', hrun⟩ := h (frame :: stack)
  -- The call is the first step, and the return is the last.
  exact ⟨l', hadds.trans hadds', .head (hcall stack) (hrun.tail (hreturn stack l'))⟩

/-! ## Blocks -/

section Blocks

variable {n : Nat}
  (hrender : ∀ {l : Ledger} {budget : Budget}, l.budget o.maxPasses.toNat = budget →
    budget.passes ≤ n → ∀ scope t,
    Comes o l (.render scope t) (renderWithin o budget scope t).log
      (renderWithin o budget scope t).budget (.done (renderWithin o budget scope t).text))
include hrender

/-- The body of a block is rendered for one item after another. -/
theorem comes_items (h : l.budget o.maxPasses.toNat = budget) (hn : budget.passes ≤ n)
    (scope : Value) (b : Block) (length index : Nat) (out : Text) (items : List Value) :
    Comes o l (.items scope b length index out items)
      (renderItems (renderWithin o) length b.body index budget items).log
      (renderItems (renderWithin o) length b.body index budget items).budget
      (.render scope (b.replaceWith
        (out ++ (renderItems (renderWithin o) length b.body index budget items).text))) := by
  induction items generalizing l budget index out with
  | nil =>
    refine comes_of_step (Ledger.adds_nil h) fun stack => ?_
    simp [step, goto, renderItems]
  | cons item rest ih =>
    have hfirst := comes_of_nested (.item scope b length index out rest) (Ledger.adds_nil h)
      (fun stack => (rfl : step o ⟨.items scope b length index out (item :: rest), stack, l⟩ = _))
      (hrender h hn (itemScope item index length) b.body) (fun stack l' => rfl)
    -- The other items have what the first leaves of the budget.
    have hleft := Nat.le_trans (passes_renderWithin_le (o := o) budget
      (itemScope item index length) b.body) hn
    have hall := hfirst.trans fun l' hl' => ih hl' hleft (index + 1) _
    simpa [renderItems, List.append_assoc] using hall

/-- A block is replaced by what it stands for. -/
theorem comes_expand (h : l.budget o.maxPasses.toNat = budget) (hn : budget.passes ≤ n)
    (scope : Value) (b : Block) :
    Comes o l (.expand scope b)
      (expandBlock o.detection (renderWithin o) budget scope b).log
      (expandBlock o.detection (renderWithin o) budget scope b).budget
      (.render scope (b.replaceWith
        (expandBlock o.detection (renderWithin o) budget scope b).text)) := by
  unfold expandBlock
  split
  · next hd =>
    have hissues := Ledger.adds_record (Condition.parse o.detection b.expr).issues h
    dsimp only
    split
    · next part hpart =>
      exact comes_of_nested (.part scope b) hissues
        (fun stack => by simp [step, expand, hd, record, hpart, enter])
        (hrender hissues.budget hn scope part) fun stack l' => rfl
    · next hpart =>
      exact comes_of_step hissues fun stack => by simp [step, expand, hd, record, hpart, goto]
  · next hd =>
    split
    · next items hitems =>
      have hstep : Comes o l (.expand scope b) [] budget
          (.items scope b items.length 0 [] items) :=
        comes_of_step (Ledger.adds_nil h) fun stack => by simp [step, expand, hd, hitems, goto]
      exact hstep.trans fun l' hl' => comes_items hrender hl' hn scope b items.length 0 [] items
    · next hitems =>
      exact comes_of_step (Ledger.adds_record [.unresolvedArray b.expr] h) fun stack => by
        simp [step, expand, hd, hitems, goto, record]

end Blocks

/-! ## Renders -/

/-- When the ledger is exhausted no block is sought. -/
theorem comes_loop_exhausted (h : l.budget o.maxPasses.toNat = .exhausted) (scope : Value)
    (t : Text) : Comes o l (.render scope t) [] .exhausted (.substitute scope t) :=
  comes_of_step (Ledger.adds_nil h) fun stack => by
    simp [step, goto, Ledger.budget_eq_exhausted_iff.1 h]

/-- While passes are left a render begins by seeking an `@if` block. -/
theorem comes_seek {n : Nat} (h : l.budget o.maxPasses.toNat = .left n) (scope : Value)
    (t : Text) : Comes o l (.render scope t) [] (.left n) (.seek .cond scope t) :=
  comes_of_step (Ledger.adds_nil h) fun stack => by
    simp [step, goto, (Ledger.budget_eq_left_iff.1 h).1]

/-- In a text without blocks to expand none is found. -/
theorem comes_loop_of_none {n : Nat} (h : l.budget o.maxPasses.toNat = .left n) {t : Text}
    (hnext : nextBlock? t = none) (scope : Value) :
    Comes o l (.render scope t) [] (.left n) (.substitute scope t) := by
  obtain ⟨hcond, heach⟩ := Option.or_eq_none_iff.1 hnext
  exact (comes_seek h scope t).trans fun l₁ h₁ =>
    (comes_seek_none h₁ hcond scope).trans fun l₂ h₂ => comes_seek_none h₂ heach scope

/-- A block to expand is an `@if` block, or an `#each` block where there is no `@if`. -/
theorem nextBlock?_eq_some {t : Text} {b : Block} (h : nextBlock? t = some b) :
    findBlock? .cond t = some b ∨ findBlock? .cond t = none ∧ findBlock? .each t = some b :=
  Option.or_eq_some_iff.1 h

/-- When no passes are left a block is refused. -/
theorem comes_loop_refused (h : l.budget o.maxPasses.toNat = .left 0) {t : Text} {b : Block}
    (hnext : nextBlock? t = some b) (scope : Value) :
    Comes o l (.render scope t) [.issue (.passLimitReached o.maxPasses.toNat)] .exhausted
      (.substitute scope t) := by
  refine (comes_seek h scope t).trans fun l₁ h₁ => ?_
  rcases nextBlock?_eq_some hnext with hcond | ⟨hcond, heach⟩
  · -- The other kind is sought as well, but a ledger that is exhausted refuses nothing twice.
    exact (comes_seek_refused h₁ hcond scope).trans fun l₂ h₂ =>
      comes_seek_exhausted h₂ .each scope t
  · exact (comes_seek_none h₁ hcond scope).trans fun l₂ h₂ => comes_seek_refused h₂ heach scope

/-- While passes are left a block is expanded. -/
theorem comes_expand_of_some {n : Nat} (h : l.budget o.maxPasses.toNat = .left (n + 1)) {t : Text}
    {b : Block} (hnext : nextBlock? t = some b) (scope : Value) :
    Comes o l (.render scope t) [.expanded] (.left n) (.expand scope b) := by
  refine (comes_seek h scope t).trans fun l₁ h₁ => ?_
  rcases nextBlock?_eq_some hnext with hcond | ⟨hcond, heach⟩
  · exact comes_seek_granted h₁ hcond scope
  · exact (comes_seek_none h₁ hcond scope).trans fun l₂ h₂ => comes_seek_granted h₂ heach scope

/-- The machine renders a text as `renderWithin` does with the budget that its ledger leaves. -/
theorem comes_render (h : l.budget o.maxPasses.toNat = budget) (scope : Value) (t : Text) :
    Comes o l (.render scope t) (renderWithin o budget scope t).log
      (renderWithin o budget scope t).budget (.done (renderWithin o budget scope t).text) := by
  induction budget, scope, t using renderWithin_induction generalizing l with
  | exhausted scope t =>
    exact (comes_loop_exhausted h scope t).trans fun l' hl' => comes_substitute hl' scope t
  | none n scope t hnext =>
    rw [renderWithin_of_nextBlock?_eq_none hnext]
    exact (comes_loop_of_none h hnext scope).trans fun l' hl' => comes_substitute hl' scope t
  | refused scope t b hnext =>
    rw [renderWithin_left_zero hnext]
    exact (comes_loop_refused h hnext scope).trans fun l' hl' => comes_substitute hl' scope t
  | block n scope t b hnext ih =>
    -- The parts of the block and the text that it leaves have fewer passes.
    have hexpand := (comes_expand_of_some h hnext scope).trans fun l₁ h₁ =>
      comes_expand (fun h hb scope t => ih _ hb scope t h) h₁ (Nat.le_refl _) scope b
    rw [renderWithin_left_succ hnext]
    exact hexpand.trans fun l₂ h₂ =>
      ih _ (passes_expandBlock_renderWithin_le n scope b) scope _ h₂

/-- A render comes to its end with the text and the issues of `render`, and with the expansions that
are logged. -/
theorem reaches_render (o : Options) (context : Value) (template : Text) :
    ∃ m, Reaches o (start context template) m ∧ m.step o = none ∧
      m.control = .done (render o context template).output ∧
      m.ledger.issues = (render o context template).issues ∧
      m.ledger.expansions =
        (renderWithin o (.left o.maxPasses.toNat) context template).log.count .expanded := by
  obtain ⟨l', hadds, hrun⟩ := comes_render (o := o) (l := ⟨[], 0, false⟩) rfl context template []
  exact ⟨_, hrun, rfl, rfl, hadds.issues, hadds.expansions.trans (Nat.zero_add _)⟩

end Machine

end Stencil
