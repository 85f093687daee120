import Stencil.Proofs.Render.Machine

/-!
# The ledger of a render

In every state of a render the ledger is `Ledger.Sound`: no more blocks are expanded than the limit
allows, and the ledger is exhausted exactly if the issue of the limit is among its issues. It is
there once, after the last expansion, and only unresolved paths follow it.

A ledger is `Open` before the limit is met and `Closed` after it. `Machine.Kept` is the invariant of
a step: the ledger is one or the other, and where a block is to be expanded it is open with an
expansion for which no failure has been recorded. All runs keep it (`Machine.Kept.reaches`).
-/

namespace Stencil

/-! ## Kinds of issues -/

namespace Issue

/-- Whether an issue is that of the limit. -/
def isLimit : Issue → Bool
  | passLimitReached _ => true
  | _ => false

/-- Whether an issue is that of a block whose condition or path was not as it should be. -/
def isFailure : Issue → Bool
  | malformedCondition _ | unresolvedArray _ => true
  | _ => false

/-- Whether an issue is that of a tag whose path leads nowhere. -/
def isPath : Issue → Bool
  | unresolvedPath _ => true
  | _ => false

/-- A path is no limit. -/
theorem isLimit_of_isPath {i : Issue} (h : i.isPath = true) : i.isLimit = false := by
  cases i with
  | unresolvedPath path => rfl
  | _ => cases h

/-- A path is no failure. -/
theorem isFailure_of_isPath {i : Issue} (h : i.isPath = true) : i.isFailure = false := by
  cases i with
  | unresolvedPath path => rfl
  | _ => cases h

/-- Issues among which one limit stands are split at a limit in one way only. -/
theorem after_eq_of_split {before after before' after' : List Issue} {m n : Nat}
    (h : before ++ .passLimitReached m :: after = before' ++ .passLimitReached n :: after')
    (hbefore : ∀ i ∈ before, i.isLimit = false) (hafter : ∀ i ∈ after, i.isLimit = false) :
    n = m ∧ after' = after := by
  -- One of the two beginnings goes on from the other by `t`, and `t` is empty.
  rcases List.append_eq_append_iff.1 h with ⟨t, rfl, ht⟩ | ⟨t, rfl, ht⟩
  · cases t with
    | nil =>
      obtain ⟨hlimit, rfl⟩ := List.cons.inj ht
      exact ⟨(passLimitReached.inj hlimit).symm, rfl⟩
    | cons i t =>
      -- The other limit would stand after the one.
      obtain ⟨-, rfl⟩ := List.cons.inj ht
      cases hafter (.passLimitReached n) (by simp)
  · cases t with
    | nil =>
      obtain ⟨hlimit, rfl⟩ := List.cons.inj ht
      exact ⟨passLimitReached.inj hlimit, rfl⟩
    | cons i t =>
      -- The other limit would stand before the one.
      obtain ⟨rfl, -⟩ := List.cons.inj ht
      cases hbefore (.passLimitReached n) (by simp)

end Issue

/-- The number of issues of blocks. -/
def Ledger.failures (l : Ledger) : Nat := l.issues.countP Issue.isFailure

/-! ## Sound ledgers -/

/-- What holds of the ledger in every state of a render. -/
structure Ledger.Sound (limit : Nat) (l : Ledger) : Prop where
  expansions_le : l.expansions ≤ limit
  /-- The ledger is exhausted once the limit is among the issues. -/
  exhausted_iff : l.exhausted = true ↔ ∃ n, .passLimitReached n ∈ l.issues
  limits_le_one : l.issues.countP Issue.isLimit ≤ 1
  /-- From then on all expansions that the limit allows have been made. -/
  limit_eq : ∀ n, .passLimitReached n ∈ l.issues → n = limit ∧ l.expansions = limit
  failures_le : l.failures ≤ l.expansions
  /-- From then on only paths are recorded. -/
  path_after : ∀ before n after, l.issues = before ++ .passLimitReached n :: after →
    ∀ i ∈ after, ∃ path, i = .unresolvedPath path

namespace Ledger

variable {limit : Nat} {l : Ledger}

/-- No block has been refused. -/
structure Open (limit : Nat) (l : Ledger) : Prop where
  exhausted_eq : l.exhausted = false
  expansions_le : l.expansions ≤ limit
  failures_le : l.failures ≤ l.expansions
  no_limit : ∀ i ∈ l.issues, i.isLimit = false

/-- A block has been refused, and since then only paths have been recorded. -/
structure Closed (limit : Nat) (l : Ledger) : Prop where
  exhausted_eq : l.exhausted = true
  expansions_eq : l.expansions = limit
  failures_le : l.failures ≤ l.expansions
  issues_eq : ∃ before after, l.issues = before ++ .passLimitReached limit :: after ∧
    (∀ i ∈ before, i.isLimit = false) ∧ ∀ i ∈ after, i.isPath = true

/-- An open ledger is sound. -/
theorem Open.sound (h : l.Open limit) : l.Sound limit := by
  have hnone (n : Nat) : .passLimitReached n ∉ l.issues := fun hmem =>
    Bool.false_ne_true (h.no_limit _ hmem).symm
  refine ⟨h.expansions_le, ?_, ?_, ?_, h.failures_le, ?_⟩
  · rw [h.exhausted_eq]
    exact ⟨nofun, fun ⟨n, hn⟩ => absurd hn (hnone n)⟩
  · have hzero : l.issues.countP Issue.isLimit = 0 :=
      List.countP_eq_zero.2 fun i hi => by simp [h.no_limit i hi]
    omega
  · exact fun n hn => absurd hn (hnone n)
  · intro before n after heq
    exact absurd (heq ▸ List.mem_append_right before List.mem_cons_self) (hnone n)

/-- A closed ledger is sound. -/
theorem Closed.sound (h : l.Closed limit) : l.Sound limit := by
  obtain ⟨before, after, heq, hbefore, hafter⟩ := h.issues_eq
  have hnone : ∀ i ∈ after, i.isLimit = false := fun i hi => Issue.isLimit_of_isPath (hafter i hi)
  have hcount {issues : List Issue} (h : ∀ i ∈ issues, i.isLimit = false) :
      issues.countP Issue.isLimit = 0 :=
    List.countP_eq_zero.2 fun i hi => by simp [h i hi]
  refine ⟨Nat.le_of_eq h.expansions_eq, ?_, ?_, ?_, h.failures_le, ?_⟩
  · rw [h.exhausted_eq, heq]
    exact ⟨fun _ => ⟨limit, by simp⟩, fun _ => rfl⟩
  · rw [heq, List.countP_append, List.countP_cons, hcount hbefore, hcount hnone]
    exact Nat.le_refl 1
  · intro n hn
    obtain ⟨before', after', hsplit⟩ := List.append_of_mem hn
    exact ⟨(Issue.after_eq_of_split (heq.symm.trans hsplit) hbefore hnone).1, h.expansions_eq⟩
  · intro before' n after' hsplit i hi
    obtain ⟨-, rfl⟩ := Issue.after_eq_of_split (heq.symm.trans hsplit) hbefore hnone
    cases i with
    | unresolvedPath path => exact ⟨path, rfl⟩
    | _ => cases hafter _ hi

/-! ## What is done to a ledger -/

/-- The failures among the issues that are recorded are added. -/
theorem failures_record (issues : List Issue) (l : Ledger) :
    (l.record issues).failures = l.failures + issues.countP Issue.isFailure := List.countP_append

/-- While a ledger is open an expansion leaves room for a failure, and anything but the limit may
be recorded. -/
theorem Open.record (h : l.Open limit) {issues : List Issue}
    (hlimit : ∀ i ∈ issues, i.isLimit = false)
    (hfailures : l.failures + issues.countP Issue.isFailure ≤ l.expansions) :
    (l.record issues).Open limit := by
  refine ⟨h.exhausted_eq, h.expansions_le, ?_, ?_⟩
  · rw [failures_record]
    exact hfailures
  · intro i hi
    rcases List.mem_append.1 hi with hi | hi
    · exact h.no_limit i hi
    · exact hlimit i hi

/-- Paths are no failures. -/
theorem countP_isFailure_of_isPath {issues : List Issue} (h : ∀ i ∈ issues, i.isPath = true) :
    issues.countP Issue.isFailure = 0 :=
  List.countP_eq_zero.2 fun i hi => by simp [Issue.isFailure_of_isPath (h i hi)]

/-- In a closed ledger paths may be recorded. -/
theorem Closed.record (h : l.Closed limit) {issues : List Issue}
    (hpath : ∀ i ∈ issues, i.isPath = true) : (l.record issues).Closed limit := by
  obtain ⟨before, after, heq, hbefore, hafter⟩ := h.issues_eq
  refine ⟨h.exhausted_eq, h.expansions_eq, ?_, before, after ++ issues, ?_, hbefore, ?_⟩
  · rw [failures_record, countP_isFailure_of_isPath hpath]
    exact h.failures_le
  · simp [Ledger.record, heq]
  · intro i hi
    rcases List.mem_append.1 hi with hi | hi
    · exact hafter i hi
    · exact hpath i hi

/-- A ledger is open or closed. -/
def Kept (limit : Nat) (l : Ledger) : Prop := l.Open limit ∨ l.Closed limit

/-- In both cases it is sound. -/
theorem Kept.sound (h : l.Kept limit) : l.Sound limit := h.elim Open.sound Closed.sound

/-- In both cases paths may be recorded. -/
theorem Kept.record (h : l.Kept limit) {issues : List Issue}
    (hpath : ∀ i ∈ issues, i.isPath = true) : (l.record issues).Kept limit := by
  rcases h with h | h
  · refine .inl (h.record (fun i hi => Issue.isLimit_of_isPath (hpath i hi)) ?_)
    rw [countP_isFailure_of_isPath hpath]
    exact h.failures_le
  · exact .inr (h.record hpath)

/-- Only an open ledger is not exhausted. -/
theorem Kept.open_of_not_exhausted (h : l.Kept limit) (hl : l.exhausted = false) :
    l.Open limit := by
  rcases h with h | h
  · exact h
  · rw [h.exhausted_eq] at hl
    cases hl

/-- The expansion that is granted has no failure yet. -/
structure Granted (limit : Nat) (l : Ledger) : Prop extends l.Open limit where
  failures_lt : l.failures < l.expansions

/-- What is granted is granted by an open ledger, and the ledger is kept in any case. -/
theorem Kept.spend (h : l.Kept limit) :
    (l.spend limit).2.Kept limit ∧
      ((l.spend limit).1 = true → (l.spend limit).2.Granted limit) := by
  rcases h with h | h
  · unfold Ledger.spend
    rw [h.exhausted_eq, if_neg Bool.false_ne_true]
    split
    · next hle =>
      -- The ledger is closed by the issue of the limit, with all expansions spent.
      refine ⟨.inr ⟨rfl, Nat.le_antisymm h.expansions_le hle, ?_, l.issues, [], rfl, h.no_limit,
        nofun⟩, nofun⟩
      show (l.record [.passLimitReached limit]).failures ≤ l.expansions
      rw [failures_record]
      exact h.failures_le
    · next hlt =>
      have hopen : Ledger.Open limit
          { l with expansions := l.expansions + 1, exhausted := false } :=
        ⟨rfl, Nat.lt_of_not_le hlt, Nat.le_succ_of_le h.failures_le, h.no_limit⟩
      exact ⟨.inl hopen, fun _ => ⟨hopen, Nat.lt_succ_of_le h.failures_le⟩⟩
  · unfold Ledger.spend
    rw [if_pos h.exhausted_eq]
    exact ⟨.inr h, nofun⟩

end Ledger

/-! ## Steps and runs -/

/-- The issues of a segment are paths. -/
theorem Segment.isPath_of_mem_render (scope : Value) (s : Segment) :
    ∀ i ∈ (s.render scope).2, i.isPath = true := by
  unfold Segment.render
  split
  · nofun
  · split
    · nofun
    · dsimp only
      split
      · nofun
      · simp [Issue.isPath]

namespace Machine

variable {o : Options} {limit : Nat} {m m' : Machine}

/-- A block is expanded with an expansion that was granted for it. -/
def Ready (limit : Nat) (l : Ledger) : Control → Prop
  | .expand _ _ => l.Granted limit
  | _ => True

/-- What every step of a render keeps: the ledger is open or closed, and ready for what is to be
done next. -/
structure Kept (limit : Nat) (m : Machine) : Prop where
  ledger : m.ledger.Kept limit
  ready : Ready limit m.ledger m.control

/-- Expanding a block records at most one failure, that of its condition or its path. -/
theorem kept_expand {scope : Value} {b : Block} (h : m.ledger.Granted limit) :
    (m.expand o scope b).Kept limit := by
  have hroom {issues : List Issue} (hlimit : ∀ i ∈ issues, i.isLimit = false)
      (hone : issues.length ≤ 1) : (m.ledger.record issues).Kept limit := by
    -- The expansion that was granted makes up for the failure.
    refine .inl (h.toOpen.record hlimit ?_)
    have hcount : issues.countP Issue.isFailure ≤ issues.length := List.countP_le_length
    have hfailures := h.failures_lt
    omega
  unfold expand
  split
  · have hissues : ((m.record (Condition.parse o.detection b.expr).issues).ledger).Kept limit := by
      apply hroom
      · cases Condition.parse o.detection b.expr <;> simp [Condition.issues, Issue.isLimit]
      · cases Condition.parse o.detection b.expr <;> simp [Condition.issues]
    dsimp only
    split
    · exact ⟨hissues, trivial⟩
    · exact ⟨hissues, trivial⟩
  · split
    · exact ⟨.inl h.toOpen, trivial⟩
    · have hissue : (m.ledger.record [.unresolvedArray b.expr]).Kept limit :=
        hroom (by simp [Issue.isLimit]) (Nat.le_refl 1)
      exact ⟨hissue, trivial⟩

/-- Every step keeps the invariant. -/
theorem Kept.step (h : m.Kept o.maxPasses.toNat) (hstep : m.step o = some m') :
    m'.Kept o.maxPasses.toNat := by
  obtain ⟨control, stack, ledger⟩ := m
  obtain ⟨hledger, hready⟩ := h
  cases control with
  | render scope t =>
    simp only [Machine.step] at hstep
    split at hstep
    · cases hstep
      exact ⟨hledger, trivial⟩
    · cases hstep
      exact ⟨hledger, trivial⟩
  | seek d scope t =>
    have hseek (l : Ledger) : Ready o.maxPasses.toNat l (afterSeek scope t d) := by
      cases d <;> trivial
    simp only [Machine.step] at hstep
    split at hstep
    · cases hstep
      exact ⟨hledger, hseek _⟩
    · cases hstep
      obtain ⟨hkept, hgranted⟩ := hledger.spend
      refine ⟨hkept, ?_⟩
      -- Only when the expansion was granted the block is expanded.
      dsimp only
      split
      · next hspend => exact hgranted hspend
      · exact hseek _
  | expand scope b =>
    cases hstep
    exact kept_expand hready
  | items scope b length index out rest =>
    cases rest with
    | nil =>
      cases hstep
      exact ⟨hledger, trivial⟩
    | cons item rest =>
      cases hstep
      exact ⟨hledger, trivial⟩
  | substitute scope t =>
    simp only [Machine.step] at hstep
    split at hstep
    · cases hstep
      exact ⟨hledger, trivial⟩
    · next head d tail _ =>
      cases hstep
      refine ⟨?_, trivial⟩
      show (ledger.record (if ledger.exhausted then [] else
        [.unmatchedBlock d (Text.utf8Length head)])).Kept _
      -- An opener is recorded only while the ledger is open.
      split
      · exact hledger.record (List.forall_mem_nil _)
      · next hexhausted =>
        have hopen := hledger.open_of_not_exhausted (Bool.eq_false_iff.2 hexhausted)
        exact .inl (hopen.record (by simp [Issue.isLimit]) hopen.failures_le)
  | segments scope out rest tail =>
    cases rest with
    | nil =>
      cases hstep
      exact ⟨hledger, trivial⟩
    | cons s rest =>
      cases hstep
      exact ⟨hledger.record (s.isPath_of_mem_render scope), trivial⟩
  | done t =>
    cases stack with
    | nil => cases hstep
    | cons frame stack =>
      cases frame with
      | part scope b =>
        cases hstep
        exact ⟨hledger, trivial⟩
      | item scope b length index out rest =>
        cases hstep
        exact ⟨hledger, trivial⟩

/-- Every run keeps the invariant. -/
theorem Kept.reaches (h : m.Kept o.maxPasses.toNat) (hrun : Reaches o m m') :
    m'.Kept o.maxPasses.toNat := by
  induction hrun with
  | refl => exact h
  | tail _ hstep ih => exact ih.step hstep

/-- The state in which a render begins keeps the invariant. -/
theorem kept_start (context : Value) (template : Text) : (start context template).Kept limit :=
  ⟨.inl ⟨rfl, Nat.zero_le _, Nat.le_refl _, List.forall_mem_nil _⟩, trivial⟩

/-- Of two states that a run comes to, one comes first. -/
theorem reaches_total {first : Machine} (hm : Reaches o first m) (hm' : Reaches o first m') :
    Reaches o m m' ∨ Reaches o m' m :=
  Relation.ReflTransGen.total_of_right_unique
    (fun _ _ _ h h' => Option.some.inj (h.symm.trans h')) hm hm'

/-- From every state of a run the machine comes to the end of the run. -/
theorem reaches_last {first last : Machine} (hlast : Reaches o first last)
    (hend : last.step o = none) (hm : Reaches o first m) : Reaches o m last := by
  rcases reaches_total hm hlast with h | h
  · exact h
  · -- Nothing but itself follows the end.
    rcases h.cases_head with rfl | ⟨m', hstep, -⟩
    · exact .refl
    · rw [hend] at hstep
      cases hstep

end Machine

/-- A render ends, whatever state it has come to, with the text, the issues and the expansions of
`render`, and in every state its ledger is sound. -/
theorem render_steps_sound (o : Options) (context : Value) (template : Text) :
    ∃ last : Machine, last.step o = none ∧
      last.control = .done (render o context template).output ∧
      last.ledger.issues = (render o context template).issues ∧
      last.ledger.expansions =
        (renderWithin o (.left o.maxPasses.toNat) context template).log.count .expanded ∧
      ∀ m, Machine.Reaches o (.start context template) m →
        Machine.Reaches o m last ∧ m.ledger.Sound o.maxPasses.toNat := by
  obtain ⟨last, hlast, hend, houtput, hissues, hexpansions⟩ :=
    Machine.reaches_render o context template
  refine ⟨last, hend, houtput, hissues, hexpansions, fun m hm => ?_⟩
  refine ⟨Machine.reaches_last hlast hend hm, ?_⟩
  exact ((Machine.kept_start context template).reaches hm).ledger.sound

end Stencil
