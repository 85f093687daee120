import Stencil.Proofs.Tree.Line
import Stencil.Render.Budget

/-!
# Rendering a printed tree

`Leads` says that a render of one text comes, at the cost of an `Outcome` and with its issues, to a
render of another text in the same scope; `Yields` says that it ends. Both compose along the steps
of `Tree.denote`. The renderer itself is opened where a line is filled in (`yields_fillTags`) and
where a block is expanded (`leads_of_expandBlock`, with `leads_cond` and `leads_each`).

A tree is settled with any text around it in which no `@if` is opened before it (`Tree.leads`): the
scan finds its conditions one after another, and what has been put in their places is never read as
a directive. A settled tree is unrolled behind a line (`Settled.leads`). The induction is on the
tree, and for a part of a block it gives what the part is rendered to.
-/

namespace Stencil

variable {α β : Type} {o : Options} {scope : Value}

/-! ## Steps of a render -/

/-- A pass with more events before it. -/
def Pass.after (log : List Event) (p : Pass) : Pass := { p with log := log ++ p.log }

/-- A render of `t` comes to a render of what `u` makes of the result, at the cost of the outcome
and with its issues. -/
def Leads (o : Options) (scope : Value) (t : Text) (x : Outcome α) (u : α → Text) : Prop :=
  ∀ n, ∃ log, log.filterMap Event.issue? = x.issues ∧
    renderWithin o (.left (x.cost + n)) scope t =
      (renderWithin o (.left n) scope (u x.value)).after log

/-- A render of `t` ends with the result, at the cost of the outcome and with its issues. -/
def Yields (o : Options) (scope : Value) (t : Text) (x : Outcome Text) : Prop :=
  ∀ n, ∃ log, log.filterMap Event.issue? = x.issues ∧
    renderWithin o (.left (x.cost + n)) scope t = ⟨x.value, log, .left n⟩

/-- Where nothing is done a render is where it was. -/
theorem Leads.pure (v : α) (u : α → Text) : Leads o scope (u v) (pure v) u := by
  intro n
  refine ⟨[], rfl, ?_⟩
  rw [Outcome.cost_pure, Nat.zero_add]
  rfl

/-- Steps follow one another. -/
theorem Leads.bind {t : Text} {x : Outcome α} {f : α → Outcome β} {u : α → Text} {w : β → Text}
    (hx : Leads o scope t x u) (hf : Leads o scope (u x.value) (f x.value) w) :
    Leads o scope t (x >>= f) w := by
  intro n
  obtain ⟨log, hlog, hrun⟩ := hx ((f x.value).cost + n)
  obtain ⟨log', hlog', hrun'⟩ := hf n
  refine ⟨log ++ log', ?_, ?_⟩
  · rw [List.filterMap_append, hlog, hlog', Outcome.issues_bind]
  · rw [Outcome.cost_bind, Nat.add_assoc]
    calc renderWithin o (.left (x.cost + ((f x.value).cost + n))) scope t
        = (renderWithin o (.left ((f x.value).cost + n)) scope (u x.value)).after log := hrun
      _ = ((renderWithin o (.left n) scope (w (f x.value).value)).after log').after log := by
          rw [hrun']
      _ = (renderWithin o (.left n) scope (w (x >>= f).value)).after (log ++ log') := by
          simp [Pass.after]

/-- A last step ends a render. -/
theorem Leads.yields {t : Text} {x : Outcome α} {f : α → Outcome Text} {u : α → Text}
    (hx : Leads o scope t x u) (hf : Yields o scope (u x.value) (f x.value)) :
    Yields o scope t (x >>= f) := by
  intro n
  obtain ⟨log, hlog, hrun⟩ := hx ((f x.value).cost + n)
  obtain ⟨log', hlog', hrun'⟩ := hf n
  refine ⟨log ++ log', ?_, ?_⟩
  · rw [List.filterMap_append, hlog, hlog', Outcome.issues_bind]
  · rw [Outcome.cost_bind, Nat.add_assoc]
    calc renderWithin o (.left (x.cost + ((f x.value).cost + n))) scope t
        = (renderWithin o (.left ((f x.value).cost + n)) scope (u x.value)).after log := hrun
      _ = (⟨(f x.value).value, log', .left n⟩ : Pass).after log := by rw [hrun']
      _ = ⟨(x >>= f).value, log ++ log', .left n⟩ := rfl

/-- What becomes of a result by the way changes nothing in the text. -/
theorem Leads.map {t : Text} {x : Outcome α} {f : α → β} {u : α → Text} {w : β → Text}
    (hx : Leads o scope t x u) (hw : ∀ v, u v = w (f v)) :
    Leads o scope t (x >>= fun v => Pure.pure (f v)) w := by
  refine hx.bind ?_
  rw [hw]
  exact Leads.pure _ _

/-- Filling in tags expands no block. -/
theorem cost_fillTags (scope : Value) (line : List Segment) : (fillTags scope line).cost = 0 := by
  induction line with
  | nil => rfl
  | cons s line ih =>
    cases s with
    | literal c => simp [fillTags, ih]
    | tag inner =>
      have hfill : (fillTag scope inner).cost = 0 := by
        simp only [fillTag]
        split <;> rfl
      simp [fillTags, ih, hfill]

/-- A line is filled in. -/
theorem yields_fillTags {line : List Segment} (hl : ∀ s ∈ line, s.WellFormed) :
    Yields o scope (lineSource line) (fillTags scope line) := by
  intro n
  refine ⟨(fillTags scope line).issues.map .issue, filterMap_issue?_map _, ?_⟩
  have hnone : nextBlock? (lineSource line) = none :=
    nextBlock?_eq_none fun d => (ignores_lineSource hl d).no_opener
  have hcost : (fillTags scope line).cost = 0 := cost_fillTags scope line
  rw [renderWithin_of_nextBlock?_eq_none hnone, hcost, Nat.zero_add]
  unfold substitutePass
  rw [substitute_lineSource hl]

/-! ## Blocks -/

/-- A block is replaced by what it is expanded to, which costs one expansion and those of its
parts. -/
theorem leads_of_expandBlock {t : Text} {b : Block} {x : Outcome Text} (cost : Nat)
    (hb : nextBlock? t = some b) (hcost : x.cost = cost + 1)
    (h : ∀ n, ∃ log, log.filterMap Event.issue? = x.issues ∧
      expandBlock o.detection (renderWithin o) (.left (cost + n)) scope b =
        ⟨x.value, log, .left n⟩) :
    Leads o scope t x b.replaceWith := by
  intro n
  obtain ⟨log, hlog, hrun⟩ := h n
  refine ⟨.expanded :: log, ?_, ?_⟩
  · rw [List.filterMap_cons_none rfl, hlog]
  · have hleft : x.cost + n = cost + n + 1 := by omega
    rw [hleft, renderWithin_left_succ hb, hrun]
    rfl

/-- An `@if` block is replaced by what its chosen part is rendered to. -/
theorem leads_cond {t : Text} {b : Block} {body elseBody : Outcome Text}
    (hb : nextBlock? t = some b) (hd : b.directive = .cond) (hbody : Yields o scope b.body body)
    (helse : ∀ e, b.elseBody = some e → Yields o scope e elseBody)
    (hnone : b.elseBody = none → elseBody = pure []) :
    Leads o scope t (decideCondition o.detection scope b.inner >>= fun holds =>
      if holds then body else elseBody) b.replaceWith := by
  -- The condition is decided and reported once, whichever part is chosen.
  have hcond : decideCondition o.detection scope b.inner =
      ⟨(Condition.parse o.detection b.expr).eval scope,
        (Condition.parse o.detection b.expr).issues, 1⟩ := by
    unfold decideCondition Block.expr
    cases Condition.parse o.detection (Text.trim b.inner) <;> rfl
  have hlog (log : List Event) (condition : Condition) :
      (condition.issues.map Event.issue ++ log).filterMap Event.issue? =
        condition.issues ++ log.filterMap Event.issue? := by
    rw [List.filterMap_append, filterMap_issue?_map]
  rw [hcond]
  cases heval : (Condition.parse o.detection b.expr).eval scope with
  | true =>
    refine leads_of_expandBlock body.cost hb (Nat.add_comm _ _) fun n => ?_
    obtain ⟨log, hissues, hrun⟩ := hbody n
    refine ⟨_, (hlog log _).trans (by rw [hissues]; rfl), ?_⟩
    simp only [expandBlock, hd, heval, if_true, hrun]
    rfl
  | false =>
    refine leads_of_expandBlock elseBody.cost hb (Nat.add_comm _ _) fun n => ?_
    cases he : b.elseBody with
    | some e =>
      obtain ⟨log, hissues, hrun⟩ := helse e he n
      refine ⟨_, (hlog log _).trans (by rw [hissues]; rfl), ?_⟩
      simp only [expandBlock, hd, heval, Bool.false_eq_true, if_false, he, hrun]
      rfl
    | none =>
      obtain rfl := hnone he
      refine ⟨(Condition.parse o.detection b.expr).issues.map .issue, ?_, ?_⟩
      · rw [filterMap_issue?_map]
        exact (List.append_nil _).symm
      · simp only [expandBlock, hd, heval, Bool.false_eq_true, if_false, he, Outcome.cost_pure,
          Nat.zero_add]
        rfl

/-- The bodies of a loop are rendered one after another. -/
theorem renderItems_eq {t : Text} {body : Value → Outcome Text} {length : Nat}
    {items : List Value} (index : Nat)
    (h : ∀ item ∈ items, ∀ index,
      Yields o (itemScope item index length) t (body (itemScope item index length))) (n : Nat) :
    ∃ log, log.filterMap Event.issue? = (overItems body length index items).issues ∧
      renderItems (renderWithin o) length t index
          (.left ((overItems body length index items).cost + n)) items =
        ⟨(overItems body length index items).value, log, .left n⟩ := by
  induction items generalizing index with
  | nil =>
    refine ⟨[], rfl, ?_⟩
    simp [overItems, renderItems]
  | cons item rest ih =>
    obtain ⟨hitem, hrest⟩ := List.forall_mem_cons.1 h
    -- The first item is rendered with the passes for all of them at hand.
    obtain ⟨log', hlog', hrun'⟩ := ih (index + 1) hrest
    obtain ⟨log, hlog, hrun⟩ := hitem index ((overItems body length (index + 1) rest).cost + n)
    refine ⟨log ++ log', ?_, ?_⟩
    · simp [overItems, hlog, hlog']
    · simp [overItems, renderItems, Nat.add_assoc, hrun, hrun']

/-- An `#each` block is replaced by what its body is rendered to for every item. -/
theorem leads_each {t : Text} {b : Block} {body : Value → Outcome Text}
    (hb : nextBlock? t = some b) (hd : b.directive = .each)
    (hbody : ∀ items, scope.resolveArray? b.expr = some items → ∀ item ∈ items, ∀ index,
      Yields o (itemScope item index items.length) b.body
        (body (itemScope item index items.length))) :
    Leads o scope t (runLoop scope b.inner body) b.replaceWith := by
  have hexpr : Text.trim b.inner = b.expr := rfl
  simp only [runLoop, hexpr]
  cases hitems : scope.resolveArray? b.expr with
  | none =>
    refine leads_of_expandBlock 0 hb rfl fun n => ⟨[.issue (.unresolvedArray b.expr)],
      rfl, ?_⟩
    simp only [expandBlock, hd, hitems, Nat.zero_add]
  | some items =>
    refine leads_of_expandBlock (overItems body items.length 0 items).cost hb
      (Nat.add_comm _ _) fun n => ?_
    obtain ⟨log, hlog, hrun⟩ := renderItems_eq 0 (hbody items hitems) n
    refine ⟨log, hlog, ?_⟩
    simp only [expandBlock, hd, hitems, hrun]
    rfl

/-! ## Settled trees -/

/-- A settled tree opens no `@if` block. -/
theorem Settled.ignores {f : Settled} (hf : f.toTree.WellFormed) :
    Directive.cond.Ignores f.toTree.source := by
  induction f with
  | nil => exact Directive.ignores_nil _
  | text t rest ih => exact (Directive.cond.ignores_of_notMem hf.1).append (ih hf.2)
  | tag inner rest ih => exact (hf.1.ignores _).append (ih hf.2)
  | each path body rest ihb ihr =>
    obtain ⟨⟨⟨hbrace, -⟩, -⟩, hb, hr⟩ := hf
    exact (ignores_wrap (by decide) hbrace (ihb hb)).append (ihr hr)

/-- What has been unrolled is part of the line behind which the rest is unrolled. -/
theorem Leads.behind {t : Text} {line more : List Segment} {rest : Settled}
    (ht : t = lineSource (line ++ more) ++ rest.toTree.source)
    (h : Leads o scope (lineSource (line ++ more) ++ rest.toTree.source) (rest.unroll scope)
      fun out => lineSource (line ++ more ++ out)) :
    Leads o scope t (rest.unroll scope >>= fun out => Pure.pure (more ++ out))
      fun out => lineSource (line ++ out) := by
  rw [ht]
  exact h.map fun out => by rw [List.append_assoc]

/-- Behind a line a settled tree is unrolled. -/
theorem Settled.leads {f : Settled} (hf : f.toTree.WellFormed) (hv : scope.Lacks '{')
    (line : List Segment) (hl : ∀ s ∈ line, s.WellFormed) :
    Leads o scope (lineSource line ++ f.toTree.source) (f.unroll scope)
      fun more => lineSource (line ++ more) := by
  induction f generalizing scope line with
  | nil =>
    have hsource : lineSource line ++ Settled.nil.toTree.source = lineSource (line ++ []) := by
      simp [toTree, Tree.source]
    rw [hsource]
    exact Leads.pure [] fun more => lineSource (line ++ more)
  | text t rest ih =>
    have hl' : ∀ s ∈ line ++ t.map .literal, s.WellFormed :=
      List.forall_mem_append.2 ⟨hl, wellFormed_of_mem_map_literal hf.1⟩
    exact (ih hf.2 hv _ hl').behind (by simp [toTree, Tree.source])
  | tag inner rest ih =>
    have hl' : ∀ s ∈ line ++ [.tag inner], s.WellFormed :=
      List.forall_mem_append.2 ⟨hl, List.forall_mem_singleton.2 hf.1⟩
    exact (ih hf.2 hv _ hl').behind (by simp [toTree, Tree.source, Segment.source])
  | each path body rest ihb ihr =>
    have hignored := (ignores_lineSource hl .cond).append (Settled.ignores hf)
    obtain ⟨hpath, hb, hr⟩ := hf
    have hfirst := firstIn_wrap (ignores_lineSource hl .each).no_opener (isInner_each hpath)
      (body.toTree.isParts hb .each) rest.toTree.source
    rw [List.append_assoc] at hfirst
    have hnext := nextBlock?_of_firstIn_each (findBlock?_eq_none hignored.no_opener) hfirst
    -- The body is rendered by itself, in the scope of an item instead of this one.
    have hbody (s : Value) (hs : s.Lacks '{') :
        Yields o s body.toTree.source (body.unroll s >>= fillTags s) :=
      (ihb hb hs [] (List.forall_mem_nil _)).yields (yields_fillTags (body.wellFormed_unroll hb hs))
    refine Leads.bind (leads_each hnext rfl fun items hitems item hmem index =>
      hbody _ ((hv.resolveArray? hitems item hmem).itemScope index items.length)) ?_
    -- What the loop stands for is part of the line from now on.
    generalize hout : (runLoop scope path fun s => body.unroll s >>= fillTags s).value = out
    have hmem : '{' ∉ out := hout ▸ notMem_runLoop hv fun s hs =>
      notMem_fillTags hs (body.wellFormed_unroll hb hs)
    have hl' : ∀ s ∈ line ++ out.map .literal, s.WellFormed :=
      List.forall_mem_append.2 ⟨hl, wellFormed_of_mem_map_literal hmem⟩
    exact (ihr hr hv _ hl').behind (by simp [Block.replaceWith])

/-- A settled tree is rendered to what it stands for. -/
theorem Settled.yields {f : Settled} (hf : f.toTree.WellFormed) (hv : scope.Lacks '{') :
    Yields o scope f.toTree.source (f.denote scope) :=
  (Settled.leads hf hv [] (List.forall_mem_nil _)).yields
    (yields_fillTags (f.wellFormed_unroll hf hv))

/-! ## Trees -/

/-- A tree that is settled with nothing around it is rendered to what it stands for. -/
theorem Tree.yields_of_leads {t : Tree} (ht : t.WellFormed) (hv : scope.Lacks '{')
    (h : Leads o scope ([] ++ t.source ++ []) (t.settle o.detection scope)
      fun f => [] ++ f.toTree.source ++ []) :
    Yields o scope t.source (t.denote o.detection scope) := by
  simp only [List.nil_append, List.append_nil] at h
  exact h.yields (Settled.yields (Tree.wellFormed_settle ht _ hv) hv)

/-- Where no `@if` is opened before it, a block is replaced by what its chosen part stands for, and
the rest of the tree is settled. -/
theorem leads_cond_rest {before after expr content body : Text} {elseBody : Option Text}
    {rest : Tree} {x y : Outcome Text} (hb : Directive.cond.Ignores before)
    (hexpr : expr.IsBraceFree ∧ '\n' ∉ expr) (hparts : IsParts .cond content body elseBody)
    (hx : Yields o scope body x) (hy : ∀ e, elseBody = some e → Yields o scope e y)
    (hnone : elseBody = none → y = Pure.pure []) (hmem : '{' ∉ x.value ∧ '{' ∉ y.value)
    (hrest : ∀ before, Directive.cond.Ignores before →
      Leads o scope (before ++ rest.source ++ after) (rest.settle o.detection scope)
        fun f => before ++ f.toTree.source ++ after) :
    Leads o scope (before ++ (Directive.cond.wrap expr content ++ rest.source) ++ after)
      (do
        let holds ← decideCondition o.detection scope expr
        let out ← (if holds then x else y)
        let f ← rest.settle o.detection scope
        return Settled.text out f)
      fun f => before ++ f.toTree.source ++ after := by
  have hfirst := firstIn_wrap hb.no_opener (isInner_cond hexpr.1.2 hexpr.2) hparts
    (rest.source ++ after)
  have hblock := leads_cond (nextBlock?_of_firstIn_cond hfirst) rfl hx hy hnone
  have hsource : before ++ (Directive.cond.wrap expr content ++ rest.source) ++ after =
      before ++ Directive.cond.wrap expr content ++ (rest.source ++ after) := by
    simp
  rw [hsource, ← Outcome.bind_assoc]
  refine hblock.bind ?_
  -- What has been put in the place of the block opens no `@if`.
  generalize hout : (decideCondition o.detection scope expr >>= fun holds =>
    if holds then x else y).value = out
  have hbrace : '{' ∉ out := by
    rw [← hout, Outcome.value_bind]
    split
    · exact hmem.1
    · exact hmem.2
  have hleads := hrest (before ++ out) (hb.append (Directive.cond.ignores_of_notMem hbrace))
  rw [List.append_assoc (before ++ out)] at hleads
  exact hleads.map fun f => by simp [Tree.source, Settled.toTree]

/-- Where no `@if` is opened before it a tree is settled, whatever follows it. -/
theorem Tree.leads {t : Tree} (ht : t.WellFormed) (hv : scope.Lacks '{') {before : Text}
    (hb : Directive.cond.Ignores before) (after : Text) :
    Leads o scope (before ++ t.source ++ after) (t.settle o.detection scope)
      fun f => before ++ f.toTree.source ++ after := by
  induction t generalizing before after with
  | nil => exact Leads.pure Settled.nil fun f => before ++ f.toTree.source ++ after
  | text t rest ih =>
    have hb' := hb.append (Directive.cond.ignores_of_notMem ht.1)
    have hsource : before ++ (text t rest).source ++ after =
        before ++ t ++ rest.source ++ after := by
      simp [source]
    rw [hsource]
    exact (ih ht.2 hb' after).map fun f => by simp [source, Settled.toTree]
  | tag inner rest ih =>
    have hb' := hb.append (ht.1.ignores .cond)
    have hsource : before ++ (tag inner rest).source ++ after =
        before ++ (tagStart ++ inner ++ tagEnd) ++ rest.source ++ after := by
      simp [source]
    rw [hsource]
    exact (ih ht.2 hb' after).map fun f => by simp [source, Settled.toTree]
  | cond expr body rest ihb ihr =>
    obtain ⟨hexpr, hbody, hrest⟩ := ht
    have hyields := Tree.yields_of_leads hbody hv (ihb hbody (Directive.ignores_nil _) [])
    have hmem : '{' ∉ ([] : Text) := List.not_mem_nil
    apply leads_cond_rest hb hexpr (body.isParts hbody .cond) hyields
    · exact fun e he => absurd he (Option.some_ne_none e).symm
    · exact fun _ => rfl
    · exact ⟨Tree.notMem_denote hbody _ hv, hmem⟩
    · exact fun before hb => ihr hrest hb after
  | condElse expr body elseBody rest ihb ihe ihr =>
    obtain ⟨hexpr, hbody, helse, hrest⟩ := ht
    have hyields := Tree.yields_of_leads hbody hv (ihb hbody (Directive.ignores_nil _) [])
    have hyields' := Tree.yields_of_leads helse hv (ihe helse (Directive.ignores_nil _) [])
    apply leads_cond_rest hb hexpr (Tree.isParts_else hbody helse) hyields
    · exact fun e he => Option.some.inj he ▸ hyields'
    · exact fun hnone => absurd hnone (Option.some_ne_none _)
    · exact ⟨Tree.notMem_denote hbody _ hv, Tree.notMem_denote helse _ hv⟩
    · exact fun before hb => ihr hrest hb after
  | each path body rest ihb ihr =>
    obtain ⟨hpath, hbody, hrest⟩ := ht
    -- The loop is plain text while its body is settled within it.
    have hopen := hb.append (ignores_opener_tag (by decide : Directive.cond ≠ .each) hpath.1.1)
    have hblock := ihb hbody hopen (Directive.each.closer ++ (rest.source ++ after))
    have hsource : before ++ (each path body rest).source ++ after =
        before ++ (Directive.each.opener ++ path ++ tagEnd) ++ body.source ++
          (Directive.each.closer ++ (rest.source ++ after)) := by
      simp [source, Directive.wrap]
    rw [hsource]
    refine hblock.bind ?_
    -- The body is settled, so no `@if` is opened before the rest.
    have hsettled := Tree.wellFormed_settle hbody o.detection hv
    generalize (body.settle o.detection scope).value = f at hsettled ⊢
    have hclosed := hb.append (ignores_wrap (by decide : Directive.cond ≠ .each) hpath.1.1
      (Settled.ignores hsettled))
    have hsource' : before ++ (Directive.each.opener ++ path ++ tagEnd) ++ f.toTree.source ++
          (Directive.each.closer ++ (rest.source ++ after)) =
        before ++ Directive.each.wrap path f.toTree.source ++ rest.source ++ after := by
      simp [Directive.wrap]
    rw [hsource']
    exact (ihr hrest hclosed after).map fun g => by simp [source, Settled.toTree]

/-- A printed tree is rendered to what the tree stands for, with its issues and at its cost.

The context may hold no brace that opens, since what is written for it is scanned again: a value
could bring a block of its own. And the passes must be enough for the tree. -/
theorem render_source (o : Options) {context : Value} {t : Tree} (ht : t.WellFormed)
    (hv : context.Lacks '{')
    (hcost : (t.denote o.detection context).cost ≤ o.maxPasses.toNat) :
    render o context t.source =
        ⟨(t.denote o.detection context).value, (t.denote o.detection context).issues⟩ ∧
      (renderWithin o (.left o.maxPasses.toNat) context t.source).budget =
        .left (o.maxPasses.toNat - (t.denote o.detection context).cost) := by
  have hyields : Yields o context t.source (t.denote o.detection context) :=
    Tree.yields_of_leads ht hv (Tree.leads ht hv (Directive.ignores_nil _) [])
  obtain ⟨log, hlog, hrun⟩ :=
    hyields (o.maxPasses.toNat - (t.denote o.detection context).cost)
  rw [Nat.add_sub_cancel' hcost] at hrun
  constructor
  · unfold render
    rw [hrun, ← hlog]
  · rw [hrun]

/-- A context with a name and a list of items with names. -/
def namedItems : Value :=
  .object [(['n'], .text ['x']), (['l'], .array
    [.object [(['n'], .text ['a'])], .object [(['n'], .text ['b'])]])]

/-- A loop that writes a name within an `@if` and then again. -/
def namesTwice : Tree :=
  .each ['l'] (.cond ['n'] (.tag ['n'] .nil) (.tag ['n'] (.text [';'] .nil))) .nil

/-- In the body of a loop an `@if` sees the enclosing context: the name within it is that of the
whole, the one after it that of the item. -/
theorem render_namesTwice :
    render {} namedItems namesTwice.source = ⟨['x', 'a', ';', 'x', 'b', ';'], []⟩ ∧
      (renderWithin {} (.left 10000) namedItems namesTwice.source).budget = .left 9998 := by
  have hbrace (c : Char) (hc : c ∉ ['{', '}']) : Text.IsBraceFree [c] := by
    simpa [Text.IsBraceFree, eq_comm] using hc
  have hn : IsVariable ['n'] := ⟨nofun, hbrace _ (by decide), by decide, by decide, by decide,
    by decide, by decide⟩
  have ht : namesTwice.WellFormed := by
    have hpath : Text.trim ['l'] ≠ [] := by decide
    simp [namesTwice, Tree.WellFormed, hbrace, hn, hpath]
  have hv : namedItems.Lacks '{' := by
    simp [namedItems, Value.Lacks, Value.EntriesLack, Value.ItemsLack]
  have hdenote : namesTwice.denote .legacy namedItems =
      ⟨['x', 'a', ';', 'x', 'b', ';'], [], 2⟩ := by
    rfl
  have hrender := render_source {} ht hv (by rw [hdenote]; decide)
  rwa [hdenote] at hrender

end Stencil
