import Stencil.Proofs.Render.Expansions
import Stencil.Proofs.Tree.Render

/-!
# How many passes a tree needs

A render of a printed tree is cut short exactly if it has less passes than the tree costs
(`exists_passLimitReached_iff`). A condition costs one pass and those of the part that it chooses. A
loop costs one, and for every item those of the loops in its body; the conditions in its body are
decided once, before it runs. So a bound for the passes needs a bound for the items (`Tree.passes`),
unless no loop stands in another. Then, or if no array has more than one item, the openers of the
template are a bound. Texts in which blocks come about only by the expansion of others may need more
passes than they have openers (`splicedOpener_exceeds_openers`).
-/

namespace Stencil

variable {o : Options} {detection : Detection} {scope : Value} {w : Nat}

/-! ## Too few passes -/

/-- A render is cut short exactly if its limit is less than it costs. -/
theorem exists_passLimitReached_iff {context : Value} {t : Text} {x : Outcome Text}
    (h : Yields o context t x) :
    (∃ n, .passLimitReached n ∈ (render o context t).issues) ↔ o.maxPasses.toNat < x.cost := by
  obtain ⟨log, -, hrun⟩ := h 0
  have hleft : (renderWithin o (.left (x.cost + 0)) context t).budget ≠ .exhausted := by
    rw [hrun]
    nofun
  -- The render leaves none of the passes that it costs, so it expands as many blocks.
  have hspent : _ + _ = x.cost + 0 := spends_renderWithin o (.left (x.cost + 0)) context t
  rw [passLimitReached_mem_render_iff rfl hleft, hrun]
  rw [hrun] at hspent
  exact iff_of_eq (congrArg _ hspent)

/-! ## Loops -/

namespace Tree

/-- The most passes that the loops of a tree take, outside its conditions, if no array has more than
`w` items. -/
def loopPasses (w : Nat) : Tree → Nat
  | nil => 0
  | text _ rest => rest.loopPasses w
  | tag _ rest => rest.loopPasses w
  | cond _ _ rest => rest.loopPasses w
  | condElse _ _ _ rest => rest.loopPasses w
  | each _ body rest => 1 + w * body.loopPasses w + rest.loopPasses w

/-- There is no loop in a tree, outside its conditions. -/
def LoopFree : Tree → Prop
  | nil => True
  | text _ rest => rest.LoopFree
  | tag _ rest => rest.LoopFree
  | cond _ _ rest => rest.LoopFree
  | condElse _ _ _ rest => rest.LoopFree
  | each _ _ _ => False

/-- There is no loop in the body of a loop, outside the conditions in it. -/
def Flat : Tree → Prop
  | nil => True
  | text _ rest => rest.Flat
  | tag _ rest => rest.Flat
  | cond _ body rest => body.Flat ∧ rest.Flat
  | condElse _ body elseBody rest => body.Flat ∧ elseBody.Flat ∧ rest.Flat
  | each _ body rest => (body.LoopFree ∧ body.Flat) ∧ rest.Flat

/-- Without loops there are no passes of loops. -/
theorem LoopFree.loopPasses_eq {t : Tree} (h : t.LoopFree) (w : Nat) : t.loopPasses w = 0 := by
  induction t with
  | nil => rfl
  | text t rest ih => exact ih h
  | tag inner rest ih => exact ih h
  | cond expr body rest _ ih => exact ih h
  | condElse expr body elseBody rest _ _ ih => exact ih h
  | each path body rest _ _ => exact h.elim

end Tree

/-- The bodies of all items cost no more than as often the most that one of them costs. -/
theorem cost_overItems_le {body : Value → Outcome Text} {length k : Nat} {items : List Value}
    (h : ∀ item ∈ items, ∀ index, (body (itemScope item index length)).cost ≤ k) (index : Nat) :
    (overItems body length index items).cost ≤ items.length * k := by
  induction items generalizing index with
  | nil => exact Nat.zero_le _
  | cons item rest ih =>
    obtain ⟨hitem, hrest⟩ := List.forall_mem_cons.1 h
    have hfirst := hitem index
    have hothers := ih hrest (index + 1)
    rw [List.length_cons, Nat.succ_mul]
    simp only [overItems, Outcome.cost_bind, Outcome.cost_pure]
    omega

/-- A loop costs one pass and those of its items. If they cost nothing, their number does not
matter. -/
theorem cost_runLoop_le {path : Text} {body : Value → Outcome Text} {k : Nat}
    (h : ∀ items, scope.resolveArray? (Text.trim path) = some items →
      (k = 0 ∨ items.length ≤ w) ∧
        ∀ item ∈ items, ∀ index, (body (itemScope item index items.length)).cost ≤ k) :
    (runLoop scope path body).cost ≤ 1 + w * k := by
  unfold runLoop
  dsimp only
  split
  · next items hitems =>
    obtain ⟨hlength, hcost⟩ := h items hitems
    have hitems := cost_overItems_le hcost 0
    have hmul : items.length * k ≤ w * k := by
      rcases hlength with rfl | hlength
      · exact Nat.le_refl _
      · exact Nat.mul_le_mul_right k hlength
    simp only [Outcome.cost_bind]
    omega
  · exact Nat.le_add_right 1 _

/-- Unrolling costs no more than the passes of the loops. -/
theorem Settled.cost_unroll_le {f : Settled} (h : f.toTree.Flat ∨ scope.Narrow w) :
    (f.unroll scope).cost ≤ f.toTree.loopPasses w := by
  induction f generalizing scope with
  | nil => exact Nat.le_refl 0
  | text t rest ih => exact ih h
  | tag inner rest ih => exact ih h
  | each path body rest ihb ihr =>
    have hrest := ihr (h.imp_left fun hflat => hflat.2)
    have hloop : (runLoop scope path fun s => body.unroll s >>= fillTags s).cost ≤
        1 + w * body.toTree.loopPasses w := by
      refine cost_runLoop_le fun items hitems => ⟨?_, fun item hmem index => ?_⟩
      · rcases h with hflat | hnarrow
        · exact .inl (hflat.1.1.loopPasses_eq w)
        · exact .inr (hnarrow.length_le hitems)
      · rw [Outcome.cost_bind, cost_fillTags]
        exact ihb (h.imp (fun hflat => hflat.1.2) fun hnarrow =>
          hnarrow.itemScope hitems hmem index)
    simp only [unroll, Outcome.cost_bind, Outcome.cost_pure, toTree, Tree.loopPasses]
    omega

/-! ## Conditions -/

namespace Tree

/-- The most passes that deciding the conditions of a tree takes, if no array has more than `w`
items. Those in the body of a loop are decided once. -/
def condPasses (w : Nat) : Tree → Nat
  | nil => 0
  | text _ rest => rest.condPasses w
  | tag _ rest => rest.condPasses w
  | cond _ body rest => 1 + (body.condPasses w + body.loopPasses w) + rest.condPasses w
  | condElse _ body elseBody rest =>
    1 + max (body.condPasses w + body.loopPasses w)
      (elseBody.condPasses w + elseBody.loopPasses w) + rest.condPasses w
  | each _ body rest => body.condPasses w + rest.condPasses w

/-- The most passes that a render of a tree takes, if no array has more than `w` items. -/
def passes (w : Nat) (t : Tree) : Nat := t.condPasses w + t.loopPasses w

/-- Deciding the conditions of a tree leaves its loops. -/
theorem loopPasses_settle (t : Tree) :
    (t.settle detection scope).value.toTree.loopPasses w = t.loopPasses w := by
  induction t with
  | nil => rfl
  | text t rest ih => exact ih
  | tag inner rest ih => exact ih
  | cond expr body rest _ ih => exact ih
  | condElse expr body elseBody rest _ _ ih => exact ih
  | each path body rest ihb ihr =>
    simp only [settle, Outcome.value_bind, Outcome.value_pure, Settled.toTree, loopPasses, ihb, ihr]

/-- Deciding its conditions brings no loop into a tree. -/
theorem LoopFree.settle {t : Tree} (h : t.LoopFree) :
    (t.settle detection scope).value.toTree.LoopFree := by
  induction t with
  | nil => trivial
  | text t rest ih => exact ih h
  | tag inner rest ih => exact ih h
  | cond expr body rest _ ih => exact ih h
  | condElse expr body elseBody rest _ _ ih => exact ih h
  | each path body rest _ _ => exact h.elim

/-- Nor into the bodies of its loops. -/
theorem Flat.settle {t : Tree} (h : t.Flat) : (t.settle detection scope).value.toTree.Flat := by
  induction t with
  | nil => trivial
  | text t rest ih => exact ih h
  | tag inner rest ih => exact ih h
  | cond expr body rest _ ih => exact ih h.2
  | condElse expr body elseBody rest _ _ ih => exact ih h.2.2
  | each path body rest ihb ihr => exact ⟨⟨h.1.1.settle, ihb h.1.2⟩, ihr h.2⟩

/-- A tree costs no more than its passes if its conditions cost no more than theirs. -/
theorem cost_denote_le_of_settle {t : Tree} (h : t.Flat ∨ scope.Narrow w)
    (hsettle : (t.settle detection scope).cost ≤ t.condPasses w) :
    (t.denote detection scope).cost ≤ t.passes w := by
  have hloops := Settled.cost_unroll_le (f := (t.settle detection scope).value)
    (h.imp_left Flat.settle)
  rw [loopPasses_settle] at hloops
  rw [denote, Outcome.cost_bind, Settled.denote, Outcome.cost_bind, cost_fillTags]
  exact Nat.add_le_add hsettle hloops

/-- A condition costs one pass. -/
theorem cost_decideCondition (detection : Detection) (scope : Value) (expr : Text) :
    (decideCondition detection scope expr).cost = 1 := by
  unfold decideCondition
  dsimp only
  split <;> rfl

/-- Deciding the conditions of a tree costs no more than the passes for them. -/
theorem cost_settle_le {t : Tree} (h : t.Flat ∨ scope.Narrow w) :
    (t.settle detection scope).cost ≤ t.condPasses w := by
  induction t with
  | nil => exact Nat.le_refl 0
  | text t rest ih => exact ih h
  | tag inner rest ih => exact ih h
  | cond expr body rest ihb ihr =>
    have hb : body.Flat ∨ scope.Narrow w := h.imp_left fun hflat => hflat.1
    have hbody := cost_denote_le_of_settle hb (ihb hb)
    have hrest := ihr (h.imp_left fun hflat => hflat.2)
    simp only [settle, Outcome.cost_bind, Outcome.cost_pure, cost_decideCondition, condPasses]
    unfold denote passes at hbody
    split
    · omega
    · rw [Outcome.cost_pure]
      omega
  | condElse expr body elseBody rest ihb ihe ihr =>
    have hb : body.Flat ∨ scope.Narrow w := h.imp_left fun hflat => hflat.1
    have he : elseBody.Flat ∨ scope.Narrow w := h.imp_left fun hflat => hflat.2.1
    have hbody := cost_denote_le_of_settle hb (ihb hb)
    have helse := cost_denote_le_of_settle he (ihe he)
    have hrest := ihr (h.imp_left fun hflat => hflat.2.2)
    simp only [settle, Outcome.cost_bind, Outcome.cost_pure, cost_decideCondition, condPasses]
    unfold denote passes at hbody helse
    split
    · omega
    · omega
  | each path body rest ihb ihr =>
    have hbody := ihb (h.imp_left fun hflat => hflat.1.2)
    have hrest := ihr (h.imp_left fun hflat => hflat.2)
    simp only [settle, Outcome.cost_bind, Outcome.cost_pure, condPasses]
    omega

end Tree

/-! ## Openers -/

/-- The number of openers in a text. -/
def openerCount (t : Text) : Nat :=
  (marks .cond t).count .opens + (marks .each t).count .opens

/-- Text that both kinds ignore has no openers, and adds none. -/
theorem openerCount_append_of_ignores {p : Text} (hp : ∀ d : Directive, d.Ignores p) (s : Text) :
    openerCount (p ++ s) = openerCount s := by
  unfold openerCount
  rw [(hp .cond).marks_append, (hp .each).marks_append]

/-- A block has its own opener and those of its content. -/
theorem openerCount_wrap_append (d : Directive) {inner : Text} (hi : '{' ∉ inner)
    (content s : Text) :
    openerCount (d.wrap inner content ++ s) = 1 + openerCount content + openerCount s := by
  unfold openerCount
  cases d with
  | cond =>
    rw [marks_wrap_append hi, marks_other_wrap_append (by decide) hi]
    simp only [List.cons_append, List.count_append, List.count_cons_self]
    rw [List.count_cons_of_ne (by decide)]
    omega
  | each =>
    rw [marks_wrap_append hi, marks_other_wrap_append (by decide) hi]
    simp only [List.cons_append, List.count_append, List.count_cons_self]
    rw [List.count_cons_of_ne (by decide)]
    omega

/-- The parts of an `@if` block have their own openers each. -/
theorem openerCount_append_else (a b : Text) :
    openerCount (a ++ elseTag ++ b) = openerCount a + openerCount b := by
  unfold openerCount
  rw [marks_append_else, marks_each_append_else, List.count_append, List.count_append,
    List.count_cons_of_ne (by decide)]
  omega

/-- If no array has more than one item a tree takes a pass for each opener at most. -/
theorem Tree.passes_one_le_openerCount {t : Tree} (ht : t.WellFormed) :
    t.passes 1 ≤ openerCount t.source := by
  induction t with
  | nil => exact Nat.zero_le _
  | text t rest ih =>
    rw [source, openerCount_append_of_ignores fun d => d.ignores_of_notMem ht.1]
    exact ih ht.2
  | tag inner rest ih =>
    rw [source, openerCount_append_of_ignores fun d => ht.1.ignores d]
    exact ih ht.2
  | cond expr body rest ihb ihr =>
    obtain ⟨⟨⟨hbrace, -⟩, -⟩, hb, hr⟩ := ht
    have hbody := ihb hb
    have hrest := ihr hr
    rw [source, openerCount_wrap_append .cond hbrace]
    simp only [passes, condPasses, loopPasses] at hbody hrest ⊢
    omega
  | condElse expr body elseBody rest ihb ihe ihr =>
    obtain ⟨⟨⟨hbrace, -⟩, -⟩, hb, he, hr⟩ := ht
    have hbody := ihb hb
    have helse := ihe he
    have hrest := ihr hr
    rw [source, openerCount_wrap_append .cond hbrace, openerCount_append_else]
    simp only [passes, condPasses, loopPasses] at hbody helse hrest ⊢
    omega
  | each path body rest ihb ihr =>
    obtain ⟨⟨⟨hbrace, -⟩, -⟩, hb, hr⟩ := ht
    have hbody := ihb hb
    have hrest := ihr hr
    rw [source, openerCount_wrap_append .each hbrace]
    simp only [passes, condPasses, loopPasses, Nat.one_mul] at hbody hrest ⊢
    omega

/-! ## The limit of a render -/

/-- When the render of a printed tree is cut short: exactly if its limit is less than the tree
costs. The tree costs no more than its passes for the arrays that its loops run over, and no more
than one for each opener if no loop stands in another or no array has more than one item.

The blocks of a tree are all there from the beginning. In other texts the expansion of a block may
put an opener together (`splicedOpener`), or copy one that has no closer yet with the body of a
loop, and their openers are no bound even then. What any text needs is the number of blocks that are
expanded in it (`passLimitReached_mem_render_iff`), for which there is a bound by its braces
(`passLimitReached_mem_render_iff_of_narrow`). -/
theorem passLimitReached_mem_render_source_iff (o : Options) {context : Value} {t : Tree}
    (ht : t.WellFormed) (hv : context.Lacks '{') :
    let cost := (t.denote o.detection context).cost
    ((∃ n, .passLimitReached n ∈ (render o context t.source).issues) ↔
        o.maxPasses.toNat < cost) ∧
      (∀ w, t.Flat ∨ context.Narrow w → cost ≤ t.passes w) ∧
      (t.Flat ∨ context.Narrow 1 → cost ≤ openerCount t.source) := by
  intro cost
  have hcost (w : Nat) (h : t.Flat ∨ context.Narrow w) : cost ≤ t.passes w :=
    Tree.cost_denote_le_of_settle h (Tree.cost_settle_le h)
  refine ⟨?_, hcost, fun h => Nat.le_trans (hcost 1 h) (Tree.passes_one_le_openerCount ht)⟩
  exact exists_passLimitReached_iff
    (Tree.yields_of_leads ht hv (Tree.leads ht hv (Directive.ignores_nil _) []))

/-- A loop in a loop. -/
def nestedLoops : Tree := .each ['l'] (.each ['m'] .nil .nil) .nil

/-- A list of two items with an empty list each. -/
def emptyLists : Value :=
  .object [(['l'], .array [.object [(['m'], .array [])], .object [(['m'], .array [])]])]

/-- The loop in the loop is run twice, so two passes are not enough for its two openers. -/
theorem nestedLoops_exceed_openers :
    (emptyLists.Lacks '{' ∧ emptyLists.Lacks '}') ∧
      openerCount nestedLoops.source ≤ ({ maxPasses := 2 } : Options).maxPasses.toNat ∧
      .passLimitReached 2 ∈ (render { maxPasses := 2 } emptyLists nestedLoops.source).issues := by
  refine ⟨⟨?_, ?_⟩, by decide, by decide⟩
  · simp [emptyLists, Value.Lacks, Value.EntriesLack, Value.ItemsLack]
  · simp [emptyLists, Value.Lacks, Value.EntriesLack, Value.ItemsLack]

/-- Three passes are enough for them. -/
theorem nestedLoops_three_passes :
    (nestedLoops.WellFormed ∧ emptyLists.Lacks '{') ∧
      ¬ ∃ n, .passLimitReached n ∈
        (render { maxPasses := 3 } emptyLists nestedLoops.source).issues := by
  have ht : nestedLoops.WellFormed := by
    have hl : Text.IsBraceFree ['l'] := by simp [Text.IsBraceFree]
    have hm : Text.IsBraceFree ['m'] := by simp [Text.IsBraceFree]
    have hpath : Text.trim ['l'] ≠ [] ∧ Text.trim ['m'] ≠ [] := by decide
    simp [nestedLoops, Tree.WellFormed, hl, hm, hpath]
  have hv : emptyLists.Lacks '{' := by
    simp [emptyLists, Value.Lacks, Value.EntriesLack, Value.ItemsLack]
  have hcost : (nestedLoops.denote .legacy emptyLists).cost = 3 := by
    rfl
  refine ⟨⟨ht, hv⟩, fun h => ?_⟩
  have hlt := (passLimitReached_mem_render_source_iff { maxPasses := 3 } ht hv).1.1 h
  rw [hcost] at hlt
  exact absurd hlt (by decide)

/-- A condition whose body goes on where an opener is broken off. -/
def splicedOpener : Text :=
  ['{', '{', '@', 'i'] ++ Directive.cond.wrap ['x'] ['f', ' ', 'x', '}', '}'] ++ ['A'] ++
    Directive.cond.closer

/-- The opener that is put together is expanded like any other, so one pass is not enough for a text
with one opener, without any loop. Two are what its braces allow. -/
theorem splicedOpener_exceeds_openers :
    let context : Value := .object [(['x'], .bool true)]
    (context.Lacks '{' ∧ context.Narrow 1) ∧
      (openerCount splicedOpener = 1 ∧ braces splicedOpener = 4 * 2) ∧
      .passLimitReached 1 ∈ (render { maxPasses := 1 } context splicedOpener).issues ∧
      (render { maxPasses := 2 } context splicedOpener).issues = [] := by
  intro context
  have hv : context.Lacks '{' := by
    simp [context, Value.Lacks, Value.EntriesLack]
  have hn : context.Addressable 1 :=
    Value.addressable_object (List.forall_mem_singleton.2
      (Value.addressable_of_not_isContainer Bool.false_ne_true))
  exact ⟨⟨hv, hn.narrow⟩, by decide⟩

end Stencil
