import Stencil.Proofs.Render.Leftover
import Stencil.Proofs.Value.Root
import Stencil.Proofs.Value.Scope

/-!
# How many blocks a render expands

Every pass that a render spends is spent on a block that it expands (`spends_renderWithin`). So a
render that is not cut short tells how many passes its template needs in the context: with a lower
limit it is cut short, and with no other (`passLimitReached_mem_render_iff`). This holds of every
text, also of one in which the expansion of a block puts an opener together or copies one.

An expansion takes the braces of an opener and of a closer out of the text. Where no value holds a
brace and no loop runs over more than one item, nothing puts braces in (`saves_renderWithin`). So
there are no more passes than the template has braces for
(`passLimitReached_mem_render_iff_of_narrow`).
-/

namespace Stencil

variable {o o' : Options} {detection : Detection} {scope : Value}

/-! ## Expansions -/

/-- The number of blocks that are expanded. -/
def Pass.expansions (p : Pass) : Nat := p.log.count .expanded

/-- In two passes the blocks of both are expanded. -/
theorem Pass.expansions_andThen (p : Pass) (f : Text → Budget → Pass) :
    (p.andThen f).expansions = p.expansions + (f p.text p.budget).expansions := List.count_append

/-- Issues are recorded without an expansion. -/
theorem Pass.expansions_recording (issues : List Issue) (budget : Budget) :
    (recording issues budget).expansions = 0 := count_expanded_map issues

/-- Tags are substituted without an expansion. -/
theorem expansions_substitutePass (budget : Budget) (scope : Value) (t : Text) :
    (substitutePass budget scope t).expansions = 0 := count_expanded_map _

/-! ## What is spent -/

/-- Of the passes that are given, one is spent on each block that is expanded, and the others are
left unless a block is refused. -/
def Pass.Spends (given : Nat) (p : Pass) : Prop := p.expansions + p.budget.passes = given

/-- A pass spends what is given to it, and the next one what it leaves. -/
theorem Pass.Spends.andThen {p : Pass} {f : Text → Budget → Pass} {given : Nat}
    (h : p.Spends given) (hf : (f p.text p.budget).Spends p.budget.passes) :
    (p.andThen f).Spends given := by
  unfold Spends at h hf ⊢
  rw [expansions_andThen]
  show _ + (f p.text p.budget).budget.passes = given
  omega

/-- Recording issues costs nothing. -/
theorem spends_recording (issues : List Issue) (budget : Budget) :
    (Pass.recording issues budget).Spends budget.passes := by
  unfold Pass.Spends
  rw [Pass.expansions_recording]
  exact Nat.zero_add _

/-- Substituting tags costs nothing. -/
theorem spends_substitutePass (budget : Budget) (scope : Value) (t : Text) :
    (substitutePass budget scope t).Spends budget.passes := by
  unfold Pass.Spends
  rw [expansions_substitutePass]
  exact Nat.zero_add _

section Blocks

variable {bound : Nat} (hrender : ∀ budget : Budget, budget.passes ≤ bound → ∀ scope t,
  (renderWithin o budget scope t).Spends budget.passes)
include hrender

/-- The bodies of all items spend what is given to them, if each of them does. -/
theorem spends_renderItems (length : Nat) (body : Text) (index : Nat) {budget : Budget}
    (hb : budget.passes ≤ bound) (items : List Value) :
    (renderItems (renderWithin o) length body index budget items).Spends budget.passes := by
  induction items generalizing index budget with
  | nil => exact Nat.zero_add _
  | cons item rest ih =>
    have hleft := passes_renderWithin_le (o := o) budget (itemScope item index length) body
    rw [renderItems_cons]
    exact (hrender budget hb _ _).andThen (ih (index + 1) (Nat.le_trans hleft hb))

/-- So does what a block stands for, if its parts do. -/
theorem spends_expandBlock (budget : Budget) (hb : budget.passes ≤ bound) (scope : Value)
    (b : Block) :
    (expandBlock detection (renderWithin o) budget scope b).Spends budget.passes := by
  unfold expandBlock
  split
  · dsimp only
    split
    · next part _ =>
      exact (spends_recording (Condition.parse detection b.expr).issues budget).andThen
        (f := fun _ left => renderWithin o left scope part) (hrender budget hb scope part)
    · exact spends_recording _ budget
  · split
    · exact spends_renderItems hrender _ _ _ hb _
    · exact spends_recording [.unresolvedArray b.expr] budget

end Blocks

/-- A render spends its passes on the blocks that it expands. -/
theorem spends_renderWithin (o : Options) (budget : Budget) (scope : Value) (t : Text) :
    (renderWithin o budget scope t).Spends budget.passes := by
  induction budget, scope, t using renderWithin_induction with
  | exhausted scope t => exact spends_substitutePass .exhausted scope t
  | none n scope t hnext =>
    rw [renderWithin_of_nextBlock?_eq_none hnext]
    exact spends_substitutePass _ _ _
  | refused scope t b hnext =>
    rw [renderWithin_left_zero hnext]
    exact (spends_recording [.passLimitReached o.maxPasses.toNat] .exhausted).andThen
      (f := fun _ left => substitutePass left scope t) (spends_substitutePass _ _ _)
  | block n scope t b hnext ih =>
    have hexpanded : (⟨[], [.expanded], .left n⟩ : Pass).Spends (n + 1) := Nat.add_comm 1 n
    have hleft := passes_expandBlock_renderWithin_le (o := o) n scope b
    have hblock : (expandBlock o.detection (renderWithin o) (.left n) scope b).Spends n :=
      spends_expandBlock ih (.left n) (Nat.le_refl n) scope b
    rw [renderWithin_left_succ_eq_andThen hnext]
    exact hexpanded.andThen (hblock.andThen (ih _ hleft _ _))

/-! ## The limit of a render -/

/-- The limit is among the issues of a render exactly if its budget is exhausted. -/
theorem exists_passLimitReached_iff_exhausted {context : Value} {t : Text} :
    (∃ k, .passLimitReached k ∈ (render o context t).issues) ↔
      (renderWithin o (.left o.maxPasses.toNat) context t).budget = .exhausted := by
  unfold render
  simp only [mem_filterMap_issue?_iff]
  rw [← Decidable.not_not (p := _ = Budget.exhausted), ← ne_eq, ← noLimit_renderWithin_iff]
  unfold NoLimit
  rw [Classical.not_forall_not]

/-- Where only paths are recorded no block is expanded. -/
theorem OnlyPaths.count_expanded {log : List Event} (h : OnlyPaths log) :
    log.count .expanded = 0 := by
  rw [List.count_eq_zero]
  intro hmem
  obtain ⟨path, hpath⟩ := h _ hmem
  cases hpath

/-- When the render of a template is cut short: exactly if its limit is less than the number of
blocks that are expanded where it is not. -/
theorem passLimitReached_mem_render_iff (hd : o.detection = o'.detection) {n : Nat}
    {context : Value} {t : Text}
    (h : (renderWithin o' (.left n) context t).budget ≠ .exhausted) :
    (∃ k, .passLimitReached k ∈ (render o context t).issues) ↔
      o.maxPasses.toNat < (renderWithin o' (.left n) context t).expansions := by
  rw [exists_passLimitReached_iff_exhausted]
  generalize o.maxPasses.toNat = m
  have hspent : _ + _ = m := spends_renderWithin o (.left m) context t
  have hspent' : _ + _ = n := spends_renderWithin o' (.left n) context t
  rcases Nat.lt_or_ge m n with hlt | hge
  · obtain ⟨extra, rfl⟩ := Nat.exists_eq_add_of_lt hlt
    rw [Nat.add_assoc]
    cases cutShort_renderWithin o o' hd (extra + 1) m context t with
    | whole k hp hq htext hlog hno =>
      -- Both expand the same blocks, for which there are passes enough.
      have hsame : (renderWithin o' (.left (m + (extra + 1))) context t).expansions =
          (renderWithin o (.left m) context t).expansions :=
        congrArg (List.count Event.expanded) hlog
      refine iff_of_false (by rw [hp]; nofun) ?_
      rw [hsame]
      omega
    | cut before after hp hlog hno hpaths hbegin hexpands =>
      -- The block that is refused is one more that is expanded if there are passes more.
      have hbefore : before.count .expanded = m := by
        unfold Pass.expansions at hspent
        rw [hp, hlog, List.count_append, List.count_cons_of_ne (by simp), hpaths.count_expanded]
          at hspent
        exact hspent
      have hmore := (hexpands (Nat.succ_ne_zero extra)).sublist.count_le .expanded
      rw [List.count_append, hbefore] at hmore
      exact iff_of_true hp hmore
  · obtain ⟨extra, rfl⟩ := Nat.exists_eq_add_of_le hge
    cases cutShort_renderWithin o' o hd.symm extra n context t with
    | whole k hp hq htext hlog hno => exact iff_of_false (by rw [hq]; nofun) (by omega)
    | cut before after hp => exact absurd hp h

/-! ## Narrow contexts -/

namespace Value

variable {w : Nat}

/-- The scopes that loops come to from a context: the context itself, and with a scope those of the
items of its arrays. -/
inductive LoopScope : Value → Value → Prop where
  | self (context : Value) : LoopScope context context
  | item {context s item : Value} {path : Text} {items : List Value} (index : Nat)
    (hitems : context.resolveArray? path = some items) (hmem : item ∈ items)
    (h : LoopScope (itemScope item index items.length) s) : LoopScope context s

/-- No loop runs over more than `w` items. It is so if no array of the context has more
(`Addressable.narrow`). -/
def Narrow (w : Nat) (context : Value) : Prop :=
  ∀ s, LoopScope context s → ∀ path items, s.resolveArray? path = some items → items.length ≤ w

/-- The array of a loop in the context itself. -/
theorem Narrow.length_le {context : Value} (h : context.Narrow w) {path : Text}
    {items : List Value} (hitems : context.resolveArray? path = some items) : items.length ≤ w :=
  h context (.self context) path items hitems

/-- The scopes of items are as narrow as the context. -/
theorem Narrow.itemScope {context item : Value} (h : context.Narrow w) {path : Text}
    {items : List Value} (hitems : context.resolveArray? path = some items) (hmem : item ∈ items)
    (index : Nat) : (Stencil.itemScope item index items.length).Narrow w :=
  fun s hs => h s (.item index hitems hmem hs)

/-- The scope of an item has no arrays but those of the item. -/
theorem Addressable.itemScope {item : Value} (h : item.Addressable w) (index length : Nat) :
    (Stencil.itemScope item index length).Addressable w := by
  refine addressable_of_properties nofun fun key u hu => ?_
  replace hu : Entries.get? key (Entries.setAll (placeEntries index length) item.ownEntries) =
    some u := hu
  rw [Entries.get?_setAll (nodup_keys_placeEntries index length), Option.or_eq_some_iff] at hu
  rcases hu with hplace | ⟨-, hown⟩
  · -- What a scope tells of the place is a number or a truth value.
    have hmem := Entries.mem_of_get?_eq_some hplace
    simp only [placeEntries, List.mem_cons, Prod.mk.injEq, List.not_mem_nil, or_false] at hmem
    rcases hmem with ⟨-, rfl⟩ | ⟨-, rfl⟩ | ⟨-, rfl⟩
    all_goals exact addressable_of_not_isContainer nofun
  · have hkey : item.HoldsArray → key ≠ lengthKey := by
      rintro ⟨items, hitems⟩ rfl
      have hnone : indexOfKey? lengthKey = none := by decide
      rw [ownEntries, hitems] at hown
      dsimp only at hown
      rw [get?_indexedEntries, hnone] at hown
      cases hown
    rw [get?_ownEntries hkey] at hown
    exact h.property? hown

/-- Loops run over the arrays of a context and over no others. -/
theorem Addressable.narrow {context : Value} (h : context.Addressable w) : context.Narrow w := by
  intro s hs
  have harray {context : Value} (h : context.Addressable w) {path : Text} {items : List Value}
      (hitems : context.resolveArray? path = some items) : (array items).Addressable w :=
    h.resolve? (resolveArray?_eq_some_iff.1 hitems)
  induction hs with
  | self context => exact fun path items hitems => harray h hitems [] items rfl
  | item index hitems hmem _ ih => exact ih (((harray h hitems).item hmem).itemScope index _)

end Value

/-! ## Braces -/

/-- The number of braces that open in a text. -/
def braces (t : Text) : Nat := t.count '{'

/-- Two texts have the braces of both. -/
theorem braces_append (s t : Text) : braces (s ++ t) = braces s + braces t := List.count_append

/-- There are no braces in a text that does not hold the character. -/
theorem braces_of_notMem {t : Text} (h : '{' ∉ t) : braces t = 0 := List.count_eq_zero.2 h

/-- Replacing tags puts in no braces, if no value holds one. -/
theorem braces_renderTags_le (hv : scope.Lacks '{') (t : Text) :
    braces (renderTags scope t).1 ≤ braces t := by
  induction t using tags_induction with
  | nil => exact Nat.le_refl 0
  | literal c t htag ih =>
    rw [renderTags_of_tagAt?_eq_none htag]
    show braces ([c] ++ _) ≤ braces ([c] ++ t)
    rw [braces_append, braces_append]
    exact Nat.add_le_add_left ih _
  | tag t inner rest htag ih =>
    rw [renderTags_of_tagAt? htag, tagAt?_eq_append htag]
    show braces (_ ++ _) ≤ _
    rw [braces_append, braces_append]
    rcases render_tag_eq_or_notMem hv inner with hkept | hnone
    · rw [hkept]
      exact Nat.add_le_add_left ih _
    · rw [braces_of_notMem hnone, Nat.zero_add]
      exact Nat.le_add_left_of_le ih

/-- Nor does the opener at which the substitution ends. -/
theorem braces_substitute_le (hv : scope.Lacks '{') (reporting : Bool) (t : Text) :
    braces (substitute reporting scope t).1 ≤ braces t := by
  unfold substitute
  split
  · exact braces_renderTags_le hv t
  · next head d tail hsplit =>
    rw [splitOpener?_eq_append hsplit]
    show braces (_ ++ tail) ≤ braces (head ++ tail)
    rw [braces_append, braces_append]
    exact Nat.add_le_add_right (braces_renderTags_le hv head) _

/-- A block has four braces besides those of its content, two in its opener and two in its
closer. -/
theorem braces_of_nextBlock? {t : Text} {b : Block} (h : nextBlock? t = some b) :
    braces b.before + (braces b.content + 4) + braces b.after ≤ braces t := by
  obtain ⟨d, hfind⟩ := exists_findBlock?_of_nextBlock? h
  have hmarks (d : Directive) : braces d.opener = 2 ∧ braces d.closer = 2 := by
    cases d <;> exact ⟨rfl, rfl⟩
  rw [← Scan.source_eq (scan_eq_found_iff.2 (findBlock?_eq_some_iff.1 hfind)), Block.source]
  simp only [braces_append, hmarks]
  omega

/-- The body of a block has no braces but those of its content. -/
theorem braces_body_le (b : Block) : braces b.body ≤ braces b.content := by
  unfold Block.content
  split
  · exact Nat.le_refl _
  · simp only [braces_append]
    omega

/-- Nor has its `else` part. -/
theorem braces_elseBody_le {b : Block} {e : Text} (h : b.elseBody = some e) :
    braces e ≤ braces b.content := by
  rw [Block.content, h]
  simp only [braces_append]
  omega

/-- The part that is chosen has no braces but those of the content. -/
theorem braces_part_le {b : Block} {part : Text} {holds : Bool}
    (h : (if holds then some b.body else b.elseBody) = some part) :
    braces part ≤ braces b.content := by
  cases holds with
  | true =>
    obtain rfl := Option.some.inj h
    exact braces_body_le b
  | false => exact braces_elseBody_le h

/-- A pass after which there are no more braces than before it, with four of them for each block
that is expanded. -/
def Pass.Saves (before : Nat) (p : Pass) : Prop := 4 * p.expansions + braces p.text ≤ before

/-- Issues that are recorded before change nothing. -/
theorem Pass.Saves.recording_andThen (issues : List Issue) {budget : Budget}
    {f : Text → Budget → Pass} {before : Nat} (h : (f [] budget).Saves before) :
    ((Pass.recording issues budget).andThen f).Saves before := by
  unfold Saves
  rw [expansions_andThen, expansions_recording, Nat.zero_add]
  exact h

/-- Where no value holds a brace, substituting tags puts in none. -/
theorem saves_substitutePass (hv : scope.Lacks '{') (budget : Budget) (t : Text) :
    (substitutePass budget scope t).Saves (braces t) := by
  unfold Pass.Saves
  rw [expansions_substitutePass, Nat.mul_zero, Nat.zero_add]
  exact braces_substitute_le hv _ t

section Saving

variable {bound : Nat} (hrender : ∀ budget : Budget, budget.passes ≤ bound → ∀ scope t,
  scope.Lacks '{' → scope.Narrow 1 → (renderWithin o budget scope t).Saves (braces t))
include hrender

/-- What a block stands for has no more braces than its content, since the body of a loop is
rendered for one item at most. -/
theorem saves_expandBlock (budget : Budget) (hb : budget.passes ≤ bound) (hv : scope.Lacks '{')
    (hn : scope.Narrow 1) (b : Block) :
    (expandBlock detection (renderWithin o) budget scope b).Saves (braces b.content) := by
  have hnothing (issues : List Issue) :
      (Pass.recording issues budget).Saves (braces b.content) := by
    unfold Pass.Saves
    rw [Pass.expansions_recording]
    exact Nat.zero_le _
  unfold expandBlock
  split
  · dsimp only
    split
    · next part hpart =>
      have hsaved : (renderWithin o budget scope part).Saves (braces b.content) :=
        Nat.le_trans (hrender budget hb scope part hv hn) (braces_part_le hpart)
      exact Pass.Saves.recording_andThen (Condition.parse detection b.expr).issues
        (f := fun _ left => renderWithin o left scope part) hsaved
    · exact hnothing _
  · split
    · next items hitems =>
      have hone := hn.length_le hitems
      match items, hitems, hone with
      | [], _, _ => exact Nat.zero_le _
      | [item], hitems, _ =>
        have hmem : item ∈ [item] := List.mem_singleton_self item
        have hsaved := hrender budget hb _ b.body
          ((hv.resolveArray? hitems item hmem).itemScope 0 1) (hn.itemScope hitems hmem 0)
        unfold Pass.Saves
        rw [renderItems_cons, Pass.expansions_andThen]
        show 4 * (_ + 0) + braces (_ ++ []) ≤ _
        rw [List.append_nil]
        exact Nat.le_trans hsaved (braces_body_le b)
    · exact hnothing [.unresolvedArray b.expr]

end Saving

/-- Where no value holds a brace and no loop runs over more than one item, four braces are taken out
of the text for each block that is expanded, and none are put in. -/
theorem saves_renderWithin (o : Options) (budget : Budget) {scope : Value} (hv : scope.Lacks '{')
    (hn : scope.Narrow 1) (t : Text) : (renderWithin o budget scope t).Saves (braces t) := by
  induction budget, scope, t using renderWithin_induction with
  | exhausted scope t => exact saves_substitutePass hv .exhausted t
  | none n scope t hnext =>
    rw [renderWithin_of_nextBlock?_eq_none hnext]
    exact saves_substitutePass hv _ t
  | refused scope t b hnext =>
    rw [renderWithin_left_zero hnext]
    exact Pass.Saves.recording_andThen [.passLimitReached o.maxPasses.toNat]
      (f := fun _ left => substitutePass left scope t) (saves_substitutePass hv .exhausted t)
  | block n scope t b hnext ih =>
    have hleft := passes_expandBlock_renderWithin_le (o := o) n scope b
    have hblock : (expandBlock o.detection (renderWithin o) (.left n) scope b).Saves
        (braces b.content) :=
      saves_expandBlock ih (.left n) (Nat.le_refl n) hv hn b
    have hrest := ih _ hleft scope (b.replaceWith
      (expandBlock o.detection (renderWithin o) (.left n) scope b).text) hv hn
    rw [renderWithin_left_succ_eq_andThen hnext]
    generalize hp : expandBlock o.detection (renderWithin o) (.left n) scope b = p at hblock hrest
    unfold Pass.Saves at hblock hrest ⊢
    rw [Block.replaceWith, braces_append, braces_append] at hrest
    rw [Pass.expansions_andThen, Pass.expansions_andThen]
    -- The four braces of the block are those for its own expansion.
    have hbraces := braces_of_nextBlock? hnext
    have hone : (⟨[], [.expanded], .left n⟩ : Pass).expansions = 1 := rfl
    simp only [Pass.andThen, hp, hone, Block.replaceWith]
    omega

/-- When the render of a template is cut short if no value holds a brace and no loop runs over more
than one item: the template needs no more passes than it has braces for, at four a pass. -/
theorem passLimitReached_mem_render_iff_of_narrow (detection : Detection) {context : Value}
    (hv : context.Lacks '{') (hn : context.Narrow 1) (t : Text) :
    ∃ cost, 4 * cost ≤ braces t ∧ ∀ o : Options, o.detection = detection →
      ((∃ k, .passLimitReached k ∈ (render o context t).issues) ↔ o.maxPasses.toNat < cost) := by
  -- One pass more than there are braces is more than can be spent.
  have hspent := spends_renderWithin { detection := detection } (.left (braces t + 1)) context t
  have hsaved := saves_renderWithin { detection := detection } (.left (braces t + 1)) hv hn t
  unfold Pass.Spends at hspent
  unfold Pass.Saves at hsaved
  refine ⟨_, Nat.le_trans (Nat.le_add_right _ _) hsaved, fun o hd => ?_⟩
  refine passLimitReached_mem_render_iff hd fun hexhausted => ?_
  rw [hexhausted] at hspent
  have hall : _ + 0 = braces t + 1 := hspent
  omega

end Stencil
