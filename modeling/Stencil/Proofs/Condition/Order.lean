import Stencil.Condition.Eval
import Stencil.Proofs.Condition.Printed

/-!
# Order and equality in conditions

Order and equality are decided by different functions: equality converts its sides, and order does
not. Where there is an order they agree all the same (`Ordered.exists_order`), and where there is
none no comparison of order is true (`orderOf?_eq_none`). `Coherent` says how the six comparisons of
two sides hang together. It holds of the comparisons of two values, either of which may be missing
(`Comparison.coherent_eval`), and so of the conditions that compare two paths, however they are
read and spaced (`coherent_parse_write`).
-/

namespace Stencil

/-! ## Numbers and texts -/

/-- The order of two numbers is turned round when they change places. -/
theorem Number.order?_swap (a b : Number) : (a.order? b).map Ordering.swap = b.order? a := by
  unfold order?
  cases a.position with
  | none => cases b.position <;> rfl
  | some x =>
    cases b.position with
    | none => rfl
    | some y => exact congrArg some Std.OrientedCmp.eq_swap.symm

/-- Two numbers other than `nan` have an order. -/
theorem Number.exists_order? {a b : Number} (ha : a ≠ .nan) (hb : b ≠ .nan) :
    ∃ o, a.order? b = some o := by
  have hplace {n : Number} (hn : n ≠ .nan) : ∃ x, n.position = some x := by
    cases n with
    | nan => exact absurd rfl hn
    | infinity s => exact ⟨_, rfl⟩
    | finite s m => exact ⟨_, rfl⟩
  obtain ⟨x, hx⟩ := hplace ha
  obtain ⟨y, hy⟩ := hplace hb
  exact ⟨compare x y, by rw [order?, hx, hy]⟩

/-- Numbers are equal when their order says so. -/
theorem Number.equals_of_order? {a b : Number} {o : Ordering} (h : a.order? b = some o) :
    a.equals b = o.isEq := by
  rw [equals, h]
  cases o <;> rfl

/-- The order of two texts is turned round when they change places. -/
theorem Text.order_swap (s t : Text) : (order s t).swap = order t s := by
  induction s generalizing t with
  | nil => cases t <;> rfl
  | cons c s ih =>
    cases t with
    | nil => rfl
    | cons d t => rw [order, order, Ordering.swap_then, ih, Nat.compare_swap]

/-- A text stands neither before nor after the same text, and no other. -/
theorem Text.order_eq_eq_iff {s t : Text} : order s t = .eq ↔ s = t := by
  induction s generalizing t with
  | nil => cases t <;> simp [order]
  | cons c s ih =>
    cases t with
    | nil => simp [order]
    | cons d t =>
      rw [order, Ordering.then_eq_eq, ih, Nat.compare_eq_eq, List.cons.injEq, Char.toNat_inj]

/-! ## Values -/

/-- The values that have an order: two numbers other than `nan`, and two texts. -/
inductive Ordered : Option Value → Option Value → Prop
  | numbers {a b : Number} (ha : a ≠ .nan) (hb : b ≠ .nan) :
    Ordered (some (.number a)) (some (.number b))
  | texts (s t : Text) : Ordered (some (.text s)) (some (.text t))

section Values

variable {l r : Option Value}

/-- The order of two values says how they stand in both directions, and whether they are loosely
equal. -/
theorem Ordered.exists_order (h : Ordered l r) :
    ∃ o, orderOf? l r = some o ∧ orderOf? r l = some o.swap ∧ looselyEqual l r = o.isEq := by
  cases h with
  | @numbers a b ha hb =>
    obtain ⟨o, ho⟩ := Number.exists_order? ha hb
    have hswap : b.order? a = some o.swap := by rw [← Number.order?_swap, ho, Option.map_some]
    exact ⟨o, ho, hswap, Number.equals_of_order? ho⟩
  | texts s t =>
    -- Equality does not go by the order of texts, but comes to the same.
    have hequal : (s == t) = (Text.order s t).isEq := by
      rw [Bool.eq_iff_iff, beq_iff_eq, Ordering.isEq_iff_eq_eq, Text.order_eq_eq_iff]
    exact ⟨Text.order s t, rfl, congrArg some (Text.order_swap s t).symm, hequal⟩

/-- Values have an order in one direction if they have one in the other. -/
theorem Ordered.symm (h : Ordered l r) : Ordered r l := by
  cases h with
  | numbers ha hb => exact .numbers hb ha
  | texts s t => exact .texts t s

/-- No other values have an order. -/
theorem orderOf?_eq_none (h : ¬ Ordered l r) : orderOf? l r = none := by
  unfold orderOf?
  split
  · next a b =>
    -- One of the numbers is `nan`, which has no place.
    by_cases ha : a = .nan
    · rw [ha]
      rfl
    · by_cases hb : b = .nan
      · rw [hb, ← Number.order?_swap]
        rfl
      · exact absurd (.numbers ha hb) h
  · next s t => exact absurd (.texts s t) h
  · rfl

/-- The order of two values is turned round when they change places. -/
theorem orderOf?_swap (l r : Option Value) : (orderOf? l r).map Ordering.swap = orderOf? r l := by
  by_cases h : Ordered l r
  · obtain ⟨o, ho, hswap, -⟩ := h.exists_order
    rw [ho, hswap, Option.map_some]
  · rw [orderOf?_eq_none h, orderOf?_eq_none fun h' => h h'.symm, Option.map_none]

end Values

/-! ## Comparisons -/

/-- How the six comparisons of two sides hang together, where `ordered` says whether the sides have
an order. -/
structure Coherent {α : Type} (holds : α → Comparison → α → Bool) (p q : α) (ordered : Prop) :
    Prop where
  /-- `>` is `<` with the sides exchanged. -/
  greater_eq : holds p .greater q = holds q .less p
  /-- `>=` is `<=` with the sides exchanged. -/
  atLeast_eq : holds p .atLeast q = holds q .atMost p
  /-- `!=` is the contrary of `==`. -/
  unequal_eq : holds p .unequal q = !holds p .equal q
  /-- Of sides with an order exactly one of `<`, `==` and `>` is true. -/
  trichotomy : ordered →
    ∃! op, op ∈ [Comparison.less, .equal, .greater] ∧ holds p op q = true
  /-- Of sides with an order `>=` is true exactly if `>` or `==` is. -/
  atLeast_iff : ordered →
    (holds p .atLeast q = true ↔ holds p .greater q = true ∨ holds p .equal q = true)
  /-- Of sides without an order no comparison of order is true. -/
  eq_false : ¬ ordered →
    ∀ op ∈ [Comparison.greater, .atLeast, .less, .atMost], holds p op q = false

/-- Sides that are compared alike hang together alike. -/
theorem Coherent.congr {α β : Type} {holds : α → Comparison → α → Bool}
    {holds' : β → Comparison → β → Bool} {p q : α} {p' q' : β} {ordered : Prop}
    (h : Coherent holds p q ordered) (hpq : ∀ op, holds' p' op q' = holds p op q)
    (hqp : ∀ op, holds' q' op p' = holds q op p) : Coherent holds' p' q' ordered where
  greater_eq := by rw [hpq, hqp, h.greater_eq]
  atLeast_eq := by rw [hpq, hqp, h.atLeast_eq]
  unequal_eq := by rw [hpq, hpq, h.unequal_eq]
  trichotomy := by simpa only [hpq] using h.trichotomy
  atLeast_iff := by simpa only [hpq] using h.atLeast_iff
  eq_false := by simpa only [hpq] using h.eq_false

/-- A comparison of order looks at the order alone. -/
theorem Comparison.eval_of_order (l r : Option Value) {op : Comparison}
    (h : op ∈ [greater, atLeast, less, atMost]) : op.eval l r = (orderOf? l r).any op.holdsFor := by
  cases op with
  | equal => simp at h
  | unequal => simp at h
  | _ => rfl

/-- A comparison of order is another one of the sides exchanged. -/
theorem Comparison.eval_swap (l r : Option Value) {op op' : Comparison}
    (h : op ∈ [greater, atLeast, less, atMost]) (h' : op' ∈ [greater, atLeast, less, atMost])
    (hswap : ∀ o, op.holdsFor o = op'.holdsFor o.swap) : op.eval l r = op'.eval r l := by
  rw [eval_of_order l r h, eval_of_order r l h', ← orderOf?_swap l r, Option.any_map]
  exact congrArg (Option.any · _) (funext hswap)

/-- Of values with an order every comparison is true that their order answers to. -/
theorem Ordered.exists_eval_eq {l r : Option Value} (h : Ordered l r) :
    ∃ o, ∀ op : Comparison, op.eval l r = op.holdsFor o := by
  obtain ⟨o, ho, -, hequal⟩ := h.exists_order
  refine ⟨o, fun op => ?_⟩
  cases op with
  | equal => exact hequal
  | unequal =>
    rw [Comparison.eval, hequal]
    cases o <;> rfl
  | _ => rw [Comparison.eval_of_order l r (by decide), ho, Option.any_some]

/-- An order answers to exactly one of `<`, `==` and `>`. -/
theorem Comparison.existsUnique_holdsFor (o : Ordering) :
    ∃! op, op ∈ [less, equal, greater] ∧ op.holdsFor o = true := by
  cases o with
  | lt => exact ⟨less, by decide, fun op h => by cases op <;> revert h <;> decide⟩
  | eq => exact ⟨equal, by decide, fun op h => by cases op <;> revert h <;> decide⟩
  | gt => exact ⟨greater, by decide, fun op h => by cases op <;> revert h <;> decide⟩

/-- The comparisons of two values hang together, also where one of them is missing. -/
theorem Comparison.coherent_eval (l r : Option Value) :
    Coherent (fun l op r => Comparison.eval op l r) l r (Ordered l r) where
  greater_eq := eval_swap l r (by decide) (by decide) fun o => by cases o <;> rfl
  atLeast_eq := eval_swap l r (by decide) (by decide) fun o => by cases o <;> rfl
  unequal_eq := rfl
  trichotomy h := by
    obtain ⟨o, ho⟩ := h.exists_eval_eq
    simpa only [ho] using existsUnique_holdsFor o
  atLeast_iff h := by
    obtain ⟨o, ho⟩ := h.exists_eval_eq
    simp only [ho]
    cases o <;> decide
  eq_false h op hop := by rw [eval_of_order l r hop, orderOf?_eq_none h, Option.any_none]

/-! ## Conditions -/

namespace Condition

open Operand (quote Literal Written)

/-- The characters that symbols of operators are made of. -/
def operatorChars : Text := ['=', '!', '<', '>']

/-- A path that is read as a path on both sides of a comparison: it is not empty, has no blanks,
quotes and characters of operators, and does not look like a literal. -/
structure PlainPath (p : Text) : Prop where
  ne_nil : p ≠ []
  no_blank : ∀ c ∈ p, Text.isBlank c = false
  no_quote : quote ∉ p
  no_operator : ∀ c ∈ operatorChars, c ∉ p
  not_literal : ∀ o, ¬ Literal p o

variable {p q : Text}

/-- There are no blanks at the ends of a plain path. -/
theorem PlainPath.trimmed (h : PlainPath p) : Text.Trimmed p :=
  Text.trimmed_of_any_eq_false (List.any_eq_false.2 fun c hc => by simp [h.no_blank c hc])

/-- A plain path stands on one line. -/
theorem PlainPath.newline_notMem (h : PlainPath p) : '\n' ∉ p :=
  fun hmem => absurd (h.no_blank _ hmem) (by decide)

/-- A plain path is read on the left of a comparison. -/
theorem PlainPath.plainLeft (h : PlainPath p) : PlainLeft p where
  ne_nil := h.ne_nil
  trim_eq := h.trimmed.trim_eq
  newline_notMem := h.newline_notMem
  quote_notMem := h.no_quote
  symbol_not_infix op hop := by
    -- The first character of the symbol would stand in the path.
    obtain ⟨c, hsymbol, hc⟩ : ∃ c ∈ op.symbol, c ∈ operatorChars := by
      cases op <;> exact ⟨_, List.mem_cons_self, by decide⟩
    exact h.no_operator c hc (hop.subset hsymbol)

/-- A plain path is read on the right of a comparison. -/
theorem PlainPath.written (h : PlainPath p) : Written p (.path p) :=
  .path h.ne_nil h.trimmed.trim_eq h.newline_notMem h.not_literal

/-- A condition that compares two plain paths compares what they lead to. -/
theorem eval_parse_write (detection : Detection) (s : Spacing) (context : Value) (hp : PlainPath p)
    (hq : PlainPath q) (op : Comparison) :
    (parse detection (s.write p op q)).eval context =
      op.eval (context.resolve? p) (context.resolve? q) := by
  rw [parse_write detection s op hp.plainLeft hq.written]
  rfl

/-- The conditions that compare two paths hang together. They have an order exactly if both lead to
numbers other than `nan`, or both to texts. -/
theorem coherent_parse_write (detection : Detection) (s : Spacing) (context : Value)
    (hp : PlainPath p) (hq : PlainPath q) :
    Coherent (fun left op right => (parse detection (s.write left op right)).eval context) p q
      (Ordered (context.resolve? p) (context.resolve? q)) :=
  (Comparison.coherent_eval (context.resolve? p) (context.resolve? q)).congr
    (eval_parse_write detection s context hp hq) (eval_parse_write detection s context hq hp)

/-- What is read as a path is no literal. -/
theorem not_literal_of_parse (h : Operand.parse p = .path p) (o : Operand) : ¬ Literal p o := by
  intro ho
  obtain rfl : o = .path p := ho.parse_eq.symm.trans h
  cases ho

/-- One blank on either side of the operator. -/
def oneBlank : Spacing :=
  ⟨[], [' '], [' '], [], by decide, by decide, by decide, by decide, by decide, by decide⟩

/-- A context with both zeros, one of them in a cell in a list. -/
def bothZeros : Value :=
  .object [(['z'], .number .zero), (['l'], .array [.cell (.number (.negate .zero))])]

/-- Of `z` and `l.0`, which lead to the two zeros, `z == l.0` is true, and so `z >= l.0` is true and
`z > l.0` is not. -/
theorem coherent_bothZeros :
    (PlainPath ['z'] ∧ PlainPath ['l', '.', '0'] ∧
        Ordered (bothZeros.resolve? ['z']) (bothZeros.resolve? ['l', '.', '0'])) ∧
      (parse .legacy ['z', ' ', '=', '=', ' ', 'l', '.', '0']).eval bothZeros = true ∧
      (parse .legacy ['z', ' ', '>', '=', ' ', 'l', '.', '0']).eval bothZeros = true ∧
      (parse .legacy ['z', ' ', '>', ' ', 'l', '.', '0']).eval bothZeros = false := by
  have hp : PlainPath ['z'] :=
    ⟨by decide, by simp [Text.isBlank, Text.blankRanges], by decide, by simp [operatorChars],
      not_literal_of_parse (by decide)⟩
  have hq : PlainPath ['l', '.', '0'] :=
    ⟨by decide, by simp [Text.isBlank, Text.blankRanges], by decide, by simp [operatorChars],
      not_literal_of_parse (by decide)⟩
  have hordered : Ordered (bothZeros.resolve? ['z']) (bothZeros.resolve? ['l', '.', '0']) :=
    .numbers (a := .zero) (b := .negate .zero) (by decide) (by decide)
  have h := coherent_parse_write .legacy oneBlank bothZeros hp hq
  have hequal : (parse .legacy (oneBlank.write ['z'] .equal ['l', '.', '0'])).eval bothZeros =
      true := by decide
  have hatLeast := (h.atLeast_iff hordered).2 (.inr hequal)
  -- Since `==` is the one that is true, `>` is not.
  obtain ⟨op, -, hunique⟩ := h.trichotomy hordered
  have hgreater : (parse .legacy (oneBlank.write ['z'] .greater ['l', '.', '0'])).eval bothZeros =
      false := by
    rw [Bool.eq_false_iff]
    intro htrue
    have hop := hunique .greater ⟨by decide, htrue⟩
    have hop' := hunique .equal ⟨by decide, hequal⟩
    cases hop.trans hop'.symm
  exact ⟨⟨hp, hq, hordered⟩, hequal, hatLeast, hgreater⟩

end Condition

end Stencil
