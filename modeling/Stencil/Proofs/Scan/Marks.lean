import Stencil.Proofs.Scan.Occurrence

/-!
# The marks of a text

To the scan for blocks of one kind a text is the sequence of the marks that stand in it: openers and
closers of that kind and, for `@if` blocks, `else` tags. Everything else is plain text.

`depth` is the number of blocks that a sequence opens and does not close, `Balanced` says that it
closes what it opens and nothing else, and `ElsesNested` that every `else` is within a block of the
sequence. The two searches that a scan is made of are then questions about marks:
`splitCloser?_eq_some_iff` and `splitElse?_eq_some_iff`. Both proofs are inductions on the text, in
which the number of open blocks changes from mark to mark; so they are about `EndsAt` and `AboveAt`,
which count from any number of open blocks.
-/

namespace Stencil

/-- What a tag means to the scan for blocks of one kind. -/
inductive Mark where
  | opens
  | closes
  | splits
deriving DecidableEq

namespace Mark

/-- The text of a mark. -/
def text (d : Directive) : Mark → Text
  | opens => d.opener
  | closes => d.closer
  | splits => elseTag

/-- The marks of a kind of block. To an `#each` block the `else` tag is plain text. -/
def all : Directive → List Mark
  | .cond => [opens, closes, splits]
  | .each => [opens, closes]

/-- The mark that stands at the beginning of a text. -/
def atStart? (d : Directive) (t : Text) : Option Mark := (all d).find? fun m => m.text d <+: t

/-- How many more blocks are open after a mark than before it. -/
def weight : Mark → Int
  | opens => 1
  | closes => -1
  | splits => 0

/-- The weight of the mark that stands at the beginning of a text, zero if none does. -/
def weightAt (d : Directive) (t : Text) : Int := ((atStart? d t).map weight).getD 0

/-- Every mark is a tag in two braces. -/
theorem tagLike_text (d : Directive) (m : Mark) : (m.text d).TagLike := by
  cases d <;> cases m <;> exact ⟨_, _, rfl, by decide⟩

/-- Every mark begins with two braces. -/
theorem tagStart_prefix_text (d : Directive) (m : Mark) : tagStart <+: m.text d := by
  obtain ⟨c, v, h, -⟩ := tagLike_text d m
  exact ⟨c :: v, h.symm⟩

/-- Every mark has characters. -/
theorem text_ne_nil (d : Directive) (m : Mark) : m.text d ≠ [] := by
  obtain ⟨c, v, h, -⟩ := tagLike_text d m
  simp [h]

/-- Openers are marks of both kinds of blocks. -/
theorem opens_mem_all (d : Directive) : opens ∈ all d := by cases d <;> decide

/-- Closers are marks of both kinds of blocks. -/
theorem closes_mem_all (d : Directive) : closes ∈ all d := by cases d <;> decide

/-- No two marks begin alike. -/
theorem eq_of_both_begin {d : Directive} {m m' : Mark} {t : Text} (h : m.text d <+: t)
    (h' : m'.text d <+: t) : m = m' := by
  have htexts : ∀ d m m', text d m <+: text d m' → m = m' := by
    intro d m m'
    cases d <;> cases m <;> cases m' <;> decide
  -- Of two texts at the beginning of a third the shorter begins the longer.
  rcases List.prefix_or_prefix_of_prefix h h' with hm | hm
  · exact htexts d m m' hm
  · exact (htexts d m' m hm).symm

/-- `atStart?` finds exactly the mark at the beginning. -/
theorem atStart?_eq_some_iff {d : Directive} {t : Text} {m : Mark} :
    atStart? d t = some m ↔ m ∈ all d ∧ m.text d <+: t := by
  constructor
  · intro h
    exact ⟨List.mem_of_find?_eq_some h, by simpa using List.find?_some h⟩
  · rintro ⟨hm, ht⟩
    rcases h : atStart? d t with _ | m'
    · have hno := List.find?_eq_none.1 h m hm
      exact absurd ht (by simpa using hno)
    · have ht' : m'.text d <+: t := by simpa using List.find?_some h
      rw [eq_of_both_begin ht ht']

/-- `atStart?` fails exactly where no mark stands. -/
theorem atStart?_eq_none_iff {d : Directive} {t : Text} :
    atStart? d t = none ↔ ∀ m ∈ all d, ¬ m.text d <+: t := by
  simp [atStart?, List.find?_eq_none]

/-- At a mark of the kind the weight is that of the mark. -/
theorem weightAt_of_prefix {d : Directive} {m : Mark} {t : Text} (hm : m ∈ all d)
    (ht : m.text d <+: t) : weightAt d t = m.weight := by
  rw [weightAt, atStart?_eq_some_iff.2 ⟨hm, ht⟩]
  rfl

/-- Where neither an opener nor a closer stands nothing is opened or closed. -/
theorem weightAt_eq_zero {d : Directive} {t : Text} (ho : ¬ d.opener <+: t)
    (hc : ¬ d.closer <+: t) : weightAt d t = 0 := by
  unfold weightAt
  rcases h : atStart? d t with _ | m
  · rfl
  · have ht := (atStart?_eq_some_iff.1 h).2
    cases m with
    | opens => exact absurd ht ho
    | closes => exact absurd ht hc
    | splits => rfl

/-- The mark at the beginning of a text stands before any tag that follows. -/
theorem atStart?_append {d : Directive} {c : Char} {p s : Text} (hs : tagStart <+: s) :
    atStart? d (c :: (p ++ s)) = atStart? d (c :: p) := by
  refine Option.ext fun m => ?_
  rw [atStart?_eq_some_iff, atStart?_eq_some_iff, ← List.cons_append,
    (tagLike_text d m).prefix_append_iff (List.cons_ne_nil _ _) hs]

/-- The weight at the beginning of a text does not depend on a tag that follows. -/
theorem weightAt_append {d : Directive} {c : Char} {p s : Text} (hs : tagStart <+: s) :
    weightAt d (c :: (p ++ s)) = weightAt d (c :: p) := by
  unfold weightAt
  rw [atStart?_append hs]

end Mark

/-! ## Texts without marks -/

/-- No mark of the kind begins in a text, whatever follows the text. -/
def Directive.Ignores (d : Directive) (p : Text) : Prop := ∀ m ∈ Mark.all d, Text.Inert (m.text d) p

namespace Directive

/-- The empty text is ignored. -/
theorem ignores_nil (d : Directive) : d.Ignores [] := fun _ _ => Text.inert_nil _

/-- Ignored texts are joined to an ignored text. -/
theorem Ignores.append {d : Directive} {p q : Text} (hp : d.Ignores p) (hq : d.Ignores q) :
    d.Ignores (p ++ q) :=
  fun m hm => (hp m hm).append (hq m hm)

/-- A text without braces that open is ignored. -/
theorem ignores_of_notMem (d : Directive) {p : Text} (hp : '{' ∉ p) : d.Ignores p :=
  fun m _ => (Mark.tagLike_text d m).inert_of_notMem hp

/-- A tag that begins none of the marks is ignored. -/
theorem ignores_tagStart_append {d : Directive} {v : Text} (hne : v ≠ []) (hv : '{' ∉ v)
    (h : ∀ m ∈ Mark.all d, ∀ s, ¬ m.text d <+: tagStart ++ v ++ s) : d.Ignores (tagStart ++ v) := by
  intro m hm
  obtain ⟨c, u, rfl⟩ := List.exists_cons_of_ne_nil hne
  exact Text.Inert.cons (h m hm) ((Mark.tagLike_text d m).inert_brace hv)

end Directive

/-! ## The sequence of marks -/

/-- The marks that stand in a text, in their order. -/
def marks (d : Directive) : Text → List Mark
  | [] => []
  | c :: t => (Mark.atStart? d (c :: t)).toList ++ marks d t

/-- The empty text has no marks. -/
@[simp] theorem marks_nil (d : Directive) : marks d [] = [] := rfl

/-- A text that the kind ignores has no marks, and adds none. -/
theorem Directive.Ignores.marks_append {d : Directive} {p : Text} (hp : d.Ignores p) (s : Text) :
    marks d (p ++ s) = marks d s := by
  induction p with
  | nil => rfl
  | cons c p ih =>
    have hno : Mark.atStart? d (c :: (p ++ s)) = none :=
      Mark.atStart?_eq_none_iff.2 fun m hm => (hp m hm).of_cons.1 s
    rw [List.cons_append, marks, hno]
    exact ih fun m hm => (hp m hm).of_cons.2

/-- The marks of two texts follow one another if no tag can reach from one into the other. -/
theorem marks_append {d : Directive} {s : Text} (hs : tagStart <+: s) (p : Text) :
    marks d (p ++ s) = marks d p ++ marks d s := by
  induction p with
  | nil => rfl
  | cons c p ih =>
    rw [List.cons_append, marks, marks, Mark.atStart?_append hs, ih, List.append_assoc]

/-- A mark is the first of the text that it begins. -/
theorem marks_text_append {d : Directive} {m : Mark} (hm : m ∈ Mark.all d) (s : Text) :
    marks d (m.text d ++ s) = m :: marks d s := by
  obtain ⟨c, v, htext, hv⟩ := Mark.tagLike_text d m
  have hat : Mark.atStart? d ('{' :: (('{' :: c :: v) ++ s)) = some m :=
    Mark.atStart?_eq_some_iff.2 ⟨hm, s, by rw [htext]; rfl⟩
  -- Within a mark no other begins: after its first brace it has but one more.
  have htail : marks d (('{' :: c :: v) ++ s) = marks d s :=
    Directive.Ignores.marks_append (fun m' _ => (Mark.tagLike_text d m').inert_brace hv) s
  rw [htext, List.cons_append, marks, hat, htail]
  rfl

/-! ## Depth -/

/-- The number of blocks that a sequence of marks opens and does not close. -/
def depth : List Mark → Int
  | [] => 0
  | m :: ms => m.weight + depth ms

@[simp] theorem depth_nil : depth [] = 0 := rfl

@[simp] theorem depth_cons (m : Mark) (ms : List Mark) : depth (m :: ms) = m.weight + depth ms :=
  rfl

@[simp] theorem depth_append (ms ns : List Mark) : depth (ms ++ ns) = depth ms + depth ns := by
  induction ms with
  | nil => simp
  | cons m ms ih => rw [List.cons_append, depth_cons, depth_cons, ih, Int.add_assoc]

/-- A sequence of marks closes the blocks that it opens, and no others. -/
structure Balanced (ms : List Mark) : Prop where
  settled : depth ms = 0
  nonneg : ∀ p q, ms = p ++ q → 0 ≤ depth p

/-- Every `else` stands within a block that the sequence has opened. -/
def ElsesNested (ms : List Mark) : Prop := ∀ p q, ms = p ++ .splits :: q → 0 < depth p

/-! ## Counting from a number of open blocks -/

/-- After `n` open blocks no mark of the sequence closes more than are open. -/
def AboveAt (n : Int) (ms : List Mark) : Prop := ∀ p q, ms = p ++ q → 0 ≤ n + depth p

/-- After `n` open blocks the sequence closes all that are open, and no more. -/
def EndsAt (n : Int) (ms : List Mark) : Prop := n + depth ms = 0 ∧ AboveAt n ms

/-- After `n` open blocks every `else` of the sequence stands within an open one. -/
def ElsesAt (n : Int) (ms : List Mark) : Prop := ∀ p q, ms = p ++ .splits :: q → 0 < n + depth p

/-- `Balanced` counts from zero. -/
theorem balanced_iff {ms : List Mark} : Balanced ms ↔ EndsAt 0 ms := by
  simp only [EndsAt, AboveAt, Int.zero_add]
  exact ⟨fun h => ⟨h.settled, h.nonneg⟩, fun h => ⟨h.1, h.2⟩⟩

/-- `ElsesNested` counts from zero. -/
theorem elsesNested_iff {ms : List Mark} : ElsesNested ms ↔ ElsesAt 0 ms := by
  simp only [ElsesNested, ElsesAt, Int.zero_add]

/-- One mark changes the number of open blocks for the others. -/
theorem aboveAt_cons_iff {n : Int} {m : Mark} {ms : List Mark} :
    AboveAt n (m :: ms) ↔ 0 ≤ n ∧ AboveAt (n + m.weight) ms := by
  constructor
  · intro h
    have hn := h [] (m :: ms) rfl
    refine ⟨by simpa using hn, fun p q hpq => ?_⟩
    have hp := h (m :: p) q (by rw [hpq]; rfl)
    rw [depth_cons] at hp
    omega
  · rintro ⟨hn, h⟩ p q hpq
    rcases p with _ | ⟨m', p⟩
    · simpa using hn
    · obtain ⟨rfl, hms⟩ : m = m' ∧ ms = p ++ q := by simpa using hpq
      have hp := h p q hms
      rw [depth_cons]
      omega

/-- A balanced sequence leaves the number of open blocks for what follows it. -/
theorem aboveAt_append_iff {n : Int} {ms ns : List Mark} :
    AboveAt n (ms ++ ns) ↔ AboveAt n ms ∧ AboveAt (n + depth ms) ns := by
  induction ms generalizing n with
  | nil =>
    constructor
    · intro h
      refine ⟨fun p q hpq => ?_, by simpa using h⟩
      obtain ⟨rfl, -⟩ := List.append_eq_nil_iff.1 hpq.symm
      exact h [] ns rfl
    · rintro ⟨-, h⟩
      simpa using h
  | cons m ms ih =>
    rw [List.cons_append, aboveAt_cons_iff, aboveAt_cons_iff, ih, depth_cons, and_assoc,
      Int.add_assoc]

/-- One mark changes the number of open blocks for the others. -/
theorem endsAt_cons_iff {n : Int} {m : Mark} {ms : List Mark} :
    EndsAt n (m :: ms) ↔ 0 ≤ n ∧ EndsAt (n + m.weight) ms := by
  unfold EndsAt
  rw [aboveAt_cons_iff, depth_cons, ← Int.add_assoc]
  exact ⟨fun ⟨h, hn, ha⟩ => ⟨hn, h, ha⟩, fun ⟨hn, h, ha⟩ => ⟨h, hn, ha⟩⟩

/-- No sequence begins with less than no open blocks. -/
theorem EndsAt.nonneg {n : Int} {ms : List Mark} (h : EndsAt n ms) : 0 ≤ n := by
  have hn := h.2 [] ms rfl
  simpa using hn

/-- The empty sequence ends where no block is open. -/
theorem endsAt_nil_iff {n : Int} : EndsAt n [] ↔ n = 0 := by
  constructor
  · rintro ⟨h, -⟩
    simpa using h
  · rintro rfl
    refine ⟨rfl, fun p q hpq => ?_⟩
    obtain ⟨rfl, -⟩ := List.append_eq_nil_iff.1 hpq.symm
    exact Int.le_refl 0

/-- One mark changes the number of open blocks for the `else` tags after it. -/
theorem elsesAt_cons_iff {n : Int} {m : Mark} {ms : List Mark} :
    ElsesAt n (m :: ms) ↔ (m = .splits → 0 < n) ∧ ElsesAt (n + m.weight) ms := by
  constructor
  · intro h
    refine ⟨fun hm => ?_, fun p q hpq => ?_⟩
    · have hn := h [] ms (by rw [hm]; rfl)
      simpa using hn
    · have hp := h (m :: p) q (by rw [hpq]; rfl)
      rw [depth_cons] at hp
      omega
  · rintro ⟨hn, h⟩ p q hpq
    rcases p with _ | ⟨m', p⟩
    · obtain ⟨rfl, -⟩ : m = .splits ∧ ms = q := by simpa using hpq
      simpa using hn rfl
    · obtain ⟨rfl, hms⟩ : m = m' ∧ ms = p ++ .splits :: q := by simpa using hpq
      have hp := h p q hms
      rw [depth_cons]
      omega

/-- There is no `else` in the empty sequence. -/
theorem elsesAt_nil (n : Int) : ElsesAt n [] := by
  intro p q hpq
  simp at hpq

/-- The blocks that a sequence leaves open are open for what follows it. -/
theorem elsesAt_append_iff {n : Int} {ms ns : List Mark} :
    ElsesAt n (ms ++ ns) ↔ ElsesAt n ms ∧ ElsesAt (n + depth ms) ns := by
  induction ms generalizing n with
  | nil => simp [elsesAt_nil]
  | cons m ms ih =>
    rw [List.cons_append, elsesAt_cons_iff, elsesAt_cons_iff, ih, depth_cons, and_assoc,
      Int.add_assoc]

/-! ## Deciding by counting -/

/-- Whether a sequence closes all open blocks is found by counting from mark to mark. -/
instance decidableEndsAt : (n : Int) → (ms : List Mark) → Decidable (EndsAt n ms)
  | _, [] => decidable_of_iff _ endsAt_nil_iff.symm
  | n, m :: ms =>
    haveI := decidableEndsAt (n + m.weight) ms
    decidable_of_iff _ endsAt_cons_iff.symm

/-- Whether every `else` stands within an open block is found by counting from mark to mark. -/
instance decidableElsesAt : (n : Int) → (ms : List Mark) → Decidable (ElsesAt n ms)
  | n, [] => isTrue (elsesAt_nil n)
  | n, m :: ms =>
    haveI := decidableElsesAt (n + m.weight) ms
    decidable_of_iff _ elsesAt_cons_iff.symm

/-- Whether a sequence is balanced is found by counting from zero. -/
instance decidableBalanced (ms : List Mark) : Decidable (Balanced ms) :=
  decidable_of_iff _ balanced_iff.symm

/-- Whether every `else` is nested is found by counting from zero. -/
instance decidableElsesNested (ms : List Mark) : Decidable (ElsesNested ms) :=
  decidable_of_iff _ elsesNested_iff.symm

/-! ## Putting balanced sequences together -/

/-- The empty sequence is balanced. -/
theorem balanced_nil : Balanced [] := balanced_iff.2 (endsAt_nil_iff.2 rfl)

/-- Balanced sequences may follow one another. -/
theorem Balanced.append {ms ns : List Mark} (hm : Balanced ms) (hn : Balanced ns) :
    Balanced (ms ++ ns) := by
  refine balanced_iff.2 ⟨?_, aboveAt_append_iff.2 ⟨(balanced_iff.1 hm).2, ?_⟩⟩
  · rw [depth_append, hm.settled, hn.settled]
    rfl
  · rw [hm.settled]
    exact (balanced_iff.1 hn).2

/-- An `else` keeps the balance. -/
theorem Balanced.splits {ms : List Mark} (h : Balanced ms) : Balanced (.splits :: ms) :=
  balanced_iff.2 (endsAt_cons_iff.2 ⟨Int.le_refl 0, balanced_iff.1 h⟩)

/-- With more open blocks there is more to close. -/
theorem AboveAt.mono {n k : Int} {ms : List Mark} (h : AboveAt n ms) (hnk : n ≤ k) :
    AboveAt k ms := by
  intro p q hpq
  have hp := h p q hpq
  omega

/-- A block with a balanced content, before a balanced sequence. -/
theorem Balanced.block {ms ns : List Mark} (hm : Balanced ms) (hn : Balanced ns) :
    Balanced (.opens :: ms ++ .closes :: ns) := by
  have hclose : EndsAt 1 (.closes :: ns) := endsAt_cons_iff.2 ⟨by decide, balanced_iff.1 hn⟩
  refine balanced_iff.2 (endsAt_cons_iff.2 ⟨Int.le_refl 0, ?_, aboveAt_append_iff.2 ⟨?_, ?_⟩⟩)
  · -- What the opener adds the closer takes away.
    have h := hclose.1
    show 1 + depth (ms ++ .closes :: ns) = 0
    rw [depth_append, hm.settled]
    omega
  · exact (balanced_iff.1 hm).2.mono (by decide)
  · rw [hm.settled]
    exact hclose.2

/-- What is nested in two balanced sequences is nested in both together. -/
theorem ElsesNested.append {ms ns : List Mark} (hm : Balanced ms) (hme : ElsesNested ms)
    (hn : ElsesNested ns) : ElsesNested (ms ++ ns) := by
  refine elsesNested_iff.2 (elsesAt_append_iff.2 ⟨elsesNested_iff.1 hme, ?_⟩)
  rw [hm.settled]
  exact elsesNested_iff.1 hn

/-- The `else` tags within a block do not count outside. -/
theorem ElsesNested.block {ms ns : List Mark} (hm : Balanced ms) (hn : ElsesNested ns) :
    ElsesNested (.opens :: ms ++ .closes :: ns) := by
  -- The opener adds one to all depths within the block, and these are never negative.
  have hinside : ElsesAt 1 ms := by
    intro p q hpq
    have hp := hm.nonneg p (.splits :: q) hpq
    omega
  refine elsesNested_iff.2 (elsesAt_cons_iff.2 ⟨nofun, elsesAt_append_iff.2 ⟨hinside, ?_⟩⟩)
  rw [hm.settled]
  exact elsesAt_cons_iff.2 ⟨nofun, elsesNested_iff.1 hn⟩

/-! ## Counting along a text -/

/-- The mark at the first character counts. -/
theorem depth_marks_cons (d : Directive) (c : Char) (t : Text) :
    depth (marks d (c :: t)) = Mark.weightAt d (c :: t) + depth (marks d t) := by
  unfold Mark.weightAt
  rw [marks]
  rcases Mark.atStart? d (c :: t) with _ | m
  · simp
  · simp

/-- The mark at the first character changes the number of open blocks for the rest. -/
theorem aboveAt_marks_cons_iff {d : Directive} {n : Int} {c : Char} {t : Text} (hn : 0 ≤ n) :
    AboveAt n (marks d (c :: t)) ↔ AboveAt (n + Mark.weightAt d (c :: t)) (marks d t) := by
  unfold Mark.weightAt
  rw [marks]
  rcases Mark.atStart? d (c :: t) with _ | m
  · simp
  · simp [aboveAt_cons_iff, hn]

/-- The mark at the first character changes the number of open blocks for the rest. -/
theorem endsAt_marks_cons_iff {d : Directive} {n : Int} {c : Char} {t : Text} (hn : 0 ≤ n) :
    EndsAt n (marks d (c :: t)) ↔ EndsAt (n + Mark.weightAt d (c :: t)) (marks d t) := by
  unfold Mark.weightAt
  rw [marks]
  rcases Mark.atStart? d (c :: t) with _ | m
  · simp
  · simp [endsAt_cons_iff, hn]

/-- The mark at the first character changes the number of open blocks for the rest. -/
theorem elsesAt_marks_cons_iff {d : Directive} {n : Int} {c : Char} {t : Text} :
    ElsesAt n (marks d (c :: t)) ↔ (Mark.atStart? d (c :: t) = some .splits → 0 < n) ∧
      ElsesAt (n + Mark.weightAt d (c :: t)) (marks d t) := by
  unfold Mark.weightAt
  rw [marks]
  rcases Mark.atStart? d (c :: t) with _ | m
  · simp
  · simp [elsesAt_cons_iff]

end Stencil
