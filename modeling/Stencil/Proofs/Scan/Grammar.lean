import Stencil.Proofs.Scan.Marks

/-!
# What a scan finds

A block of a kind stands in a template as the grammar says: the first opener of the kind, the rest
of its tag, a body in which the marks are balanced, for an `@if` perhaps an `else` tag and a second
such part, and the closer (`Block.FirstIn`). `scan` finds a block exactly if one stands there, and
then that one; a template has no more than one (`scan_spec`).

Each of the four searches of a scan is described by itself first: `splitTag?_eq_some_iff`,
`splitCloser?_eq_some_iff`, `splitElse?_eq_some_iff` and `IsParts.splitParts_eq`.
-/

namespace Stencil

/-! ## The tag of an opener -/

/-- What may stand between the beginning of an opener and the end of its tag. For an `@if` it is
free of line feeds, and the tag ends at the first end of a tag; for an `#each` it is not empty and
holds no brace that closes. -/
def Directive.IsInner : Directive → Text → Prop
  | cond, inner => Text.FirstAt tagEnd (inner ++ tagEnd) inner ∧ '\n' ∉ inner
  | each, inner => inner ≠ [] ∧ '}' ∉ inner

/-- A text up to the first brace that closes is split off if two such braces stand there. -/
theorem splitBraces?_eq_some_iff {t inner rest : Text} :
    splitBraces? t = some (inner, rest) ↔
      t = inner ++ tagEnd ++ rest ∧ Directive.each.IsInner inner := by
  constructor
  · intro h
    refine ⟨splitBraces?_eq_append h, ?_⟩
    simp only [splitBraces?] at h
    split at h
    · cases h
    · next hne =>
      obtain ⟨r, -, hr⟩ := Option.map_eq_some_iff.1 h
      obtain ⟨rfl, rfl⟩ := Prod.mk.inj hr
      refine ⟨hne, fun hmem => ?_⟩
      have hall := List.all_eq_true.1 (List.all_takeWhile (p := (· ≠ '}')) (l := t)) _ hmem
      simp at hall
  · rintro ⟨rfl, hne, hbrace⟩
    have hall : ∀ c ∈ inner, decide (c ≠ '}') = true := by
      intro c hc
      have hc' : c ≠ '}' := fun h => hbrace (h ▸ hc)
      simpa using hc'
    have htake : (inner ++ tagEnd ++ rest).takeWhile (· ≠ '}') = inner := by
      rw [List.append_assoc, List.takeWhile_append_of_pos hall]
      simp [tagEnd]
    have hdrop : (inner ++ tagEnd ++ rest).dropWhile (· ≠ '}') = tagEnd ++ rest := by
      rw [List.append_assoc, List.dropWhile_append_of_pos hall]
      simp [tagEnd]
    simp only [splitBraces?, htake, hdrop, if_neg hne, Text.after?_append, Option.map_some]

/-- `splitTag?` splits a text at the end of the tag. -/
theorem splitTag?_eq_some_iff {d : Directive} {t inner rest : Text} :
    splitTag? d t = some (inner, rest) ↔ t = inner ++ tagEnd ++ rest ∧ d.IsInner inner := by
  cases d with
  | each => exact splitBraces?_eq_some_iff
  | cond =>
    simp only [splitTag?]
    constructor
    · intro h
      split at h
      · next inner' rest' hcut =>
        split at h
        · cases h
        · next hline =>
          cases h
          obtain ⟨rfl, hfirst⟩ := Text.cut?_eq_some_iff.1 hcut
          exact ⟨rfl, Text.firstAt_append_iff.1 hfirst, hline⟩
      · cases h
    · rintro ⟨rfl, hfirst, hline⟩
      rw [Text.cut?_eq_some_iff.2 ⟨rfl, Text.firstAt_append_iff.2 hfirst⟩]
      simp only [if_neg hline]

/-! ## The closer and the `else` tag -/

/-- At each character the text is split, or the character belongs to the first part and its mark
changes the number of open blocks. -/
theorem splitCloser?_cons (d : Directive) (n : Nat) (c : Char) (t : Text) :
    (n = 0 ∧ ∃ rest, c :: t = d.closer ++ rest ∧ splitCloser? d n (c :: t) = some ([], rest)) ∨
      ∃ n' : Nat, (n' : Int) = n + Mark.weightAt d (c :: t) ∧ (d.closer <+: c :: t → n ≠ 0) ∧
        splitCloser? d n (c :: t) = (splitCloser? d n' t).map fun (a, b) => (c :: a, b) := by
  simp only [splitCloser?]
  by_cases hopen : d.opener <+: c :: t
  · right
    refine ⟨n + 1, ?_, fun hclose => ?_, if_pos (Text.isSome_after?_iff.2 hopen)⟩
    · rw [Mark.weightAt_of_prefix (Mark.opens_mem_all d) hopen]
      rfl
    · have hmark : Mark.opens = Mark.closes := Mark.eq_of_both_begin hopen hclose
      cases hmark
  · rw [if_neg fun h => hopen (Text.isSome_after?_iff.1 h)]
    rcases hclose : Text.after? d.closer (c :: t) with _ | rest
    · right
      have hno : ¬ d.closer <+: c :: t := Text.after?_eq_none_iff.1 hclose
      refine ⟨n, ?_, fun h => absurd h hno, rfl⟩
      rw [Mark.weightAt_eq_zero hopen hno, Int.add_zero]
    · have hrest : c :: t = d.closer ++ rest := Text.after?_eq_some_iff.1 hclose
      rcases n with _ | n
      · exact .inl ⟨rfl, rest, hrest, rfl⟩
      · right
        refine ⟨n, ?_, fun _ => Nat.succ_ne_zero n, rfl⟩
        rw [Mark.weightAt_of_prefix (Mark.closes_mem_all d) ⟨rest, hrest.symm⟩]
        show (n : Int) = ((n + 1 : Nat) : Int) + -1
        omega

/-- `splitCloser?` splits a text at the closer after which no block is open. -/
theorem splitCloser?_eq_some_iff {d : Directive} {n : Nat} {t a b : Text} :
    splitCloser? d n t = some (a, b) ↔ t = a ++ d.closer ++ b ∧ EndsAt n (marks d a) := by
  induction t generalizing n a with
  | nil =>
    have hne : d.closer ≠ [] := Mark.text_ne_nil d .closes
    constructor
    · intro h
      simp [splitCloser?] at h
    · rintro ⟨h, -⟩
      obtain ⟨hc, -⟩ := List.append_eq_nil_iff.1 h.symm
      exact absurd (List.append_eq_nil_iff.1 hc).2 hne
  | cons c t ih =>
    have hs : tagStart <+: d.closer ++ b :=
      (Mark.tagStart_prefix_text d .closes).trans (List.prefix_append _ _)
    have hweight (a' : Text) (ht : t = a' ++ d.closer ++ b) :
        Mark.weightAt d (c :: t) = Mark.weightAt d (c :: a') := by
      rw [ht, List.append_assoc, Mark.weightAt_append hs]
    rcases splitCloser?_cons d n c t with ⟨rfl, rest, hrest, hsplit⟩ | ⟨n', hn', hnil, hsplit⟩
    · rw [hsplit, Option.some.injEq, Prod.mk.injEq]
      constructor
      · rintro ⟨rfl, rfl⟩
        exact ⟨hrest, endsAt_nil_iff.2 rfl⟩
      · rintro ⟨ht, hends⟩
        rcases a with _ | ⟨c', a⟩
        · rw [hrest] at ht
          exact ⟨rfl, by simpa using ht⟩
        · -- The closer at the beginning would close a block that is not open.
          obtain ⟨rfl, ht'⟩ : c = c' ∧ t = a ++ d.closer ++ b := by simpa using ht
          have hclose := Mark.weightAt_of_prefix (Mark.closes_mem_all d) ⟨rest, hrest.symm⟩
          rw [endsAt_marks_cons_iff (Int.natCast_nonneg 0), ← hweight a ht', hclose] at hends
          exact absurd hends.nonneg (by decide)
    · rw [hsplit]
      simp only [Option.map_eq_some_iff, Prod.mk.injEq, Prod.exists]
      have hmarks (a' : Text) (ht : t = a' ++ d.closer ++ b) :
          EndsAt n (marks d (c :: a')) ↔ EndsAt n' (marks d a') := by
        rw [endsAt_marks_cons_iff (Int.natCast_nonneg n), hn', hweight a' ht]
      constructor
      · rintro ⟨a', b', h', rfl, rfl⟩
        obtain ⟨ht, hends⟩ := ih.1 h'
        exact ⟨by rw [ht]; simp, (hmarks a' ht).2 hends⟩
      · rintro ⟨ht, hends⟩
        rcases a with _ | ⟨c', a⟩
        · have hn : n = 0 := by exact_mod_cast endsAt_nil_iff.1 hends
          exact absurd hn (hnil ⟨b, by simpa using ht.symm⟩)
        · obtain ⟨rfl, ht'⟩ : c = c' ∧ t = a ++ d.closer ++ b := by simpa using ht
          exact ⟨a, b, ih.2 ⟨ht', (hmarks a ht').1 hends⟩, rfl, rfl⟩

/-- At each character the text is split, or the character belongs to the first part and its mark
changes the number of open blocks, which are never fewer than none. -/
theorem splitElse?_cons {n : Nat} {c : Char} {t : Text} (h : AboveAt n (marks .cond (c :: t))) :
    (n = 0 ∧ ∃ rest, c :: t = elseTag ++ rest ∧ splitElse? n (c :: t) = some ([], rest)) ∨
      ∃ n' : Nat, (n' : Int) = n + Mark.weightAt .cond (c :: t) ∧
        AboveAt n' (marks .cond t) ∧ (elseTag <+: c :: t → n ≠ 0) ∧
        splitElse? n (c :: t) = (splitElse? n' t).map fun (a, b) => (c :: a, b) := by
  have habove := (aboveAt_marks_cons_iff (Int.natCast_nonneg n)).1 h
  simp only [splitElse?]
  by_cases hopen : Directive.cond.opener <+: c :: t
  · right
    have hw := Mark.weightAt_of_prefix (Mark.opens_mem_all .cond) hopen
    rw [hw] at habove ⊢
    refine ⟨n + 1, rfl, habove, fun helse => ?_, if_pos (Text.isSome_after?_iff.2 hopen)⟩
    have hmark : Mark.opens = Mark.splits := Mark.eq_of_both_begin (d := .cond) hopen helse
    cases hmark
  · rw [if_neg fun h => hopen (Text.isSome_after?_iff.1 h)]
    by_cases hclose : Directive.cond.closer <+: c :: t
    · right
      have hw := Mark.weightAt_of_prefix (Mark.closes_mem_all .cond) hclose
      rw [hw] at habove ⊢
      have hpos : 0 ≤ (n : Int) + -1 := by simpa [Mark.weight] using habove [] _ rfl
      have hn : ((n - 1 : Nat) : Int) = n + Mark.closes.weight := by
        show ((n - 1 : Nat) : Int) = n + -1
        omega
      refine ⟨n - 1, hn, hn ▸ habove, fun helse => ?_, if_pos (Text.isSome_after?_iff.2 hclose)⟩
      have hmark : Mark.closes = Mark.splits := Mark.eq_of_both_begin (d := .cond) hclose helse
      cases hmark
    · rw [if_neg fun h => hclose (Text.isSome_after?_iff.1 h)]
      have hw := Mark.weightAt_eq_zero hopen hclose
      rw [hw, Int.add_zero] at habove
      rcases helse : Text.after? elseTag (c :: t) with _ | rest
      · right
        have hno : ¬ elseTag <+: c :: t := Text.after?_eq_none_iff.1 helse
        exact ⟨n, by rw [hw, Int.add_zero], habove, fun h => absurd h hno, rfl⟩
      · rcases n with _ | n
        · exact .inl ⟨rfl, rest, Text.after?_eq_some_iff.1 helse, rfl⟩
        · right
          exact ⟨n + 1, by rw [hw, Int.add_zero], habove, fun _ => Nat.succ_ne_zero n, rfl⟩

/-- `splitElse?` splits a text at the first `else` tag outside nested blocks. -/
theorem splitElse?_eq_some_iff {n : Nat} {t a b : Text} (h : AboveAt n (marks .cond t)) :
    splitElse? n t = some (a, b) ↔
      t = a ++ elseTag ++ b ∧ n + depth (marks .cond a) = 0 ∧ ElsesAt n (marks .cond a) := by
  induction t generalizing n a with
  | nil =>
    constructor
    · intro h
      simp [splitElse?] at h
    · rintro ⟨h, -⟩
      simp [elseTag] at h
  | cons c t ih =>
    have hs : tagStart <+: elseTag ++ b := ⟨_, rfl⟩
    rcases splitElse?_cons h with ⟨rfl, rest, hrest, hsplit⟩ | ⟨n', hn', habove, hnil, hsplit⟩
    · rw [hsplit, Option.some.injEq, Prod.mk.injEq]
      constructor
      · rintro ⟨rfl, rfl⟩
        exact ⟨hrest, rfl, elsesAt_nil _⟩
      · rintro ⟨ht, -, helses⟩
        rcases a with _ | ⟨c', a⟩
        · rw [hrest] at ht
          exact ⟨rfl, by simpa using ht⟩
        · -- The tag at the beginning would be within a nested block.
          obtain ⟨rfl, ht'⟩ : c = c' ∧ t = a ++ elseTag ++ b := by simpa using ht
          have hat : Mark.atStart? .cond (c :: a) = some .splits := by
            rw [← Mark.atStart?_append hs, ← List.append_assoc, ← ht']
            exact Mark.atStart?_eq_some_iff.2 ⟨by decide, rest, hrest.symm⟩
          exact absurd ((elsesAt_marks_cons_iff.1 helses).1 hat) (Int.lt_irrefl 0)
    · rw [hsplit]
      simp only [Option.map_eq_some_iff, Prod.mk.injEq, Prod.exists]
      have hmarks (a' : Text) (ht : t = a' ++ elseTag ++ b) :
          n + depth (marks .cond (c :: a')) = 0 ∧ ElsesAt n (marks .cond (c :: a')) ↔
            n' + depth (marks .cond a') = 0 ∧ ElsesAt n' (marks .cond a') := by
        have hw : Mark.weightAt .cond (c :: t) = Mark.weightAt .cond (c :: a') := by
          rw [ht, List.append_assoc, Mark.weightAt_append hs]
        have hpos (hat : Mark.atStart? .cond (c :: a') = some .splits) : 0 < (n : Int) := by
          rw [← Mark.atStart?_append hs, ← List.append_assoc, ← ht] at hat
          have hn := hnil (Mark.atStart?_eq_some_iff.1 hat).2
          omega
        rw [depth_marks_cons, elsesAt_marks_cons_iff, hn', hw, Int.add_assoc]
        constructor
        · rintro ⟨hd, -, he⟩
          exact ⟨hd, he⟩
        · rintro ⟨hd, he⟩
          exact ⟨hd, hpos, he⟩
      constructor
      · rintro ⟨a', b', h', rfl, rfl⟩
        obtain ⟨ht, hends⟩ := (ih habove).1 h'
        exact ⟨by rw [ht]; simp, (hmarks a' ht).2 hends⟩
      · rintro ⟨ht, hends⟩
        rcases a with _ | ⟨c', a⟩
        · have hn : n = 0 := by exact_mod_cast (by simpa using hends.1 : (n : Int) = 0)
          exact absurd hn (hnil ⟨b, by simpa using ht.symm⟩)
        · obtain ⟨rfl, ht'⟩ : c = c' ∧ t = a ++ elseTag ++ b := by simpa using ht
          exact ⟨a, b, (ih habove).2 ⟨ht', (hmarks a ht').1 hends⟩, rfl, rfl⟩

/-- `splitElse?` fails on the texts in which every `else` tag is within a nested block. -/
theorem splitElse?_eq_none_iff {n : Nat} {t : Text} (h : AboveAt n (marks .cond t)) :
    splitElse? n t = none ↔ ElsesAt n (marks .cond t) := by
  induction t generalizing n with
  | nil => exact ⟨fun _ => elsesAt_nil _, fun _ => rfl⟩
  | cons c t ih =>
    rcases splitElse?_cons h with ⟨rfl, rest, hrest, hsplit⟩ | ⟨n', hn', habove, hnil, hsplit⟩
    · rw [hsplit]
      refine ⟨(fun hnone => by cases hnone), fun helses => ?_⟩
      have hat : Mark.atStart? .cond (c :: t) = some .splits :=
        Mark.atStart?_eq_some_iff.2 ⟨by decide, rest, hrest.symm⟩
      exact absurd ((elsesAt_marks_cons_iff.1 helses).1 hat) (Int.lt_irrefl 0)
    · rw [hsplit, Option.map_eq_none_iff, ih habove, elsesAt_marks_cons_iff, ← hn']
      refine ⟨fun helses => ⟨fun hat => ?_, helses⟩, And.right⟩
      have hn := hnil (Mark.atStart?_eq_some_iff.1 hat).2
      omega

/-! ## The parts of a block -/

/-- What a text between an opener and its closer is made of: a body in which the marks are balanced
and, for an `@if`, perhaps an `else` tag and another such part. The `else` tags of the body of an
`@if` all belong to nested blocks. -/
structure IsParts (d : Directive) (content body : Text) (elseBody : Option Text) : Prop where
  content_eq : content = body ++ (elseBody.map (elseTag ++ ·)).getD []
  body_balanced : Balanced (marks d body)
  else_balanced : ∀ e, elseBody = some e → Balanced (marks d e)
  elses_nested : d = .cond → ElsesNested (marks d body)
  no_else : d = .each → elseBody = none

/-- The marks of a text with an `else` tag in it. -/
theorem marks_append_else (a b : Text) :
    marks .cond (a ++ elseTag ++ b) = marks .cond a ++ .splits :: marks .cond b := by
  have hs : tagStart <+: elseTag ++ b := ⟨_, rfl⟩
  have hsplits : marks .cond (elseTag ++ b) = .splits :: marks .cond b :=
    marks_text_append (d := .cond) (m := .splits) (by decide) b
  rw [List.append_assoc, marks_append hs, hsplits]

/-- Two balanced parts make up a balanced whole. -/
theorem IsParts.endsAt {d : Directive} {content body : Text} {elseBody : Option Text}
    (h : IsParts d content body elseBody) : EndsAt 0 (marks d content) := by
  obtain ⟨rfl, hbody, helse, -, hnone⟩ := h
  rcases elseBody with _ | e
  · simpa using balanced_iff.1 hbody
  · cases d with
    | each => cases hnone rfl
    | cond =>
      have hcontent : body ++ (some (elseTag ++ e)).getD [] = body ++ elseTag ++ e := by simp
      obtain ⟨hd, ha⟩ := balanced_iff.1 hbody
      obtain ⟨hde, hae⟩ := balanced_iff.1 (helse e rfl)
      rw [Option.map_some, hcontent, marks_append_else]
      refine ⟨?_, aboveAt_append_iff.2 ⟨ha, ?_⟩⟩
      · rw [depth_append, depth_cons]
        simp only [Mark.weight]
        omega
      · rw [hd, aboveAt_cons_iff]
        exact ⟨Int.le_refl 0, hae⟩

/-- A text has no parts but those that `splitParts` gives. -/
theorem IsParts.splitParts_eq {d : Directive} {content body : Text} {elseBody : Option Text}
    (h : IsParts d content body elseBody) : splitParts d content = (body, elseBody) := by
  have habove : AboveAt 0 (marks d content) := h.endsAt.2
  obtain ⟨rfl, hbody, -, helses, hnone⟩ := h
  cases d with
  | each =>
    obtain rfl := hnone rfl
    simp [splitParts]
  | cond =>
    have hnested := elsesNested_iff.1 (helses rfl)
    rcases elseBody with _ | e
    · have hcontent : body ++ (none.map (elseTag ++ ·)).getD [] = body := by simp
      rw [hcontent] at habove ⊢
      simp only [splitParts, (splitElse?_eq_none_iff (n := 0) habove).2 hnested]
    · have hcontent : body ++ ((some e).map (elseTag ++ ·)).getD [] = body ++ elseTag ++ e := by
        simp
      have hdepth : 0 + depth (marks .cond body) = 0 := by rw [hbody.settled, Int.zero_add]
      rw [hcontent] at habove ⊢
      simp only [splitParts, (splitElse?_eq_some_iff (n := 0) habove).2 ⟨rfl, hdepth, hnested⟩]

/-- `splitParts` gives the parts of a text in which the marks are balanced. -/
theorem isParts_splitParts {d : Directive} {content : Text} (h : EndsAt 0 (marks d content)) :
    IsParts d content (splitParts d content).1 (splitParts d content).2 := by
  have hnone (e : Text) : none ≠ some e := nofun
  have hkind : Directive.cond ≠ .each := by decide
  cases d with
  | each =>
    exact ⟨by simp [splitParts], balanced_iff.2 h, fun e he => absurd he (hnone e),
      fun hd => absurd hd.symm hkind, fun _ => rfl⟩
  | cond =>
    simp only [splitParts]
    rcases hsplit : splitElse? 0 content with _ | ⟨a, b⟩
    · have helses := (splitElse?_eq_none_iff (n := 0) h.2).1 hsplit
      exact ⟨by simp, balanced_iff.2 h, fun e he => absurd he (hnone e),
        fun _ => elsesNested_iff.2 helses, fun hd => absurd hd hkind⟩
    · obtain ⟨rfl, hdepth, helses⟩ := (splitElse?_eq_some_iff (n := 0) h.2).1 hsplit
      obtain ⟨hd, ha⟩ := h
      rw [marks_append_else] at hd ha
      obtain ⟨hbody, hrest⟩ := aboveAt_append_iff.1 ha
      have hsettled : depth (marks .cond a) = 0 := by simpa using hdepth
      rw [hsettled] at hrest
      have helse : EndsAt 0 (marks .cond b) := by
        rw [depth_append, depth_cons, hsettled] at hd
        exact ⟨by simpa [Mark.weight] using hd, (aboveAt_cons_iff.1 hrest).2⟩
      refine ⟨by simp, balanced_iff.2 ⟨hdepth, hbody⟩, ?_, fun _ => elsesNested_iff.2 helses,
        fun hd => absurd hd hkind⟩
      rintro e ⟨⟩
      exact balanced_iff.2 helse

/-! ## The first block of a template -/

/-- A block is the first of its kind in a template, and complete. -/
structure Block.FirstIn (b : Block) (d : Directive) (t : Text) : Prop where
  kind : b.directive = d
  text : t = b.before ++ (d.opener ++ b.inner ++ tagEnd) ++ b.content ++ d.closer ++ b.after
  first : Text.FirstAt d.opener t b.before
  tag : d.IsInner b.inner
  parts : IsParts d b.content b.body b.elseBody

/-- `scan` finds a block exactly if one stands in the template. -/
theorem scan_eq_found_iff {d : Directive} {t : Text} {b : Block} :
    scan d t = .found b ↔ b.FirstIn d t := by
  constructor
  · intro h
    unfold scan at h
    split at h
    · cases h
    · next before rest hcut =>
      split at h
      · cases h
      · next inner rest' htag =>
        split at h
        · cases h
        · next content after hclose =>
          obtain rfl := Scan.found.inj h
          obtain ⟨ht, hfirst⟩ := Text.cut?_eq_some_iff.1 hcut
          obtain ⟨rfl, hinner⟩ := splitTag?_eq_some_iff.1 htag
          obtain ⟨rfl, hends⟩ := splitCloser?_eq_some_iff.1 hclose
          have hcontent := content_splitParts d before inner content after
          refine ⟨rfl, ?_, hfirst, hinner, ?_⟩
          · rw [ht, hcontent]
            simp
          · rw [hcontent]
            exact isParts_splitParts hends
  · rintro ⟨rfl, ht, hfirst, hinner, hparts⟩
    have hcut : Text.cut? b.directive.opener t = some (b.before,
        b.inner ++ tagEnd ++ (b.content ++ b.directive.closer ++ b.after)) :=
      Text.cut?_eq_some_iff.2 ⟨by rw [ht]; simp, hfirst⟩
    have htag := splitTag?_eq_some_iff.2 ⟨(rfl : b.inner ++ tagEnd ++
      (b.content ++ b.directive.closer ++ b.after) = _), hinner⟩
    have hclose : splitCloser? b.directive 0 (b.content ++ b.directive.closer ++ b.after) =
        some (b.content, b.after) :=
      splitCloser?_eq_some_iff.2 ⟨rfl, hparts.endsAt⟩
    unfold scan
    simp only [hcut, htag, hclose, hparts.splitParts_eq]

/-- The first block of a template is the same whatever follows it. -/
theorem Block.FirstIn.with_after {b : Block} {d : Directive} {t : Text} (h : b.FirstIn d t)
    (after : Text) : Block.FirstIn { b with after := after } d (b.before ++ b.source ++ after) := by
  obtain ⟨rfl, ht, hfirst, hinner, hparts⟩ := h
  have hsame (s : Text) : b.before ++ b.source ++ s =
      b.before ++ b.directive.opener ++
        (b.inner ++ tagEnd ++ b.content ++ b.directive.closer ++ s) := by
    simp [Block.source]
  have htext : t = b.before ++ b.source ++ b.after := by
    rw [ht]
    simp [Block.source]
  refine ⟨rfl, ?_, ?_, hinner, hparts⟩
  · show b.before ++ b.source ++ after = b.before ++ (b.directive.opener ++ b.inner ++ tagEnd) ++
      b.content ++ b.directive.closer ++ after
    simp [Block.source]
  · show Text.FirstAt b.directive.opener (b.before ++ b.source ++ after) b.before
    rw [htext, hsame, Text.firstAt_append_iff] at hfirst
    rw [hsame, Text.firstAt_append_iff]
    exact hfirst

/-- `scan` finds no opener exactly if there is none. -/
theorem scan_eq_absent_iff {d : Directive} {t : Text} : scan d t = .absent ↔ ¬ d.opener <:+: t := by
  rw [← Text.cut?_eq_none_iff]
  unfold scan
  rcases Text.cut? d.opener t with _ | ⟨before, rest⟩
  · simp
  · simp only [reduceCtorEq, iff_false]
    split
    · simp
    · split <;> simp

/-- An opener without a closer that `scan` finds is the first. -/
theorem firstAt_of_scan_eq_unmatched {d : Directive} {t before : Text}
    (h : scan d t = .unmatched before) : Text.FirstAt d.opener t before := by
  unfold scan at h
  split at h
  · cases h
  · next before' rest hcut =>
    have hfirst := (Text.cut?_eq_some_iff.1 hcut).2
    split at h
    · cases h
      exact hfirst
    · split at h
      · cases h
        exact hfirst
      · cases h

/-- `scan` finds an opener without a closer exactly if no block stands there. -/
theorem scan_eq_unmatched_iff {d : Directive} {t before : Text} : scan d t = .unmatched before ↔
    Text.FirstAt d.opener t before ∧ ∀ b : Block, ¬ b.FirstIn d t := by
  constructor
  · intro h
    refine ⟨firstAt_of_scan_eq_unmatched h, fun b hb => ?_⟩
    rw [scan_eq_found_iff.2 hb] at h
    cases h
  · rintro ⟨hfirst, hno⟩
    rcases h : scan d t with _ | before' | b
    · have hin : d.opener <:+: t := by
        obtain ⟨s, hs⟩ := hfirst.1
        exact ⟨before, s, hs⟩
      exact absurd hin (scan_eq_absent_iff.1 h)
    · rw [(firstAt_of_scan_eq_unmatched h).unique hfirst]
    · exact absurd (scan_eq_found_iff.1 h) (hno b)

/-- `scan` finds a block exactly if one stands in the template, with the place of its first byte and
of the byte after its last, whatever follows the block. It finds no opener exactly if there is none,
and else gives the place of the first opener. -/
theorem scan_spec (d : Directive) (t : Text) :
    (∀ b : Block, scan d t = .found b ↔ b.FirstIn d t) ∧
      (∀ b : Block, b.FirstIn d t → b.expr = Text.trim b.inner ∧
        b.start = Text.utf8Length b.before ∧
        (∀ s, t = s ++ b.after → b.stop = Text.utf8Length s) ∧
        ∀ after, scan d (b.before ++ b.source ++ after) = .found { b with after := after }) ∧
      (scan d t = .absent ↔ ¬ d.opener <:+: t) ∧
      ∀ before, scan d t = .unmatched before ↔
        Text.FirstAt d.opener t before ∧ ∀ b : Block, ¬ b.FirstIn d t := by
  refine ⟨fun b => scan_eq_found_iff, fun b hb => ⟨rfl, rfl, fun s hs => ?_, fun after => ?_⟩,
    scan_eq_absent_iff, fun before => scan_eq_unmatched_iff⟩
  · have htext : s ++ b.after = b.before ++ b.source ++ b.after := by
      rw [← hs, hb.text, Block.source, hb.kind]
      simp
    rw [List.append_cancel_right htext, Text.utf8Length_append]
    rfl
  · exact scan_eq_found_iff.2 (hb.with_after after)

end Stencil
