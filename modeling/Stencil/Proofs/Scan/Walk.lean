import Stencil.Proofs.Scan.Opener

/-!
# From mark to mark

`splitCloser?` and `splitElse?` look at every character. A reader that goes from one mark to the
next sees the same: a text that avoids the marks is passed over (`splitCloser?_append`,
`splitElse?_append`), and a mark changes the number of open blocks by its weight
(`splitCloser?_mark`, `splitElse?_mark`), unless it ends the search.
-/

namespace Stencil

namespace Text

/-- An inert text avoids. -/
theorem Inert.avoids {w p : Text} (h : Inert w p) (s : Text) : Avoids w p s := by
  induction p with
  | nil => exact avoids_nil _ _
  | cons c p ih =>
    obtain ⟨hc, hp⟩ := h.of_cons
    exact avoids_cons_iff.2 ⟨hc s, ih hp⟩

/-- What begins nowhere with more text behind begins nowhere without it. -/
theorem Avoids.shorten {w p s : Text} (h : Avoids w p s) : Avoids w p [] := by
  intro a ha
  rw [List.append_nil] at ha
  exact h a (ha.trans (List.prefix_append _ _))

end Text

/-- A text avoids all marks of a kind, where another text follows it. -/
def Directive.Skips (d : Directive) (p s : Text) : Prop :=
  ∀ m ∈ Mark.all d, Text.Avoids (m.text d) p s

namespace Directive

variable {d : Directive} {p s : Text}

/-- What a kind ignores it skips. -/
theorem Ignores.skips (h : d.Ignores p) (s : Text) : d.Skips p s := fun m hm => (h m hm).avoids s

/-- What is skipped with more text behind is skipped without it. -/
theorem Skips.shorten (h : d.Skips p s) : d.Skips p [] := fun m hm => (h m hm).shorten

/-- Before a mark it does not matter what else follows. -/
theorem Skips.before_mark {m : Mark} (h : d.Skips p (m.text d ++ s)) (s' : Text) :
    d.Skips p (m.text d ++ s') := by
  have hstart (s : Text) : tagStart <+: m.text d ++ s :=
    (Mark.tagStart_prefix_text d m).trans (List.prefix_append _ _)
  exact fun m' hm' => (h m' hm').of_tagStart (Mark.tagLike_text d m') (hstart s) (hstart s')

/-- At the first character of a skipped text no mark stands, and the rest is skipped. -/
theorem skips_cons_iff {c : Char} :
    d.Skips (c :: p) s ↔ (∀ m ∈ Mark.all d, ¬ m.text d <+: c :: (p ++ s)) ∧ d.Skips p s := by
  simp only [Skips, Text.avoids_cons_iff]
  exact ⟨fun h => ⟨fun m hm => (h m hm).1, fun m hm => (h m hm).2⟩,
    fun h m hm => ⟨h.1 m hm, h.2 m hm⟩⟩

/-- Where a kind skips a character, nothing is opened or closed. -/
theorem Skips.weightAt_eq_zero {c : Char} (h : d.Skips (c :: p) s) :
    Mark.weightAt d (c :: (p ++ s)) = 0 := by
  have hno := (skips_cons_iff.1 h).1
  exact Mark.weightAt_eq_zero (hno .opens (Mark.opens_mem_all d))
    (hno .closes (Mark.closes_mem_all d))

end Directive

/-- After the first character of a mark no mark begins within it. -/
theorem Mark.exists_text_eq_cons (d : Directive) (m : Mark) :
    ∃ c v, m.text d = c :: v ∧ d.Ignores v := by
  obtain ⟨c, v, htext, hv⟩ := tagLike_text d m
  exact ⟨'{', '{' :: c :: v, htext, fun m' _ => (tagLike_text d m').inert_brace hv⟩

/-! ## The search for the closer -/

/-- A skipped text belongs to the first part. -/
theorem splitCloser?_append {d : Directive} {p s : Text} (h : d.Skips p s) (n : Nat) :
    splitCloser? d n (p ++ s) = (splitCloser? d n s).map fun (a, b) => (p ++ a, b) := by
  induction p with
  | nil => simp
  | cons c p ih =>
    obtain ⟨hno, hp⟩ := Directive.skips_cons_iff.1 h
    have hclose : ¬ d.closer <+: c :: (p ++ s) := hno .closes (Mark.closes_mem_all d)
    rcases splitCloser?_cons d n c (p ++ s) with ⟨-, rest, hrest, -⟩ | ⟨n', hn', -, hsplit⟩
    · exact absurd ⟨rest, hrest.symm⟩ hclose
    · -- No mark stands here, so the number of open blocks stays.
      rw [h.weightAt_eq_zero, Int.add_zero, Int.natCast_inj] at hn'
      rw [List.cons_append, hsplit, hn', ih hp, Option.map_map]
      rfl

/-- A mark that does not end the search changes the number of open blocks. -/
theorem splitCloser?_mark {d : Directive} {m : Mark} {n n' : Nat} (hm : m ∈ Mark.all d)
    (hn : (n' : Int) = n + m.weight) (s : Text) : splitCloser? d n (m.text d ++ s) =
      (splitCloser? d n' s).map fun (a, b) => (m.text d ++ a, b) := by
  obtain ⟨c, v, htext, hv⟩ := Mark.exists_text_eq_cons d m
  have hstands : m.text d <+: c :: (v ++ s) := ⟨s, by rw [htext]; rfl⟩
  rcases splitCloser?_cons d n c (v ++ s) with ⟨rfl, rest, hrest, -⟩ | ⟨k, hk, -, hsplit⟩
  · -- The closer would leave fewer open blocks than none.
    obtain rfl : m = .closes := Mark.eq_of_both_begin hstands ⟨rest, hrest.symm⟩
    simp [Mark.weight] at hn
  · rw [Mark.weightAt_of_prefix hm hstands, ← hn, Int.natCast_inj] at hk
    rw [htext, List.cons_append, hsplit, hk, splitCloser?_append (hv.skips s), Option.map_map]
    rfl

/-- The closer of the last open block ends the search. -/
theorem splitCloser?_closer (d : Directive) (s : Text) :
    splitCloser? d 0 (d.closer ++ s) = some ([], s) :=
  splitCloser?_eq_some_iff.2 ⟨rfl, endsAt_nil_iff.2 rfl⟩

/-! ## The search for the `else` tag -/

/-- A skipped text belongs to the first part. -/
theorem splitElse?_append {p s : Text} (h : Directive.cond.Skips p s) (n : Nat) :
    splitElse? n (p ++ s) = (splitElse? n s).map fun (a, b) => (p ++ a, b) := by
  induction p with
  | nil => simp
  | cons c p ih =>
    obtain ⟨hno, hp⟩ := Directive.skips_cons_iff.1 h
    have hnone (m : Mark) (hm : m ∈ Mark.all .cond) :
        Text.after? (m.text .cond) (c :: (p ++ s)) = none := Text.after?_eq_none_iff.2 (hno m hm)
    have hopen := hnone .opens (by decide)
    have hclose := hnone .closes (by decide)
    have helse := hnone .splits (by decide)
    simp only [Mark.text] at hopen hclose helse
    simp only [List.cons_append, splitElse?, hopen, hclose, helse, ih hp, Option.map_map]
    rfl

/-- A mark that does not end the search changes the number of open blocks. -/
theorem splitElse?_mark {m : Mark} {n n' : Nat} (hn : (n' : Int) = n + m.weight)
    (hsplits : m = .splits → n ≠ 0) (s : Text) : splitElse? n (m.text .cond ++ s) =
      (splitElse? n' s).map fun (a, b) => (m.text .cond ++ a, b) := by
  obtain ⟨c, v, htext, hv⟩ := Mark.exists_text_eq_cons .cond m
  have hstands : m.text .cond <+: c :: (v ++ s) := ⟨s, by rw [htext]; rfl⟩
  have hyes := Text.isSome_after?_iff.2 hstands
  have hno (m' : Mark) (hne : m' ≠ m) :
      ¬ (Text.after? (m'.text .cond) (c :: (v ++ s))).isSome = true :=
    fun h => hne (Mark.eq_of_both_begin (Text.isSome_after?_iff.1 h) hstands)
  rw [htext, List.cons_append]
  conv => lhs; unfold splitElse?
  cases m with
  | opens =>
    obtain rfl : n' = n + 1 := by
      simp only [Mark.weight] at hn
      omega
    simp only [Mark.text] at hyes
    rw [if_pos hyes]
    simp only [splitElse?_append (hv.skips s), Option.map_map]
    rfl
  | closes =>
    obtain rfl : n' = n - 1 := by
      simp only [Mark.weight] at hn
      omega
    have hopen := hno .opens (by decide)
    simp only [Mark.text] at hyes hopen
    rw [if_neg hopen, if_pos hyes]
    simp only [splitElse?_append (hv.skips s), Option.map_map]
    rfl
  | splits =>
    -- Within a nested block the tag is text like any other.
    obtain rfl : n' = n := by
      simp only [Mark.weight] at hn
      omega
    obtain ⟨k, rfl⟩ := Nat.exists_eq_succ_of_ne_zero (hsplits rfl)
    obtain ⟨rest, hrest⟩ := Option.isSome_iff_exists.1 hyes
    have hopen := hno .opens (by decide)
    have hclose := hno .closes (by decide)
    simp only [Mark.text] at hrest hopen hclose
    rw [if_neg hopen, if_neg hclose, hrest]
    simp only [splitElse?_append (hv.skips s), Option.map_map]
    rfl

/-- The `else` tag outside nested blocks ends the search. -/
theorem splitElse?_elseTag (s : Text) : splitElse? 0 (elseTag ++ s) = some ([], s) := rfl

end Stencil
