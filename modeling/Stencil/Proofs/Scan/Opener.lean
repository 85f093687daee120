import Stencil.Proofs.Scan.Grammar
import Stencil.Render.Substitution

/-!
# The first opener

Where blocks are left, the first opener of either kind divides a text: what stands before it is
substituted, and the text from it on stays. `FirstOpener` says where it stands, and `splitOpener?`
finds it (`splitOpener?_eq_some_iff`).

A text avoids an opener if it begins nowhere in the text, with what follows. A scan passes over such
a text (`findBlock?_append`), and it looks at no text after the last brace that closes
(`findBlock?_append_of_notMem`).
-/

namespace Stencil

namespace Text

/-- `w` begins nowhere in `p`, where `s` follows `p`. -/
def Avoids (w p s : Text) : Prop := ∀ a, a ++ w <+: p ++ s → p.length ≤ a.length

/-- Nothing begins in the empty text. -/
theorem avoids_nil (w s : Text) : Avoids w [] s := fun _ _ => Nat.zero_le _

/-- At the first character and in the rest of the text `w` does not begin. -/
theorem avoids_cons_iff {w p s : Text} {c : Char} :
    Avoids w (c :: p) s ↔ ¬ w <+: c :: (p ++ s) ∧ Avoids w p s := by
  constructor
  · intro h
    refine ⟨fun hw => ?_, fun a ha => ?_⟩
    · exact absurd (h [] hw) (Nat.not_succ_le_zero _)
    · have hle := h (c :: a) (by simpa using ha)
      simpa using hle
  · rintro ⟨hc, hp⟩ a ha
    rcases a with _ | ⟨x, a⟩
    · exact absurd ha hc
    · have hle := hp a (by simpa using (List.cons_prefix_cons.1 ha).2)
      simpa using hle

/-- Two texts one after the other. -/
theorem avoids_append_iff {w p q s : Text} :
    Avoids w (p ++ q) s ↔ Avoids w p (q ++ s) ∧ Avoids w q s := by
  induction p with
  | nil => simp [avoids_nil]
  | cons c p ih =>
    rw [List.cons_append, avoids_cons_iff, avoids_cons_iff, ih, List.append_assoc, and_assoc]

/-- A text that nothing follows avoids what does not stand in it. -/
theorem avoids_iff_not_infix {w p : Text} (hw : w ≠ []) : Avoids w p [] ↔ ¬ w <:+: p := by
  induction p with
  | nil => simp [avoids_nil, hw]
  | cons c p ih => rw [avoids_cons_iff, ih, List.infix_cons_iff, not_or, List.append_nil]

/-- What begins with a brace begins in no text without braces. -/
theorem avoids_of_notMem {w p s : Text} {c : Char} (hp : c ∉ p) : Avoids (c :: w) p s := by
  induction p with
  | nil => exact avoids_nil _ _
  | cons d p ih =>
    rw [List.mem_cons, not_or] at hp
    exact avoids_cons_iff.2 ⟨fun h => hp.1 (List.cons_prefix_cons.1 h).1, ih hp.2⟩

/-- What follows a character that is not in `w` does not matter before it. -/
theorem Avoids.congr {w p s : Text} {c : Char} (hw : c ∉ w) (h : Avoids w (p ++ [c]) s)
    (s' : Text) : Avoids w (p ++ [c]) s' := by
  intro a ha
  rcases Nat.lt_or_ge p.length a.length with hlt | hge
  · rw [List.length_append]
    exact hlt
  · -- `w` would begin in `p`, and so it would end there.
    have hap : a <+: p := by
      rw [List.append_assoc] at ha
      exact List.prefix_of_prefix_length_le ((List.prefix_append _ _).trans ha)
        (List.prefix_append _ _) hge
    obtain ⟨b, rfl⟩ := hap
    have hwb : w <+: b := by
      rw [List.append_assoc, List.append_assoc] at ha
      exact prefix_of_prefix_append_cons hw ((List.prefix_append_right_inj a).1 ha)
    refine h a ?_
    rw [List.append_assoc, List.append_assoc]
    exact (List.prefix_append_right_inj a).2 (hwb.trans (List.prefix_append _ _))

/-- Where a tag follows a text, it does not matter what else follows. -/
theorem Avoids.of_tagStart {w p s s' : Text} (hw : w.TagLike) (hs : tagStart <+: s)
    (hs' : tagStart <+: s') (h : Avoids w p s) : Avoids w p s' := by
  induction p with
  | nil => exact avoids_nil _ _
  | cons c p ih =>
    obtain ⟨hc, hp⟩ := avoids_cons_iff.1 h
    refine avoids_cons_iff.2 ⟨fun hpre => hc ?_, ih hp⟩
    rw [← List.cons_append] at hpre ⊢
    exact (hw.prefix_append_iff (List.cons_ne_nil _ _) hs).2
      ((hw.prefix_append_iff (List.cons_ne_nil _ _) hs').1 hpre)

/-- The first occurrence is not in a text that avoids it. -/
theorem cut?_append {w p : Text} (s : Text) (h : Avoids w p s) :
    cut? w (p ++ s) = (cut? w s).map fun (a, b) => (p ++ a, b) := by
  induction p with
  | nil =>
    rw [List.nil_append]
    rcases cut? w s with _ | ⟨a, b⟩
    · rfl
    · rfl
  | cons c p ih =>
    obtain ⟨hc, hp⟩ := avoids_cons_iff.1 h
    rw [List.cons_append, cut?, after?_eq_none_iff.2 hc, ih hp]
    rcases cut? w s with _ | ⟨a, b⟩
    · rfl
    · rfl

end Text

/-! ## Openers at the beginning of a text -/

namespace Directive

/-- No text begins with openers of both kinds. -/
theorem eq_of_both_open {d d' : Directive} {t : Text} (h : d.opener <+: t)
    (h' : d'.opener <+: t) : d = d' := by
  have hkinds : ∀ d d' : Directive, d.opener <+: d'.opener → d = d' := by
    intro d d'
    cases d <;> cases d' <;> decide
  rcases List.prefix_or_prefix_of_prefix h h' with hd | hd
  · exact hkinds d d' hd
  · exact (hkinds d' d hd).symm

/-- `atStart?` fails exactly where no opener stands. -/
theorem atStart?_eq_none_iff {t : Text} :
    atStart? t = none ↔ ∀ d : Directive, ¬ d.opener <+: t := by
  unfold atStart?
  simp only [Text.isSome_after?_iff]
  constructor
  · intro h d
    split at h
    · cases h
    · next hc =>
      split at h
      · cases h
      · next he => cases d with
        | cond => exact hc
        | each => exact he
  · intro h
    rw [if_neg (h .cond), if_neg (h .each)]

/-- `atStart?` finds exactly the opener at the beginning. -/
theorem atStart?_eq_some_iff {d : Directive} {t : Text} : atStart? t = some d ↔ d.opener <+: t := by
  have hstands {d : Directive} (h : atStart? t = some d) : d.opener <+: t := by
    unfold atStart? at h
    split at h
    · next hc =>
      cases h
      exact Text.isSome_after?_iff.1 hc
    · split at h
      · next he =>
        cases h
        exact Text.isSome_after?_iff.1 he
      · cases h
  refine ⟨hstands, fun h => ?_⟩
  rcases hd : atStart? t with _ | d'
  · exact absurd h (atStart?_eq_none_iff.1 hd d)
  · rw [eq_of_both_open (hstands hd) h]

end Directive

/-! ## The first opener of a text -/

/-- An opener of a kind follows `before` in a text, and no opener stands earlier. -/
structure FirstOpener (t : Text) (d : Directive) (before : Text) : Prop where
  stands : before ++ d.opener <+: t
  first : ∀ (d' : Directive) (a : Text), a ++ d'.opener <+: t → before.length ≤ a.length

/-- The first opener of a text is of a kind and stands at a place, in bytes. -/
def FirstOpenerAt (t : Text) (d : Directive) (offset : Nat) : Prop :=
  ∃ before, FirstOpener t d before ∧ Text.utf8Length before = offset

/-- An opener is the first if the text before it avoids all openers. -/
theorem firstOpener_append_iff {before tail : Text} {d : Directive} :
    FirstOpener (before ++ tail) d before ↔
      d.opener <+: tail ∧ ∀ d' : Directive, Text.Avoids d'.opener before tail :=
  ⟨fun h => ⟨(List.prefix_append_right_inj before).1 h.stands, h.first⟩,
    fun h => ⟨(List.prefix_append_right_inj before).2 h.1, h.2⟩⟩

/-- Where no opener stands at the beginning, one character more changes nothing. -/
theorem firstOpener_cons_iff {c : Char} {t before : Text} {d : Directive}
    (h : ∀ d : Directive, ¬ d.opener <+: c :: t) :
    FirstOpener (c :: t) d (c :: before) ↔ FirstOpener t d before := by
  constructor
  · rintro ⟨hstands, hfirst⟩
    refine ⟨(List.cons_prefix_cons.1 hstands).2, fun d' a ha => ?_⟩
    have hle := hfirst d' (c :: a) (List.cons_prefix_cons.2 ⟨rfl, ha⟩)
    simpa using hle
  · rintro ⟨hstands, hfirst⟩
    refine ⟨List.cons_prefix_cons.2 ⟨rfl, hstands⟩, fun d' a ha => ?_⟩
    rcases a with _ | ⟨x, a⟩
    · exact absurd ha (h d')
    · have hle := hfirst d' a (List.cons_prefix_cons.1 ha).2
      simpa using hle

/-- Only one opener is the first. -/
theorem FirstOpener.unique {t before before' : Text} {d d' : Directive} (h : FirstOpener t d before)
    (h' : FirstOpener t d' before') : d = d' ∧ before = before' := by
  have hlen : before.length = before'.length :=
    Nat.le_antisymm (h.first d' before' h'.stands) (h'.first d before h.stands)
  have hb : before <+: t := (List.prefix_append _ _).trans h.stands
  have hb' : before' <+: t := (List.prefix_append _ _).trans h'.stands
  have heq : before = before' :=
    (List.prefix_of_prefix_length_le hb hb' (Nat.le_of_eq hlen)).eq_of_length hlen
  subst heq
  obtain ⟨tail, rfl⟩ := hb
  exact ⟨Directive.eq_of_both_open (firstOpener_append_iff.1 h).1 (firstOpener_append_iff.1 h').1,
    rfl⟩

/-- `splitOpener?` splits a text at its first opener. -/
theorem splitOpener?_eq_some_iff {t before tail : Text} {d : Directive} :
    splitOpener? t = some (before, d, tail) ↔ t = before ++ tail ∧ FirstOpener t d before := by
  induction t generalizing before with
  | nil =>
    refine ⟨nofun, fun ⟨_, h⟩ => ?_⟩
    have hnil := List.eq_nil_of_prefix_nil h.stands
    exact absurd (List.append_eq_nil_iff.1 hnil).2 (Mark.text_ne_nil d .opens)
  | cons c t ih =>
    unfold splitOpener?
    rcases hd : Directive.atStart? (c :: t) with _ | d'
    · -- The first character is passed over, on both sides.
      have hno := Directive.atStart?_eq_none_iff.1 hd
      simp only [Option.map_eq_some_iff, Prod.mk.injEq, Prod.exists]
      constructor
      · rintro ⟨before', d', tail', h', rfl, rfl, rfl⟩
        obtain ⟨rfl, hfirst⟩ := ih.1 h'
        exact ⟨rfl, (firstOpener_cons_iff hno).2 hfirst⟩
      · rintro ⟨ht, hfirst⟩
        rcases before with _ | ⟨x, before⟩
        · exact absurd hfirst.stands (hno d)
        · obtain ⟨rfl, ht'⟩ : c = x ∧ t = before ++ tail := by simpa using ht
          exact ⟨before, d, tail, ih.2 ⟨ht', (firstOpener_cons_iff hno).1 hfirst⟩, rfl, rfl, rfl⟩
    · have hstart := Directive.atStart?_eq_some_iff.1 hd
      have hfirst : FirstOpener (c :: t) d' [] := ⟨hstart, fun _ _ _ => Nat.zero_le _⟩
      simp only [Option.some.injEq, Prod.mk.injEq]
      constructor
      · rintro ⟨rfl, rfl, rfl⟩
        exact ⟨rfl, hfirst⟩
      · rintro ⟨ht, h⟩
        obtain ⟨rfl, rfl⟩ := hfirst.unique h
        exact ⟨rfl, rfl, ht⟩

/-- No opener is left exactly if none stands in the text. -/
theorem splitOpener?_eq_none_iff {t : Text} :
    splitOpener? t = none ↔ ∀ d : Directive, ¬ d.opener <:+: t := by
  induction t with
  | nil =>
    refine ⟨fun _ d h => ?_, fun _ => rfl⟩
    exact Mark.text_ne_nil d .opens (List.eq_nil_of_infix_nil h)
  | cons c t ih =>
    unfold splitOpener?
    simp only [List.infix_cons_iff, not_or]
    split
    · next d hd =>
      refine ⟨(fun hsome => by cases hsome), fun h => ?_⟩
      rw [Directive.atStart?_eq_none_iff.2 fun d => (h d).1] at hd
      cases hd
    · next hnone =>
      rw [Option.map_eq_none_iff, ih]
      exact ⟨fun h d => ⟨Directive.atStart?_eq_none_iff.1 hnone d, h d⟩, fun h d => (h d).2⟩

/-! ## Scanning past a text without openers -/

/-- A scan passes over a text that avoids the opener. -/
theorem findBlock?_append {d : Directive} {p : Text} (s : Text) (h : Text.Avoids d.opener p s) :
    findBlock? d (p ++ s) =
      (findBlock? d s).map fun b => { b with before := p ++ b.before } := by
  unfold findBlock? scan
  rw [Text.cut?_append s h]
  rcases Text.cut? d.opener s with _ | ⟨before, rest⟩
  · rfl
  · simp only [Option.map_some]
    rcases splitTag? d rest with _ | ⟨inner, rest⟩
    · rfl
    · dsimp only
      rcases splitCloser? d 0 rest with _ | ⟨content, after⟩
      · rfl
      · rfl

/-! ## Scanning a text before another -/

/-- A block is found exactly if it is the first of its kind, and complete. -/
theorem findBlock?_eq_some_iff {d : Directive} {t : Text} {b : Block} :
    findBlock? d t = some b ↔ b.FirstIn d t := by
  rw [← scan_eq_found_iff]
  unfold findBlock?
  split
  · next b' h => rw [h, Option.some.injEq, Scan.found.injEq]
  · next h => exact iff_of_false nofun (h b)

/-- A scan does not look at what follows a text, if no brace closes there. -/
theorem findBlock?_append_of_notMem {d : Directive} {t s : Text} (hs : '}' ∉ s) :
    findBlock? d (t ++ s) =
      (findBlock? d t).map fun b => { b with after := b.after ++ s } := by
  have hsource {t : Text} {b : Block} (h : b.FirstIn d t) :
      t = b.before ++ b.source ++ b.after := (Scan.source_eq (scan_eq_found_iff.2 h)).symm
  refine Option.ext fun b => ?_
  rw [findBlock?_eq_some_iff, Option.map_eq_some_iff]
  constructor
  · intro h
    -- The closer ends with a brace, so it stands before `s`.
    obtain ⟨u, hu⟩ : ∃ u, d.closer = u ++ ['}'] := by
      cases d with
      | cond => exact ⟨['{', '{', '/', 'i', 'f', '}'], rfl⟩
      | each => exact ⟨['{', '{', '/', 'e', 'a', 'c', 'h', '}'], rfl⟩
    have hend : b.before ++ b.source =
        b.before ++ (d.opener ++ b.inner ++ tagEnd ++ b.content ++ u) ++ ['}'] := by
      rw [Block.source, h.kind, hu]
      simp
    have htext := hsource h
    rw [hend] at htext
    obtain ⟨m, ht, hafter⟩ := Text.exists_append_of_notMem hs htext.symm
    refine ⟨{ b with after := m }, findBlock?_eq_some_iff.2 ?_, ?_⟩
    · rw [ht, ← hend]
      exact h.with_after m
    · rw [← hafter]
  · rintro ⟨b, h, rfl⟩
    have hb := findBlock?_eq_some_iff.1 h
    have hlong := hb.with_after (b.after ++ s)
    rwa [← List.append_assoc, ← hsource hb] at hlong


end Stencil
