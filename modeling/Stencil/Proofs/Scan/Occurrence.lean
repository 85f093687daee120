import Stencil.Block

/-!
# Where a text stands in another

`Text.FirstAt` says where the first occurrence of a text is; `cut?` splits there
(`cut?_eq_some_iff`).

The openers, the closers and the `else` tag are all `TagLike`: two braces, and no brace that opens
after them. So none of them begins within another, and one that begins before another does not reach
into it (`TagLike.prefix_append_iff`). A text in which such a tag begins nowhere, whatever follows
the text, is `Inert` for it.
-/

namespace Stencil

namespace Text

/-- `after?` succeeds exactly on the texts that begin with `p`. -/
theorem isSome_after?_iff {p t : Text} : (after? p t).isSome = true ↔ p <+: t := by
  rw [Option.isSome_iff_ne_none, ne_eq, after?_eq_none_iff, Decidable.not_not]

/-- A text that does not hold a character and begins a text up to it and more begins the text up to
it. -/
theorem prefix_of_prefix_append_cons {w p s : Text} {c : Char} (hw : c ∉ w)
    (h : w <+: p ++ c :: s) : w <+: p := by
  rcases List.prefix_or_prefix_of_prefix h (List.prefix_append _ _) with hpre | ⟨r, rfl⟩
  · exact hpre
  · rcases r with _ | ⟨x, r⟩
    · simp
    · -- The text would go on with the character.
      exfalso
      obtain ⟨rfl, -⟩ := List.cons_prefix_cons.1 ((List.prefix_append_right_inj p).1 h)
      exact hw (by simp)

/-- What a text without some character follows up to that character follows it in part. -/
theorem exists_append_of_notMem {p a t s : Text} {c : Char} (hs : c ∉ s)
    (h : p ++ [c] ++ a = t ++ s) : ∃ m, t = p ++ [c] ++ m ∧ a = m ++ s := by
  rcases List.append_eq_append_iff.1 h with ⟨m, ht, ha⟩ | ⟨m, hp, hs'⟩
  · exact ⟨m, ht, ha⟩
  · -- The rest `m` of what comes before would end in the character.
    rcases List.eq_nil_or_concat m with rfl | ⟨m, x, rfl⟩
    · exact ⟨[], by simpa using hp.symm, by simpa using hs'.symm⟩
    · exfalso
      obtain rfl : c = x := by
        rw [List.concat_eq_append, ← List.append_assoc] at hp
        exact List.singleton_inj.1 (List.append_inj' hp rfl).2
      exact hs (by simp [hs'])

/-! ## First occurrences -/

/-- The first occurrence of `needle` in `t` follows `before`. -/
def FirstAt (needle t before : Text) : Prop :=
  before ++ needle <+: t ∧ ∀ a, a ++ needle <+: t → before.length ≤ a.length

/-- Where `needle` does not stand at the beginning, one character more changes nothing. -/
theorem firstAt_cons_iff {needle t a : Text} {c : Char} (h : ¬ needle <+: c :: t) :
    FirstAt needle (c :: t) (c :: a) ↔ FirstAt needle t a := by
  unfold FirstAt
  constructor
  · rintro ⟨hat, hfirst⟩
    refine ⟨by simpa using hat, fun p hp => ?_⟩
    have hle := hfirst (c :: p) (by simpa using hp)
    simpa using hle
  · rintro ⟨hat, hfirst⟩
    refine ⟨by simpa using hat, fun p hp => ?_⟩
    rcases p with _ | ⟨d, p⟩
    · exact absurd hp h
    · have hp' : p ++ needle <+: t := (List.cons_prefix_cons.1 hp).2
      have hle := hfirst p hp'
      simpa using hle

/-- `cut?` splits a text around the first occurrence. -/
theorem cut?_eq_some_iff {needle t a b : Text} :
    cut? needle t = some (a, b) ↔ t = a ++ needle ++ b ∧ FirstAt needle t a := by
  induction t generalizing a with
  | nil =>
    constructor
    · intro h
      have ht := cut?_eq_append h
      obtain ⟨rfl, rfl, -⟩ : a = [] ∧ needle = [] ∧ b = [] := by simpa using ht.symm
      exact ⟨ht, List.prefix_refl _, fun _ _ => Nat.zero_le _⟩
    · rintro ⟨h, -⟩
      obtain ⟨rfl, rfl, rfl⟩ : a = [] ∧ needle = [] ∧ b = [] := by simpa using h.symm
      rfl
  | cons c t ih =>
    unfold cut?
    rcases h : after? needle (c :: t) with _ | r
    · -- The first character is passed over, on both sides.
      have hno : ¬ needle <+: c :: t := after?_eq_none_iff.1 h
      simp only [Option.map_eq_some_iff, Prod.mk.injEq, Prod.exists]
      constructor
      · rintro ⟨a', b', h', rfl, rfl⟩
        obtain ⟨ht, hfirst⟩ := ih.1 h'
        refine ⟨by rw [ht]; simp, (firstAt_cons_iff hno).2 hfirst⟩
      · rintro ⟨ht, hfirst⟩
        rcases a with _ | ⟨d, a⟩
        · exact absurd ⟨b, by simpa using ht.symm⟩ hno
        · obtain ⟨rfl, ht'⟩ : c = d ∧ t = a ++ needle ++ b := by simpa using ht
          exact ⟨a, b, ih.2 ⟨ht', (firstAt_cons_iff hno).1 hfirst⟩, rfl, rfl⟩
    · have hr := after?_eq_some_iff.1 h
      simp only [Option.some.injEq, Prod.mk.injEq]
      constructor
      · rintro ⟨rfl, rfl⟩
        exact ⟨by simpa using hr, ⟨r, by simpa using hr.symm⟩, fun _ _ => Nat.zero_le _⟩
      · rintro ⟨ht, -, hfirst⟩
        have hle := hfirst [] ⟨r, by simpa using hr.symm⟩
        obtain rfl : a = [] := List.eq_nil_of_length_eq_zero (Nat.le_zero.1 hle)
        rw [hr] at ht
        exact ⟨rfl, by simpa using ht⟩

/-- Whether an occurrence is the first does not depend on what follows it. -/
theorem firstAt_append_iff {needle a b : Text} :
    FirstAt needle (a ++ needle ++ b) a ↔ FirstAt needle (a ++ needle) a := by
  constructor
  · rintro ⟨-, hfirst⟩
    exact ⟨List.prefix_refl _, fun p hp => hfirst p (hp.trans (List.prefix_append _ _))⟩
  · rintro ⟨-, hfirst⟩
    refine ⟨List.prefix_append _ _, fun p hp => ?_⟩
    rcases Nat.lt_or_ge p.length a.length with hlt | hge
    · -- An earlier occurrence would end within `a ++ needle`.
      have hle : (p ++ needle).length ≤ (a ++ needle).length := by simp; omega
      exact hfirst p (List.prefix_of_prefix_length_le hp (List.prefix_append _ _) hle)
    · exact hge

/-- There is only one first occurrence. -/
theorem FirstAt.unique {needle t a b : Text} (ha : FirstAt needle t a) (hb : FirstAt needle t b) :
    a = b := by
  have hlen : a.length = b.length := Nat.le_antisymm (ha.2 b hb.1) (hb.2 a ha.1)
  have hat : a <+: t := (List.prefix_append _ _).trans ha.1
  have hbt : b <+: t := (List.prefix_append _ _).trans hb.1
  exact (List.prefix_of_prefix_length_le hat hbt (Nat.le_of_eq hlen)).eq_of_length hlen

/-! ## Tags that do not overlap -/

/-- A text of two braces that open and further characters, none of which is such a brace. -/
def TagLike (w : Text) : Prop := ∃ c v, w = '{' :: '{' :: c :: v ∧ '{' ∉ c :: v

/-- A tag does not reach from one text into another that begins with two braces. -/
theorem TagLike.prefix_append_iff {w p s : Text} (hw : TagLike w) (hp : p ≠ [])
    (hs : tagStart <+: s) : w <+: p ++ s ↔ w <+: p := by
  refine ⟨fun h => ?_, fun h => h.trans (List.prefix_append _ _)⟩
  rcases List.prefix_or_prefix_of_prefix h (List.prefix_append p s) with hwp | ⟨m, hm⟩
  · exact hwp
  · -- The rest `m` of the tag begins `s`, so it is empty or begins like two braces.
    obtain ⟨c, v, rfl, hv⟩ := hw
    obtain ⟨s', rfl⟩ := hs
    have hms : m <+: tagStart ++ s' := by
      rw [← hm] at h
      exact (List.prefix_append_right_inj p).1 h
    rcases m with _ | ⟨x, m⟩
    · rw [List.append_nil] at hm
      exact ⟨[], by simp [hm]⟩
    · exfalso
      obtain ⟨rfl, hms'⟩ := List.cons_prefix_cons.1 hms
      rcases p with _ | ⟨y, _ | ⟨z, p⟩⟩
      · exact hp rfl
      · obtain ⟨-, hm'⟩ : y = '{' ∧ m = c :: v := by simpa using hm
        rw [hm'] at hms'
        obtain ⟨rfl, -⟩ := List.cons_prefix_cons.1 hms'
        exact hv List.mem_cons_self
      · obtain ⟨-, -, hm'⟩ : y = '{' ∧ z = '{' ∧ p ++ '{' :: m = c :: v := by simpa using hm
        exact hv (hm' ▸ by simp)

/-- A text in which `w` begins nowhere, whatever follows the text. -/
def Inert (w p : Text) : Prop := ∀ a b s, p = a ++ b → b ≠ [] → ¬ w <+: b ++ s

/-- Nothing begins in the empty text. -/
theorem inert_nil (w : Text) : Inert w [] := by
  intro a b s h hb
  exact absurd (List.append_eq_nil_iff.1 h.symm).2 hb

/-- A character where `w` does not begin is put in front of an inert text. -/
theorem Inert.cons {w p : Text} {c : Char} (hc : ∀ s, ¬ w <+: c :: p ++ s) (hp : Inert w p) :
    Inert w (c :: p) := by
  intro a b s h hb
  rcases a with _ | ⟨d, a⟩
  · obtain rfl : c :: p = b := h
    exact hc s
  · obtain ⟨-, h'⟩ : c = d ∧ p = a ++ b := by simpa using h
    exact hp a b s h' hb

/-- At no character of an inert text `w` begins. -/
theorem Inert.of_cons {w p : Text} {c : Char} (h : Inert w (c :: p)) :
    (∀ s, ¬ w <+: c :: (p ++ s)) ∧ Inert w p := by
  refine ⟨fun s => h [] (c :: p) s rfl (List.cons_ne_nil _ _), fun a b s hab hb => ?_⟩
  exact h (c :: a) b s (by simp [hab]) hb

/-- Inert texts are joined to an inert text. -/
theorem Inert.append {w p q : Text} (hp : Inert w p) (hq : Inert w q) : Inert w (p ++ q) := by
  -- What follows a character of `p` is the rest of `p` and then `q`.
  induction p with
  | nil => exact hq
  | cons c p ih =>
    obtain ⟨hc, hp'⟩ := hp.of_cons
    refine Inert.cons (fun s => ?_) (ih hp')
    have h := hc (q ++ s)
    rwa [← List.append_assoc] at h

/-- Without a brace that opens no tag begins. -/
theorem TagLike.inert_of_notMem {w p : Text} (hw : TagLike w) (hp : '{' ∉ p) : Inert w p := by
  obtain ⟨c, v, rfl, -⟩ := hw
  intro a b s hab hb hpre
  rcases b with _ | ⟨x, b⟩
  · exact hb rfl
  · obtain ⟨rfl, -⟩ := List.cons_prefix_cons.1 hpre
    exact hp (hab ▸ by simp)

/-- One brace and a text without such braces is inert. -/
theorem TagLike.inert_brace {w v : Text} {c : Char} (hw : TagLike w) (hv : '{' ∉ c :: v) :
    Inert w ('{' :: c :: v) := by
  refine Inert.cons (fun s hpre => ?_) (hw.inert_of_notMem hv)
  -- The second brace of `w` would be the character after the brace.
  obtain ⟨d, u, rfl, -⟩ := hw
  obtain ⟨-, hpre'⟩ := List.cons_prefix_cons.1 hpre
  obtain ⟨rfl, -⟩ := List.cons_prefix_cons.1 hpre'
  exact hv List.mem_cons_self

/-- A tag after a text in which it does not stand is the first. -/
theorem TagLike.firstAt {w p : Text} (hw : TagLike w) (hp : ¬ w <:+: p) (s : Text) :
    FirstAt w (p ++ w ++ s) p := by
  have hstart : tagStart <+: w ++ s := by
    obtain ⟨c, v, rfl, -⟩ := hw
    exact ⟨_, rfl⟩
  refine ⟨List.prefix_append _ _, fun a ha => ?_⟩
  rcases Nat.lt_or_ge a.length p.length with hlt | hge
  · -- An earlier occurrence would begin within `p`, and no tag reaches from there into another.
    exfalso
    rw [List.append_assoc] at ha
    obtain ⟨b, rfl⟩ : a <+: p := List.prefix_of_prefix_length_le
      ((List.prefix_append a w).trans ha) (List.prefix_append _ _) (Nat.le_of_lt hlt)
    have hb : b ≠ [] := by
      rintro rfl
      simp at hlt
    rw [List.append_assoc, List.prefix_append_right_inj, hw.prefix_append_iff hb hstart] at ha
    exact hp (ha.isInfix.trans (List.suffix_append a b).isInfix)
  · exact hge

/-- `w` does not stand in an inert text. -/
theorem Inert.no_occurrence {w p : Text} (hw : w ≠ []) (hp : Inert w p) : ¬ w <:+: p := by
  rintro ⟨a, b, hab⟩
  refine hp a (w ++ b) [] (by rw [← hab]; simp) (by simp [hw]) ?_
  simp

end Text

end Stencil
