import Stencil.Text.Blank
import Mathlib.Data.List.DropRight

/-!
# Trimmed texts

How `trimStart`, `trimEnd` and `trim` go through a text that is put together: blanks at the ends do
not count (`trim_append`), and a part that is not blank shields what is behind it
(`trimStart_append_of_not_blank`, `trimEnd_append_of_not_blank`).
-/

namespace Stencil.Text

/-- A text of blanks only. -/
def Blank (t : Text) : Prop := ∀ c ∈ t, isBlank c = true

instance (t : Text) : Decidable (Blank t) :=
  decidable_of_iff (t.all isBlank = true) List.all_eq_true

/-- There is no character that is not blank in the empty text. -/
@[simp] theorem blank_nil : Blank [] := List.forall_mem_nil _

/-- A text of blanks begins with a blank and goes on with blanks. -/
@[simp] theorem blank_cons {c : Char} {t : Text} : Blank (c :: t) ↔ isBlank c = true ∧ Blank t :=
  List.forall_mem_cons

/-- Two texts of blanks make up a text of blanks. -/
@[simp] theorem blank_append {s t : Text} : Blank (s ++ t) ↔ Blank s ∧ Blank t :=
  List.forall_mem_append

variable {p q s t : Text}

/-! ## Blanks at the beginning -/

/-- Only blanks leave nothing. -/
theorem trimStart_eq_nil_iff : trimStart t = [] ↔ Blank t := List.dropWhile_eq_nil_iff

/-- Blanks in front are removed. -/
theorem trimStart_append_of_blank (hp : Blank p) : trimStart (p ++ t) = trimStart t := by
  rw [trimStart, List.dropWhile_append, List.dropWhile_eq_nil_iff.2 hp]
  rfl

/-- A text that is not blank keeps what follows it. -/
theorem trimStart_append_of_not_blank (hs : ¬ Blank s) :
    trimStart (s ++ t) = trimStart s ++ t := by
  have hne : (s.dropWhile isBlank).isEmpty = false := by
    rw [List.isEmpty_eq_false_iff]
    exact fun h => hs (trimStart_eq_nil_iff.1 h)
  rw [trimStart, List.dropWhile_append, hne]
  rfl

/-- What is removed at the beginning is blank. -/
theorem exists_append_trimStart (t : Text) : ∃ p, Blank p ∧ t = p ++ trimStart t :=
  ⟨t.takeWhile isBlank, fun _ => List.mem_takeWhile_imp, List.takeWhile_append_dropWhile.symm⟩

/-- What is left of a text is in the text. -/
theorem mem_of_mem_trimStart {c : Char} (h : c ∈ trimStart t) : c ∈ t :=
  (List.dropWhile_suffix isBlank).subset h

/-! ## Blanks at the end -/

/-- Only blanks leave nothing. -/
theorem trimEnd_eq_nil_iff : trimEnd t = [] ↔ Blank t := List.rdropWhile_eq_nil_iff

/-- Trimming the end is trimming the beginning of the reversed text. -/
theorem reverse_trimEnd (t : Text) : (trimEnd t).reverse = trimStart t.reverse :=
  List.reverse_reverse _

/-- Blanks behind are removed. -/
theorem trimEnd_append_of_blank (hs : Blank s) : trimEnd (t ++ s) = trimEnd t := by
  have hrev : Blank s.reverse := fun c hc => hs c (List.mem_reverse.1 hc)
  rw [← List.reverse_inj, reverse_trimEnd, reverse_trimEnd, List.reverse_append,
    trimStart_append_of_blank hrev]

/-- A text that is not blank keeps what comes before it. -/
theorem trimEnd_append_of_not_blank (ht : ¬ Blank t) : trimEnd (s ++ t) = s ++ trimEnd t := by
  have hrev : ¬ Blank t.reverse := fun h => ht fun c hc => h c (List.mem_reverse.2 hc)
  rw [← List.reverse_inj, reverse_trimEnd, List.reverse_append, List.reverse_append,
    reverse_trimEnd, trimStart_append_of_not_blank hrev]

/-- What is removed at the end is blank. -/
theorem exists_trimEnd_append (t : Text) : ∃ q, Blank q ∧ t = trimEnd t ++ q :=
  ⟨t.rtakeWhile isBlank, fun _ => List.mem_rtakeWhile_imp,
    List.rdropWhile_append_rtakeWhile.symm⟩

/-- What is left of a text is in the text. -/
theorem mem_of_mem_trimEnd {c : Char} (h : c ∈ trimEnd t) : c ∈ t :=
  (List.rdropWhile_prefix isBlank t).subset h

/-! ## Blanks at both ends -/

/-- Only blanks leave nothing. -/
theorem trim_eq_nil_iff : trim t = [] ↔ Blank t := by
  obtain ⟨p, hp, ht⟩ := exists_append_trimStart t
  rw [trim, trimEnd_eq_nil_iff]
  constructor
  · intro h
    rw [ht]
    exact blank_append.2 ⟨hp, h⟩
  · intro h
    rw [trimStart_eq_nil_iff.2 h]
    exact blank_nil

/-- Blanks around a text do not count. -/
theorem trim_append (hp : Blank p) (hq : Blank q) : trim (p ++ t ++ q) = trim t := by
  rw [trim, List.append_assoc, trimStart_append_of_blank hp]
  by_cases ht : Blank t
  · have hall : Blank (t ++ q) := blank_append.2 ⟨ht, hq⟩
    rw [trimStart_eq_nil_iff.2 hall, trim_eq_nil_iff.2 ht]
    rfl
  · rw [trimStart_append_of_not_blank ht, trimEnd_append_of_blank hq]
    rfl

/-- The blanks at the beginning do not count. -/
theorem trim_trimStart (t : Text) : trim (trimStart t) = trim t := by
  obtain ⟨p, hp, ht⟩ := exists_append_trimStart t
  conv_rhs => rw [ht]
  simpa using (trim_append (t := trimStart t) hp blank_nil).symm

/-- The blanks at the end do not count. -/
theorem trim_trimEnd (t : Text) : trim (trimEnd t) = trim t := by
  obtain ⟨q, hq, ht⟩ := exists_trimEnd_append t
  conv_rhs => rw [ht]
  simpa using (trim_append (t := trimEnd t) blank_nil hq).symm

/-- A text without blanks at its ends. -/
structure Trimmed (t : Text) : Prop where
  start : trimStart t = t
  stop : trimEnd t = t

/-- A trimmed text stays as it is. -/
theorem Trimmed.trim_eq (h : Trimmed t) : trim t = t := by rw [trim, h.start, h.stop]

/-- A trimmed text that is not empty is not blank. -/
theorem Trimmed.not_blank (h : Trimmed t) (hne : t ≠ []) : ¬ Blank t := by
  rwa [← trimStart_eq_nil_iff, h.start]

/-- `trim` makes a text trimmed. -/
theorem trimmed_trim (t : Text) : Trimmed (trim t) := by
  have hstop : trimEnd (trim t) = trim t := List.rdropWhile_idempotent isBlank (trimStart t)
  refine ⟨?_, hstop⟩
  by_cases ht : Blank t
  · rw [trim_eq_nil_iff.2 ht]
    rfl
  · -- The text from its first character that is not blank is `trim t` and blanks.
    obtain ⟨q, hq, hsplit⟩ := exists_trimEnd_append (trimStart t)
    have hidem : trimStart (trimStart t) = trimStart t := List.dropWhile_idempotent isBlank t
    have hne : ¬ Blank (trim t) := by
      rw [← trimEnd_eq_nil_iff, hstop, trim_eq_nil_iff]
      exact ht
    have happ : trimStart (trim t) ++ q = trim t ++ q := by
      rw [← trimStart_append_of_not_blank hne]
      calc trimStart (trim t ++ q) = trimStart (trimStart t) := by rw [hsplit]; rfl
        _ = trimStart t := hidem
        _ = trim t ++ q := hsplit
    exact List.append_cancel_right happ

/-- The texts that `trim` leaves as they are. -/
theorem trim_eq_self_iff : trim t = t ↔ Trimmed t :=
  ⟨fun h => h ▸ trimmed_trim t, Trimmed.trim_eq⟩

/-- A text without any blank is trimmed. -/
theorem trimmed_of_any_eq_false (h : t.any isBlank = false) : Trimmed t where
  start := List.dropWhile_eq_self_iff.2 fun hl =>
    List.any_eq_false.1 h _ (List.getElem_mem hl)
  stop := List.rdropWhile_eq_self_iff.2 fun hl =>
    List.any_eq_false.1 h _ (List.getLast_mem hl)

/-- What begins and ends with a trimmed text is trimmed. -/
theorem Trimmed.append (hs : Trimmed s) (hsne : s ≠ []) (ht : Trimmed t) (htne : t ≠ [])
    (m : Text) : Trimmed (s ++ m ++ t) where
  start := by rw [List.append_assoc, trimStart_append_of_not_blank (hs.not_blank hsne), hs.start]
  stop := by rw [trimEnd_append_of_not_blank (ht.not_blank htne), ht.stop]

/-- A trimmed text does not begin with a text of blanks. -/
theorem Trimmed.not_blank_left (h : Trimmed (s ++ t)) (hs : s ≠ []) : ¬ Blank s := by
  intro hb
  have hle : (s ++ t).length ≤ t.length := by
    rw [← h.start, trimStart_append_of_blank hb]
    exact (List.dropWhile_suffix isBlank).length_le
  have hpos := List.length_pos_of_ne_nil hs
  rw [List.length_append] at hle
  omega

/-- A trimmed text does not end with a text of blanks. -/
theorem Trimmed.not_blank_right (h : Trimmed (s ++ t)) (ht : t ≠ []) : ¬ Blank t := by
  intro hb
  have hle : (s ++ t).length ≤ s.length := by
    rw [← h.stop, trimEnd_append_of_blank hb]
    exact (List.rdropWhile_prefix isBlank s).length_le
  have hpos := List.length_pos_of_ne_nil ht
  rw [List.length_append] at hle
  omega

end Stencil.Text
