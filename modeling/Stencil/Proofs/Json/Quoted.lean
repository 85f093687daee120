import Mathlib.Tactic.SplitIfs
import Stencil.Json.Quoted

/-!
# The written forms of texts

`Quoted.Spells` says what texts between quotes stand for: a character stands for itself, and an
escape for the character that it names. All forms are read (`Quoted.Spells.read_append`), among them
the one that is written (`Quoted.spells_flatMap_writeChar`). A text that is passed over needs less:
its escapes have the right form, but halves of surrogate pairs may stand alone
(`Quoted.Contents.skip_append`).
-/

namespace Stencil.Quoted

/-! ## Escapes -/

/-- Four hexadecimal digits and their value. -/
inductive HexUnit : Text → Nat → Prop
  | mk {a b c d : Char} {w x y z : Nat} (ha : hexValue? a = some w) (hb : hexValue? b = some x)
    (hc : hexValue? c = some y) (hd : hexValue? d = some z) :
    HexUnit [a, b, c, d] (((w * 16 + x) * 16 + y) * 16 + z)

/-- What stands behind the backslash of an escape, and the character that the escape stands for. -/
inductive Escape : Text → Char → Prop
  | short {c d : Char} (h : shortEscape? c = some d) : Escape [c] d
  | unit {t : Text} {n : Nat} (h : HexUnit t n) (hlow : isLowSurrogate n = false)
    (hhigh : isHighSurrogate n = false) : Escape ('u' :: t) (Char.ofNat n)
  | pair {t u : Text} {high low : Nat} (h : HexUnit t high) (hhigh : isHighSurrogate high = true)
    (hu : HexUnit u low) (hlow : isLowSurrogate low = true) :
    Escape ('u' :: (t ++ '\\' :: 'u' :: u)) (pairChar high low)

variable {e r s t : Text} {c d : Char} {n : Nat}

/-- There are four digits. -/
theorem HexUnit.length_eq (h : HexUnit t n) : t.length = 4 := by
  cases h
  rfl

/-- Four hexadecimal digits are read. -/
theorem HexUnit.hexAhead_append (h : HexUnit t n) (r : Text) : hexAhead (t ++ r) = .ok n := by
  cases h with
  | mk ha hb hc hd => simp [hexAhead, ha, hb, hc, hd]

/-- The letter of a short escape is not the one before hexadecimal digits. -/
theorem ne_u_of_shortEscape? (h : shortEscape? c = some d) : c ≠ 'u' := by
  rintro rfl
  cases h

/-- A short escape is read. -/
theorem escapeAhead_short (h : shortEscape? c = some d) (r : Text) :
    escapeAhead (c :: r) = .ok (d, 1) := by
  unfold escapeAhead
  split
  · next heq => cases heq
  · next heq => exact absurd (List.cons.inj heq).1 (ne_u_of_shortEscape? h)
  · next heq =>
    obtain ⟨rfl, -⟩ := List.cons.inj heq
    rw [h]

/-- Escapes are read to their end. -/
theorem Escape.escapeAhead_append (h : Escape e d) (r : Text) :
    escapeAhead (e ++ r) = .ok (d, e.length) := by
  cases h with
  | short h => exact escapeAhead_short h r
  | unit h hlow hhigh =>
    rw [List.cons_append, escapeAhead, h.hexAhead_append, List.length_cons, h.length_eq]
    simp [bind, Except.bind, hlow, hhigh, pure, Except.pure]
  | @pair t u high low h hhigh hu hlow =>
    have hnot : isLowSurrogate high = false := by
      simp only [isHighSurrogate, Bool.and_eq_true, decide_eq_true_eq] at hhigh
      simp only [isLowSurrogate, Bool.and_eq_false_iff, decide_eq_false_iff_not]
      omega
    have hahead : lowSurrogateAhead ((t ++ ('\\' :: 'u' :: u ++ r)).drop 4) = .ok low := by
      rw [← h.length_eq, List.drop_left]
      simp only [List.cons_append, lowSurrogateAhead, hu.hexAhead_append, bind, Except.bind, hlow,
        if_true]
    have hlength : ('u' :: (t ++ '\\' :: 'u' :: u)).length = 11 := by
      simp [h.length_eq, hu.length_eq]
    rw [List.cons_append, escapeAhead, List.append_assoc, h.hexAhead_append, hlength]
    simp only [bind, Except.bind, hnot, hhigh, Bool.false_eq_true, if_false, if_true, hahead]
    rfl

/-! ## Texts between quotes -/

/-- What a text between quotes stands for. -/
inductive Spells : Text → Text → Prop
  | nil : Spells [] []
  | plain {c : Char} {t s : Text} (hquote : c ≠ '"') (hescape : c ≠ '\\')
    (hcontrol : 0x20 ≤ c.toNat) (h : Spells t s) : Spells (c :: t) (c :: s)
  | escape {e : Text} {d : Char} {t s : Text} (he : Escape e d) (h : Spells t s) :
    Spells ('\\' :: (e ++ t)) (d :: s)

/-- A text between quotes that need not stand for anything. -/
inductive Contents : Text → Prop
  | nil : Contents []
  | plain {c : Char} {t : Text} (hquote : c ≠ '"') (hescape : c ≠ '\\')
    (hcontrol : 0x20 ≤ c.toNat) (h : Contents t) : Contents (c :: t)
  | short {c d : Char} {t : Text} (hc : shortEscape? c = some d) (h : Contents t) :
    Contents ('\\' :: c :: t)
  | unit {u : Text} {n : Nat} {t : Text} (hu : HexUnit u n) (h : Contents t) :
    Contents ('\\' :: 'u' :: (u ++ t))

variable {escape : Text → Except Fault (Char × Nat)}

/-- Characters to be passed over can be dropped. -/
theorem readFrom_eq (escape : Text → Except Fault (Char × Nat)) (n : Nat) (t : Text) :
    readFrom escape n t = readFrom escape 0 (t.drop n) := by
  induction n generalizing t with
  | zero => rfl
  | succ n ih =>
    cases t with
    | nil => rfl
    | cons c t => exact ih t

/-- A character that stands for itself is read. -/
theorem readFrom_plain (hquote : c ≠ '"') (hescape : c ≠ '\\') (hcontrol : 0x20 ≤ c.toNat)
    (h : readFrom escape 0 t = .ok (s, r)) : readFrom escape 0 (c :: t) = .ok (c :: s, r) := by
  rw [readFrom, if_neg hquote, if_neg hescape, if_neg (Nat.not_lt.2 hcontrol), h]
  rfl

/-- An escape that is known is read. -/
theorem readFrom_escape (he : escape (e ++ t) = .ok (d, e.length))
    (h : readFrom escape 0 t = .ok (s, r)) :
    readFrom escape 0 ('\\' :: (e ++ t)) = .ok (d :: s, r) := by
  rw [readFrom, if_neg (by decide), if_pos rfl, he]
  simp only
  rw [readFrom_eq, List.drop_left, h]
  rfl

/-- Whatever way a text is written between quotes, it is read as what it stands for. -/
theorem Spells.read_append (h : Spells t s) (r : Text) : read (t ++ '"' :: r) = .ok (s, r) := by
  induction h with
  | nil => rfl
  | plain hquote hescape hcontrol _ ih => exact readFrom_plain hquote hescape hcontrol ih
  | escape he _ ih =>
    rw [List.cons_append, List.append_assoc]
    exact readFrom_escape (he.escapeAhead_append _) ih

/-- A text between quotes is passed over. -/
theorem Contents.skip_append (h : Contents t) (r : Text) :
    ∃ s, skip (t ++ '"' :: r) = .ok (s, r) := by
  induction h with
  | nil => exact ⟨[], rfl⟩
  | plain hquote hescape hcontrol _ ih =>
    obtain ⟨s, hs⟩ := ih
    exact ⟨_, readFrom_plain hquote hescape hcontrol hs⟩
  | @short c d t hc _ ih =>
    obtain ⟨s, hs⟩ := ih
    have he : escapeLengthAhead ([c] ++ (t ++ '"' :: r)) = .ok (d, 1) := by
      unfold escapeLengthAhead
      split
      · next heq => exact absurd (List.cons.inj heq).1 (ne_u_of_shortEscape? hc)
      · exact escapeAhead_short hc _
    exact ⟨_, readFrom_escape (e := [c]) he hs⟩
  | @unit u n t hu _ ih =>
    obtain ⟨s, hs⟩ := ih
    have he : escapeLengthAhead ('u' :: u ++ (t ++ '"' :: r)) = .ok ('u', ('u' :: u).length) := by
      rw [List.cons_append, escapeLengthAhead, hu.hexAhead_append, List.length_cons, hu.length_eq]
      rfl
    rw [List.cons_append, List.cons_append, List.append_assoc]
    exact ⟨_, readFrom_escape he hs⟩

/-! ## The form that is written -/

/-- A hexadecimal digit that is written has its value. -/
theorem hexValue?_hexDigit (h : n < 16) : hexValue? (hexDigit n) = some n := by
  revert n
  decide

/-- A character is written in one of its forms. -/
theorem Spells.writeChar_append (h : Spells t s) (c : Char) :
    Spells (writeChar c ++ t) (c :: s) := by
  have short {e d : Char} (he : shortEscape? e = some d) : Spells (['\\', e] ++ t) (d :: s) :=
    .escape (.short he) h
  unfold writeChar
  split_ifs with hquote hescape hbackspace hfeed hline hreturn htab hcontrol
  · subst hquote
    exact short rfl
  · subst hescape
    exact short rfl
  · subst hbackspace
    exact short rfl
  · subst hfeed
    exact short rfl
  · subst hline
    exact short rfl
  · subst hreturn
    exact short rfl
  · subst htab
    exact short rfl
  · -- All other control characters are written by their code points, with two zeros in front.
    have hunit : HexUnit ['0', '0', hexDigit (c.toNat / 16), hexDigit (c.toNat % 16)]
        (((0 * 16 + 0) * 16 + c.toNat / 16) * 16 + c.toNat % 16) :=
      .mk rfl rfl (hexValue?_hexDigit (by omega)) (hexValue?_hexDigit (by omega))
    have hcode : ((0 * 16 + 0) * 16 + c.toNat / 16) * 16 + c.toNat % 16 = c.toNat := by omega
    rw [hcode] at hunit
    have hlow : isLowSurrogate c.toNat = false := by
      simp only [isLowSurrogate, Bool.and_eq_false_iff, decide_eq_false_iff_not]
      omega
    have hhigh : isHighSurrogate c.toNat = false := by
      simp only [isHighSurrogate, Bool.and_eq_false_iff, decide_eq_false_iff_not]
      omega
    have hspells := Spells.escape (.unit hunit hlow hhigh) h
    rwa [Char.ofNat_toNat] at hspells
  · exact .plain hquote hescape (Nat.not_lt.1 hcontrol) h

/-- What is written between quotes stands for the text. -/
theorem spells_flatMap_writeChar (s : Text) : Spells (s.flatMap writeChar) s := by
  induction s with
  | nil => exact .nil
  | cons c s ih => exact ih.writeChar_append c

end Stencil.Quoted
