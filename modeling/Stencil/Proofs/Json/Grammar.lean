import Stencil.Json.Reader
import Stencil.Proofs.Json.Quoted
import Stencil.Proofs.Number.Decimal

/-!
# The grammar of documents

`Json.IsText` is the grammar of JSON values, with blanks wherever they may stand, numerals of any
size and containers within one another to any depth. Every value of the grammar is passed over
(`Json.IsText.skipValue_eq`). The proof goes from the leaves to the containers: numerals
(`JsonNumeral.IsNumeral.read_append`), quoted texts, and one step of the loops that read items and
entries (`readItems_step`, `readEntries_step`). The bounds of the loops and of the depth are lengths
of texts, which are large enough because every item and every container takes up characters.
-/

namespace Stencil

open Decimal (DigitRun IsExponent)

namespace Json

/-- A text of the characters that may stand between the parts of a document. -/
def Blanks (t : Text) : Prop := ∀ c ∈ t, isJsonBlank c = true

/-- A text that may follow a value. -/
def EndsValue (t : Text) : Prop :=
  ∀ c ∈ t.head?, isJsonBlank c = true ∨ c = ',' ∨ c = ']' ∨ c = '}'

/-- After a value come blanks and then a comma or the end of a container. -/
theorem endsValue_append {b : Text} {c : Char} (hb : Blanks b) (hc : c = ',' ∨ c = ']' ∨ c = '}')
    (t : Text) : EndsValue (b ++ c :: t) := by
  intro x hx
  cases b with
  | nil =>
    obtain rfl : c = x := Option.some.inj hx
    exact .inr hc
  | cons y b =>
    obtain rfl : y = x := Option.some.inj hx
    exact .inl (hb y List.mem_cons_self)

/-- A numeral does not go on with what follows a value. -/
theorem EndsValue.ends_numeral {t : Text} (h : EndsValue t) :
    ∀ c ∈ t.head?, c.isDigit = false ∧ c ≠ '.' ∧ c ≠ 'e' ∧ c ≠ 'E' := by
  intro c hc
  rcases h c hc with hblank | rfl | rfl | rfl
  · simp only [isJsonBlank, Bool.or_eq_true, decide_eq_true_eq] at hblank
    rcases hblank with ((rfl | rfl) | rfl) | rfl <;> decide
  all_goals decide

end Json

open Json (Blanks EndsValue)

variable {a b r t u v w : Text} {c mark : Char}

/-! ## Blanks and marks -/

/-- Blanks in front are passed over. -/
theorem skipBlanks_append (ha : Blanks a) (t : Text) : skipBlanks (a ++ t) = skipBlanks t :=
  List.dropWhile_append_of_pos ha

/-- Blanks are passed over up to another character. -/
theorem skipBlanks_append_cons (ha : Blanks a) (hc : isJsonBlank c = false) (t : Text) :
    skipBlanks (a ++ c :: t) = c :: t := by
  rw [skipBlanks_append ha, skipBlanks, List.dropWhile_cons_of_neg (by simp [hc])]

/-- A mark is read with the blanks before it. -/
theorem readMark_append (ha : Blanks a) (hmark : isJsonBlank mark = false) (t : Text) :
    readMark mark (a ++ mark :: t) = .ok t := by
  rw [readMark, skipBlanks_append_cons ha hmark]
  exact if_pos rfl

/-! ## Numerals -/

namespace JsonNumeral

/-- The digits before the point: a zero alone, or digits that do not begin with a zero. -/
def IsWhole (t : Text) : Prop := t = ['0'] ∨ DigitRun t ∧ t.head? ≠ some '0'

/-- A point with digits behind it, or nothing. -/
inductive IsFraction : Text → Prop
  | none : IsFraction []
  | pointed {digits : Text} (h : DigitRun digits) : IsFraction ('.' :: digits)

/-- The numerals of documents. -/
inductive IsNumeral : Text → Prop
  | mk {sign whole fraction exponent : Text} (hsign : sign = [] ∨ sign = ['-'])
    (hwhole : IsWhole whole) (hfraction : IsFraction fraction) (hexponent : IsExponent exponent) :
    IsNumeral (sign ++ (whole ++ (fraction ++ exponent)))

/-- There are digits before the point. -/
theorem IsWhole.digitRun (h : IsWhole w) : DigitRun w := by
  rcases h with rfl | h
  · exact ⟨List.cons_ne_nil _ _, List.forall_mem_singleton.2 rfl⟩
  · exact h.1

/-- Digits are read up to what follows them. -/
theorem readDigits_append (h : DigitRun w) (hr : ∀ c ∈ r.head?, c.isDigit = false) :
    readDigits (w ++ r) = .ok (w, r) := by
  rw [readDigits, Text.spanDigits_append_of_forall h.2 hr]
  exact if_neg h.1

/-- The digits before the point are read. -/
theorem readWhole_append (h : IsWhole w) (hr : ∀ c ∈ r.head?, c.isDigit = false) :
    readWhole (w ++ r) = .ok (w, r) := by
  rw [readWhole, readDigits_append h.digitRun hr]
  simp only [bind, Except.bind]
  split
  · rcases h with h | ⟨-, hzero⟩
    · cases h
    · exact absurd rfl hzero
  · rfl

/-- Without a point there is no part after the point. -/
theorem readFraction_of_head (hr : ∀ c ∈ r.head?, c ≠ '.') : readFraction r = .ok (none, r) := by
  unfold readFraction
  split
  · exact absurd rfl (hr '.' rfl)
  · rfl

/-- The part after the point is read. -/
theorem readFraction_append (h : IsFraction w)
    (hr : ∀ c ∈ r.head?, c.isDigit = false ∧ c ≠ '.') :
    ∃ digits, readFraction (w ++ r) = .ok (digits, r) := by
  cases h with
  | none => exact ⟨_, readFraction_of_head fun c hc => (hr c hc).2⟩
  | pointed h =>
    rw [List.cons_append, readFraction, readDigits_append h fun c hc => (hr c hc).1]
    exact ⟨_, rfl⟩

/-- Without its mark there is no exponent. -/
theorem readExponent_of_head (hr : ∀ c ∈ r.head?, c ≠ 'e' ∧ c ≠ 'E') :
    readExponent r = .ok (none, r) := by
  cases r with
  | nil => rfl
  | cons c r =>
    obtain ⟨he, hE⟩ := hr c rfl
    exact if_neg (not_or.2 ⟨he, hE⟩)

/-- The exponent is read. -/
theorem readExponent_append (h : IsExponent w)
    (hr : ∀ c ∈ r.head?, c.isDigit = false ∧ c ≠ 'e' ∧ c ≠ 'E') :
    ∃ exponent, readExponent (w ++ r) = .ok (exponent, r) := by
  cases h with
  | none => exact ⟨_, readExponent_of_head fun c hc => (hr c hc).2⟩
  | @marked mark sign digits hmark hsign h =>
    have hhead : ∀ c ∈ (digits ++ r).head?, c ≠ '+' ∧ c ≠ '-' := by
      obtain ⟨d, s, hs, hdigit⟩ := h.head r
      rw [hs]
      rintro c ⟨⟩
      constructor <;> (rintro rfl; exact absurd hdigit (by decide))
    obtain ⟨negative, hspan⟩ : ∃ negative,
        Text.spanSign (sign ++ (digits ++ r)) = (negative, digits ++ r) :=
      ⟨_, Prod.ext rfl (Decimal.spanSign_append hsign hhead)⟩
    rw [List.cons_append, List.append_assoc, readExponent, if_pos hmark, hspan]
    simp only [bind, Except.bind]
    rw [readDigits_append h fun c hc => (hr c hc).1]
    exact ⟨_, rfl⟩

/-- A numeral without its sign begins with a digit. -/
theorem IsWhole.after?_minus (h : IsWhole w) (s : Text) : Text.after? ['-'] (w ++ s) = none := by
  obtain ⟨d, u, hu, hdigit⟩ := h.digitRun.head s
  have hne : '-' ≠ d := by
    rintro rfl
    exact absurd hdigit (by decide)
  rw [hu, Text.after?, if_neg hne]

/-- The parts of a numeral are read one after another, with a minus in front or not. -/
theorem read_eq {sign s : Text} (hsign : sign = [] ∨ sign = ['-']) (hwhole : IsWhole w) :
    ∃ negative, read (sign ++ (w ++ s)) = do
      let (whole, t) ← readWhole (w ++ s)
      let (fraction, t) ← readFraction t
      let (exponent, t) ← readExponent t
      return (⟨negative, whole, fraction, exponent⟩, t) := by
  rcases hsign with rfl | rfl
  · refine ⟨false, ?_⟩
    rw [List.nil_append, read, hwhole.after?_minus]
  · exact ⟨true, rfl⟩

/-- Every numeral is read up to what follows it. -/
theorem IsNumeral.read_append (h : IsNumeral t) (hr : EndsValue r) :
    ∃ n, read (t ++ r) = .ok (n, r) := by
  have hends := hr.ends_numeral
  obtain @⟨sign, whole, fraction, exponent, hsign, hwhole, hfraction, hexponent⟩ := h
  have hexponentEnds : ∀ c ∈ (exponent ++ r).head?, c.isDigit = false ∧ c ≠ '.' := by
    cases hexponent with
    | none => exact fun c hc => ⟨(hends c hc).1, (hends c hc).2.1⟩
    | marked hmark _ _ =>
      rintro c ⟨⟩
      rcases hmark with rfl | rfl <;> decide
  have hfractionEnds : ∀ c ∈ (fraction ++ (exponent ++ r)).head?, c.isDigit = false := by
    cases hfraction with
    | none => exact fun c hc => (hexponentEnds c hc).1
    | pointed _ =>
      rintro c ⟨⟩
      decide
  obtain ⟨negative, hread⟩ :=
    read_eq (s := fraction ++ (exponent ++ r)) hsign hwhole
  obtain ⟨digits, hdigits⟩ := readFraction_append hfraction hexponentEnds
  obtain ⟨e, he⟩ := readExponent_append hexponent fun c hc =>
    ⟨(hends c hc).1, (hends c hc).2.2⟩
  simp only [List.append_assoc]
  rw [hread, readWhole_append hwhole hfractionEnds]
  simp only [bind, Except.bind]
  rw [hdigits]
  simp only
  rw [he]
  exact ⟨_, rfl⟩

/-- A numeral begins with a minus or a digit. -/
theorem IsNumeral.head (h : IsNumeral t) : ∃ c u, t = c :: u ∧ (c = '-' ∨ c.isDigit = true) := by
  obtain ⟨hsign, hwhole, -, -⟩ := h
  rcases hsign with rfl | rfl
  · obtain ⟨c, u, hu, hdigit⟩ := hwhole.digitRun.head _
    exact ⟨c, u, hu, .inr hdigit⟩
  · exact ⟨'-', _, rfl, .inl rfl⟩

/-- What begins a numeral begins no other value. -/
theorem head_ne (h : c = '-' ∨ c.isDigit = true) :
    isJsonBlank c = false ∧ c ≠ 'n' ∧ c ≠ 't' ∧ c ≠ 'f' ∧ c ≠ '"' ∧ c ≠ '[' ∧ c ≠ ']' ∧
      c ≠ '{' := by
  rcases h with rfl | h
  · decide
  · have hne {d : Char} (hd : d.isDigit = false) : c ≠ d := by
      rintro rfl
      rw [h] at hd
      cases hd
    refine ⟨?_, hne rfl, hne rfl, hne rfl, hne rfl, hne rfl, hne rfl, hne rfl⟩
    simp [isJsonBlank, hne (d := ' ') rfl, hne (d := '\n') rfl, hne (d := '\t') rfl,
      hne (d := '\r') rfl]

end JsonNumeral

/-! ## Items and entries -/

/-- What stands before an item or an entry: nothing before the first, and a comma before the
others. -/
inductive Lead : Bool → Text → Prop
  | first : Lead true []
  | next {b : Text} (hb : Blanks b) : Lead false (b ++ [','])

variable {first : Bool} {p : Text}

/-- The next item is found. -/
theorem nextItem?_lead (hp : Lead first p) (ha : Blanks a) (hc : isJsonBlank c = false)
    (hne : c ≠ ']') (t : Text) : nextItem? first (p ++ (a ++ c :: t)) = .ok (some (c :: t)) := by
  cases hp with
  | first =>
    rw [List.nil_append, nextItem?, skipBlanks_append_cons ha hc]
    exact if_neg hne
  | @next b hb =>
    rw [List.append_assoc, List.singleton_append, nextItem?, skipBlanks_append_cons hb rfl]
    simp only [Char.reduceEq, Bool.false_eq_true, if_false, if_true]
    rw [skipBlanks_append_cons ha hc]
    exact if_neg hne

/-- The end of the items is found. -/
theorem nextItem?_end (ha : Blanks a) (first : Bool) (r : Text) :
    nextItem? first (a ++ ']' :: r) = .ok none := by
  rw [nextItem?, skipBlanks_append_cons ha rfl]
  rfl

/-- The next key is found. -/
theorem nextKey?_lead (hp : Lead first p) (ha : Blanks a) (t : Text) :
    nextKey? first (p ++ (a ++ '"' :: t)) = .ok (some t) := by
  cases hp with
  | first =>
    rw [List.nil_append, nextKey?, skipBlanks_append_cons ha rfl]
    rfl
  | @next b hb =>
    rw [List.append_assoc, List.singleton_append, nextKey?, skipBlanks_append_cons hb rfl]
    simp only [Char.reduceEq, Bool.false_eq_true, if_false, if_true]
    rw [readMark_append ha rfl]
    rfl

/-- The end of the entries is found. -/
theorem nextKey?_end (ha : Blanks a) (first : Bool) (r : Text) :
    nextKey? first (a ++ '}' :: r) = .ok none := by
  rw [nextKey?, skipBlanks_append_cons ha rfl]
  rfl

section Loops

variable {α σ : Type} {value : Reader α} {entry : σ → Reader σ} {x : α} {s s' : σ}

/-- An item is read, and then the others. -/
theorem readItems_step (hp : Lead first p) (ha : Blanks a) (hc : isJsonBlank c = false)
    (hne : c ≠ ']') (hvalue : value (c :: t) = .ok (x, u)) (fuel : Nat) :
    readItems value (fuel + 1) first (p ++ (a ++ c :: t)) =
      (readItems value fuel false u).map fun (xs, r) => (x :: xs, r) := by
  rw [readItems, nextItem?_lead hp ha hc hne]
  simp only [bind, Except.bind]
  rw [hvalue]
  rfl

/-- The items end with a bracket. -/
theorem readItems_end (ha : Blanks a) (fuel : Nat) (first : Bool) (r : Text) :
    readItems value (fuel + 1) first (a ++ ']' :: r) = .ok ([], r) := by
  rw [readItems, nextItem?_end ha]
  simp only [bind, Except.bind]
  rw [readMark_append ha rfl]
  rfl

/-- An entry is read, and then the others. -/
theorem readEntries_step (hp : Lead first p) (ha : Blanks a) (hentry : entry s t = .ok (s', u))
    (fuel : Nat) : readEntries entry (fuel + 1) first s (p ++ (a ++ '"' :: t)) =
      readEntries entry fuel false s' u := by
  rw [readEntries, nextKey?_lead hp ha]
  simp only [bind, Except.bind]
  rw [hentry]

/-- The entries end with a brace. -/
theorem readEntries_end (ha : Blanks a) (fuel : Nat) (first : Bool) (s : σ) (r : Text) :
    readEntries entry (fuel + 1) first s (a ++ '}' :: r) = .ok (s, r) := by
  rw [readEntries, nextKey?_end ha]
  simp only [bind, Except.bind]
  rw [readMark_append ha rfl]
  rfl

end Loops

/-! ## Values -/

namespace Json

/-- What the grammar derives: values, the items of an array, and the entries of an object. -/
inductive Part where
  | value
  | items
  | entries

/-- An entry of an object, from the quote before its key to the end of its value. -/
def entryText (key before after value : Text) : Text :=
  '"' :: (key ++ '"' :: (before ++ ':' :: (after ++ value)))

/-- The texts of JSON values without blanks around them, and of what stands between the brackets of
arrays and the braces of objects that are not empty. -/
inductive IsText : Part → Text → Prop
  | null : IsText .value ['n', 'u', 'l', 'l']
  | yes : IsText .value ['t', 'r', 'u', 'e']
  | no : IsText .value ['f', 'a', 'l', 's', 'e']
  | numeral {t : Text} (h : JsonNumeral.IsNumeral t) : IsText .value t
  | quoted {t : Text} (h : Quoted.Contents t) : IsText .value ('"' :: (t ++ ['"']))
  | emptyArray {a : Text} (ha : Blanks a) : IsText .value ('[' :: (a ++ [']']))
  | array {t : Text} (h : IsText .items t) : IsText .value ('[' :: (t ++ [']']))
  | emptyObject {a : Text} (ha : Blanks a) : IsText .value ('{' :: (a ++ ['}']))
  | object {t : Text} (h : IsText .entries t) : IsText .value ('{' :: (t ++ ['}']))
  | lastItem {a v b : Text} (ha : Blanks a) (hv : IsText .value v) (hb : Blanks b) :
    IsText .items (a ++ (v ++ b))
  | item {a v b t : Text} (ha : Blanks a) (hv : IsText .value v) (hb : Blanks b)
    (h : IsText .items t) : IsText .items (a ++ (v ++ (b ++ ',' :: t)))
  | lastEntry {a k c d v b : Text} (ha : Blanks a) (hk : Quoted.Contents k) (hc : Blanks c)
    (hd : Blanks d) (hv : IsText .value v) (hb : Blanks b) :
    IsText .entries (a ++ (entryText k c d v ++ b))
  | entry {a k c d v b t : Text} (ha : Blanks a) (hk : Quoted.Contents k) (hc : Blanks c)
    (hd : Blanks d) (hv : IsText .value v) (hb : Blanks b) (h : IsText .entries t) :
    IsText .entries (a ++ (entryText k c d v ++ (b ++ ',' :: t)))

/-- A value begins with a character that is no blank and does not end an array. -/
theorem IsText.head (h : IsText .value t) :
    ∃ c u, t = c :: u ∧ isJsonBlank c = false ∧ c ≠ ']' := by
  cases h with
  | numeral h =>
    obtain ⟨c, u, rfl, hc⟩ := h.head
    obtain ⟨hblank, -, -, -, -, -, hne, -⟩ := JsonNumeral.head_ne hc
    exact ⟨c, u, rfl, hblank, hne⟩
  | null | yes | no | quoted _ | emptyArray _ | array _ | emptyObject _ | object _ =>
    exact ⟨_, _, rfl, rfl, by decide⟩

/-- A value is passed over, with blanks before it, if not more containers than `depth` can stand
within one another. -/
def SkipsValue (depth : Nat) (t : Text) : Prop :=
  ∀ a r, Blanks a → EndsValue r → readValue skipping depth (a ++ (t ++ r)) = .ok ((), r)

/-- The items of an array are passed over up to its bracket. -/
def SkipsItems (depth : Nat) (t : Text) : Prop :=
  ∀ fuel first p r, t.length < fuel → Lead first p →
    ∃ units, readItems (readValue skipping depth) fuel first (p ++ (t ++ ']' :: r)) =
      .ok (units, r)

/-- The entries of an object are passed over up to its brace. -/
def SkipsEntries (depth : Nat) (t : Text) : Prop :=
  ∀ fuel first p es r, t.length < fuel → Lead first p →
    ∃ es', readEntries (skipping.readEntry (readValue skipping depth)) fuel first es
      (p ++ (t ++ '}' :: r)) = .ok (es', r)

/-- What is passed over of the parts that the grammar derives. -/
def Skips : Part → Nat → Text → Prop
  | .value => SkipsValue
  | .items => SkipsItems
  | .entries => SkipsEntries

/-- Blanks before a value do not count. -/
theorem readNode_blanks {α : Type} (builder : Builder α) (inner : Option (Reader α))
    (ha : Blanks a) (t : Text) : readNode builder inner (a ++ t) = readNode builder inner t := by
  rw [readNode, skipBlanks_append ha, readNode]

/-- Every reader of values reads a node. -/
theorem exists_readValue_eq {α : Type} (builder : Builder α) (depth : Nat) :
    ∃ inner, readValue builder depth = readNode builder inner := by
  cases depth with
  | zero => exact ⟨none, rfl⟩
  | succ depth => exact ⟨_, rfl⟩

/-- A value without containers is passed over at any depth. -/
theorem skipsValue_of_leaf (h : ∀ inner r, EndsValue r →
    readNode skipping inner (t ++ r) = .ok ((), r)) (depth : Nat) : SkipsValue depth t := by
  intro a r ha hr
  obtain ⟨inner, hinner⟩ := exists_readValue_eq skipping depth
  rw [hinner, readNode_blanks skipping inner ha, h inner r hr]

/-- What begins like a numeral is read as a number. -/
theorem readNode_of_head {α : Type} (builder : Builder α) (inner : Option (Reader α))
    (hc : c = '-' ∨ c.isDigit = true) (u : Text) :
    readNode builder inner (c :: u) = builder.readNumber (c :: u) := by
  obtain ⟨hblank, hnull, htrue, hfalse, hquote, -⟩ := JsonNumeral.head_ne hc
  rw [readNode, skipBlanks, List.dropWhile_cons_of_neg (by simp [hblank])]
  simp only
  rw [if_neg hnull, if_neg htrue, if_neg hfalse, if_neg hquote, if_pos hc]

/-- A numeral is passed over. -/
theorem readNode_numeral (h : JsonNumeral.IsNumeral t) (inner : Option (Reader Unit))
    (hr : EndsValue r) : readNode skipping inner (t ++ r) = .ok ((), r) := by
  obtain ⟨n, hn⟩ := h.read_append hr
  obtain ⟨c, u, rfl, hc⟩ := h.head
  rw [List.cons_append] at hn ⊢
  rw [readNode_of_head skipping inner hc]
  show skipNumeral (c :: (u ++ r)) = _
  rw [skipNumeral, hn]

/-- A quoted text is passed over. -/
theorem readNode_quoted (h : Quoted.Contents t) (inner : Option (Reader Unit)) (r : Text) :
    readNode skipping inner ('"' :: (t ++ '"' :: r)) = .ok ((), r) := by
  obtain ⟨s, hs⟩ := h.skip_append r
  show (Quoted.skip (t ++ '"' :: r)).map _ = _
  rw [hs]
  rfl

/-- The items between brackets are passed over, with the brackets one container deeper. -/
theorem skipsValue_array {depth : Nat} (h : ∀ r fuel, t.length < fuel →
      ∃ units, readItems (readValue skipping depth) fuel true (t ++ ']' :: r) =
        .ok (units, r)) : SkipsValue (depth + 1) ('[' :: (t ++ [']'])) := by
  intro a r ha _
  rw [readValue, readNode_blanks skipping _ ha, List.cons_append, List.append_assoc,
    List.singleton_append]
  obtain ⟨units, hunits⟩ := h r ((t ++ ']' :: r).length + 1) (by rw [List.length_append]; omega)
  show skipping.readContainer (readValue skipping depth) '[' (t ++ ']' :: r) = _
  rw [Builder.readContainer, if_pos rfl, hunits]
  rfl

/-- The entries between braces are passed over, with the braces one container deeper. -/
theorem skipsValue_object {depth : Nat} (h : ∀ r fuel, t.length < fuel →
      ∃ es, readEntries (skipping.readEntry (readValue skipping depth)) fuel true []
        (t ++ '}' :: r) = .ok (es, r)) : SkipsValue (depth + 1) ('{' :: (t ++ ['}'])) := by
  intro a r ha _
  rw [readValue, readNode_blanks skipping _ ha, List.cons_append, List.append_assoc,
    List.singleton_append]
  obtain ⟨es, hes⟩ := h r ((t ++ '}' :: r).length + 1) (by rw [List.length_append]; omega)
  show skipping.readContainer (readValue skipping depth) '{' (t ++ '}' :: r) = _
  rw [Builder.readContainer, if_neg (by decide), hes]
  rfl

/-- An item is passed over, and then what follows it. -/
theorem readItems_skipping {depth fuel : Nat} (hp : Lead first p) (ha : Blanks a)
    (hv : IsText .value v) (hskips : SkipsValue depth v) (hu : EndsValue u)
    (hrest : ∃ units, readItems (readValue skipping depth) fuel false u = .ok (units, r)) :
    ∃ units, readItems (readValue skipping depth) (fuel + 1) first (p ++ (a ++ (v ++ u))) =
      .ok (units, r) := by
  obtain ⟨c, v', rfl, hblank, hne⟩ := hv.head
  have hvalue := hskips [] u (List.forall_mem_nil _) hu
  obtain ⟨units, hunits⟩ := hrest
  rw [List.cons_append] at hvalue ⊢
  rw [readItems_step hp ha hblank hne hvalue, hunits]
  exact ⟨_, rfl⟩

/-- An entry is passed over, and then what follows it. -/
theorem readEntries_skipping {depth fuel : Nat} {k x y : Text} {es : Entries Unit}
    (hp : Lead first p) (ha : Blanks a) (hk : Quoted.Contents k) (hx : Blanks x) (hy : Blanks y)
    (hskips : SkipsValue depth v) (hu : EndsValue u)
    (hrest : ∀ es, ∃ es', readEntries (skipping.readEntry (readValue skipping depth)) fuel
      false es u = .ok (es', r)) :
    ∃ es', readEntries (skipping.readEntry (readValue skipping depth)) (fuel + 1) first es
      (p ++ (a ++ (entryText k x y v ++ u))) = .ok (es', r) := by
  obtain ⟨key, hkey⟩ := hk.skip_append (x ++ ':' :: (y ++ (v ++ u)))
  have hentry : skipping.readEntry (readValue skipping depth) es
      (k ++ '"' :: (x ++ ':' :: (y ++ (v ++ u)))) = .ok (es.set key (), u) := by
    show (Quoted.skip _ >>= _) = _
    rw [hkey]
    simp only [bind, Except.bind]
    rw [readMark_append hx rfl]
    simp only
    rw [hskips y u hy hu]
    rfl
  have htext : entryText k x y v ++ u = '"' :: (k ++ '"' :: (x ++ ':' :: (y ++ (v ++ u)))) := by
    simp [entryText]
  rw [htext, readEntries_step hp ha hentry]
  exact hrest _

/-- What the grammar derives is passed over, if the depth is not below its length. -/
theorem IsText.skips {part : Part} (h : IsText part t) {depth : Nat} (hdepth : t.length ≤ depth) :
    Skips part depth t := by
  -- Only containers need a depth, and each takes up two characters beside what is in it.
  induction h generalizing depth with
  | null => exact skipsValue_of_leaf (fun _ _ _ => rfl) depth
  | yes => exact skipsValue_of_leaf (fun _ _ _ => rfl) depth
  | no => exact skipsValue_of_leaf (fun _ _ _ => rfl) depth
  | numeral h => exact skipsValue_of_leaf (fun inner _ hr => readNode_numeral h inner hr) depth
  | quoted h =>
    refine skipsValue_of_leaf (fun inner r _ => ?_) depth
    rw [List.cons_append, List.append_assoc]
    exact readNode_quoted h inner r
  | emptyArray ha =>
    obtain ⟨depth, rfl⟩ : ∃ d, depth = d + 1 := ⟨depth - 1, by simp at hdepth; omega⟩
    refine skipsValue_array fun r fuel hfuel => ?_
    obtain ⟨fuel, rfl⟩ := Nat.exists_eq_succ_of_ne_zero (Nat.ne_zero_of_lt hfuel)
    exact ⟨[], readItems_end ha fuel true r⟩
  | @array t _ ih =>
    obtain ⟨depth, rfl⟩ : ∃ d, depth = d + 1 := ⟨depth - 1, by simp at hdepth; omega⟩
    have hitems : SkipsItems depth t := ih (by simp at hdepth; omega)
    exact skipsValue_array fun r fuel hfuel => hitems fuel true [] r hfuel .first
  | emptyObject ha =>
    obtain ⟨depth, rfl⟩ : ∃ d, depth = d + 1 := ⟨depth - 1, by simp at hdepth; omega⟩
    refine skipsValue_object fun r fuel hfuel => ?_
    obtain ⟨fuel, rfl⟩ := Nat.exists_eq_succ_of_ne_zero (Nat.ne_zero_of_lt hfuel)
    exact ⟨[], readEntries_end ha fuel true [] r⟩
  | @object t _ ih =>
    obtain ⟨depth, rfl⟩ : ∃ d, depth = d + 1 := ⟨depth - 1, by simp at hdepth; omega⟩
    have hentries : SkipsEntries depth t := ih (by simp at hdepth; omega)
    exact skipsValue_object fun r fuel hfuel => hentries fuel true [] [] r hfuel .first
  | @lastItem a v b ha hv hb ih =>
    intro fuel first p r hfuel hp
    have hskips : SkipsValue depth v := ih (by simp at hdepth; omega)
    obtain ⟨fuel, rfl⟩ : ∃ f, fuel = f + 2 := ⟨fuel - 2, by
      obtain ⟨c, u, rfl, -⟩ := hv.head
      simp at hfuel
      omega⟩
    rw [List.append_assoc, List.append_assoc]
    exact readItems_skipping hp ha hv hskips (endsValue_append hb (by simp) r)
      ⟨[], readItems_end hb fuel false r⟩
  | @item a v b t ha hv hb _ ihv iht =>
    intro fuel first p r hfuel hp
    have hskips : SkipsValue depth v := ihv (by simp at hdepth; omega)
    have hitems : SkipsItems depth t := iht (by simp at hdepth; omega)
    obtain ⟨fuel, rfl⟩ := Nat.exists_eq_succ_of_ne_zero (Nat.ne_zero_of_lt hfuel)
    have hrest := hitems fuel false (b ++ [',']) r (by simp at hfuel; omega) (.next hb)
    rw [List.append_assoc, List.singleton_append] at hrest
    rw [List.append_assoc, List.append_assoc, List.append_assoc, List.cons_append]
    exact readItems_skipping hp ha hv hskips (endsValue_append hb (by simp) _) hrest
  | @lastEntry a k x y v b ha hk hx hy _ hb ih =>
    intro fuel first p es r hfuel hp
    have hskips : SkipsValue depth v := ih (by simp [entryText] at hdepth; omega)
    obtain ⟨fuel, rfl⟩ : ∃ f, fuel = f + 2 :=
      ⟨fuel - 2, by simp [entryText] at hfuel; omega⟩
    rw [List.append_assoc, List.append_assoc]
    exact readEntries_skipping hp ha hk hx hy hskips (endsValue_append hb (by simp) r)
      fun es => ⟨es, readEntries_end hb fuel false es r⟩
  | @entry a k x y v b t ha hk hx hy _ hb _ ihv iht =>
    intro fuel first p es r hfuel hp
    have hskips : SkipsValue depth v := ihv (by simp [entryText] at hdepth; omega)
    have hentries : SkipsEntries depth t := iht (by simp [entryText] at hdepth; omega)
    obtain ⟨fuel, rfl⟩ := Nat.exists_eq_succ_of_ne_zero (Nat.ne_zero_of_lt hfuel)
    rw [List.append_assoc, List.append_assoc, List.append_assoc, List.cons_append]
    refine readEntries_skipping hp ha hk hx hy hskips (endsValue_append hb (by simp) _) fun es => ?_
    have hrest := hentries fuel false (b ++ [',']) es r
      (by simp [entryText] at hfuel; omega) (.next hb)
    rwa [List.append_assoc, List.singleton_append] at hrest

/-- A value of the grammar is passed over, whatever it is. -/
theorem IsText.skipValue_eq (h : IsText .value v) (ha : Blanks a) (hr : EndsValue r) :
    skipValue (a ++ (v ++ r)) = .ok r := by
  have hskips : SkipsValue (a ++ (v ++ r)).length v := h.skips (by simp; omega)
  rw [skipValue, hskips a r ha hr]
  rfl

end Json

end Stencil
