import Stencil.Proofs.Scan.Opener

/-!
# Places in bytes

A program that holds a text as UTF-8 names its places by bytes. It stops if it cuts a text at a byte
that does not begin a character, or takes a number from a smaller one. `Checked` is what such a
program gives: a value, or the `Panic` that stopped it.

`Checked.slice` succeeds exactly for a part of the text that begins and ends between characters
(`Checked.isOk_slice_iff`), and gives that part (`Checked.slice_eq_ok_iff`). `Checked.find` and
`Checked.findFirst` say by its place where a text stands in another.
-/

namespace Stencil

namespace Text

/-! ## Bytes -/

/-- `utf8Length` counts the bytes of the text as a string. -/
theorem utf8ByteSize_ofList (t : Text) : (String.ofList t).utf8ByteSize = utf8Length t := by
  induction t with
  | nil => rfl
  | cons c t ih =>
    have hone : (String.ofList [c]).utf8ByteSize = c.utf8Size := by
      rw [← String.singleton_eq_ofList, String.utf8ByteSize_singleton]
    rw [← List.singleton_append, String.ofList_append, String.utf8ByteSize_append, hone, ih]
    rfl

/-- Only the empty text has no bytes. -/
theorem utf8Length_eq_zero_iff {t : Text} : utf8Length t = 0 ↔ t = [] := by
  cases t with
  | nil => simp
  | cons c t =>
    have hpos := c.utf8Size_pos
    simp only [utf8Length_cons, reduceCtorEq, iff_false]
    omega

/-- Of two beginnings of a text the one with fewer bytes has fewer characters. -/
theorem length_le_of_utf8Length_le {a b t : Text} (ha : a <+: t) (hb : b <+: t)
    (hle : utf8Length a ≤ utf8Length b) : a.length ≤ b.length := by
  rcases List.prefix_or_prefix_of_prefix ha hb with hab | ⟨s, rfl⟩
  · exact hab.length_le
  · rw [utf8Length_append] at hle
    obtain rfl : s = [] := utf8Length_eq_zero_iff.1 (by omega)
    simp

/-! ## Splitting at a byte -/

/-- The text before a byte and the text from it on, if the byte begins a character or ends the
text. -/
def splitAt? : Nat → Text → Option (Text × Text)
  | 0, t => some ([], t)
  | _ + 1, [] => none
  | n + 1, c :: t =>
    if c.utf8Size ≤ n + 1 then (splitAt? (n + 1 - c.utf8Size) t).map fun (a, b) => (c :: a, b)
    else none

/-- `splitAt?` splits a text after as many bytes as it is told. -/
theorem splitAt?_eq_some_iff {n : Nat} {t a b : Text} :
    splitAt? n t = some (a, b) ↔ t = a ++ b ∧ utf8Length a = n := by
  fun_induction splitAt? n t generalizing a b with
  | case1 t =>
    simp only [Option.some.injEq, Prod.mk.injEq, utf8Length_eq_zero_iff]
    exact ⟨fun ⟨ha, hb⟩ => ⟨by rw [← ha, ← hb]; rfl, ha.symm⟩,
      fun ⟨h, ha⟩ => ⟨ha.symm, by rw [h, ha]; rfl⟩⟩
  | case2 n =>
    simp only [reduceCtorEq, false_iff]
    rintro ⟨h, hn⟩
    rw [(List.append_eq_nil_iff.1 h.symm).1] at hn
    cases hn
  | case3 n c t hle ih =>
    simp only [Option.map_eq_some_iff, Prod.mk.injEq, Prod.exists, ih]
    constructor
    · rintro ⟨a', b', ⟨rfl, hn⟩, rfl, rfl⟩
      refine ⟨rfl, ?_⟩
      rw [utf8Length_cons]
      omega
    · rintro ⟨h, hn⟩
      rcases a with _ | ⟨d, a⟩
      · cases hn
      · obtain ⟨rfl, ht⟩ : c = d ∧ t = a ++ b := by simpa using h
        rw [utf8Length_cons] at hn
        exact ⟨a, b, ⟨ht, by omega⟩, rfl, rfl⟩
  | case4 n c t hlt =>
    -- The byte is within the first character.
    simp only [reduceCtorEq, false_iff]
    rintro ⟨h, hn⟩
    rcases a with _ | ⟨d, a⟩
    · cases hn
    · obtain ⟨rfl, -⟩ : c = d ∧ t = a ++ b := by simpa using h
      rw [utf8Length_cons] at hn
      omega

/-- A text can be split exactly at the valid positions of the string. -/
theorem isSome_splitAt?_iff {n : Nat} {t : Text} :
    (splitAt? n t).isSome = true ↔ (⟨n⟩ : String.Pos.Raw).IsValid (String.ofList t) := by
  rw [String.Pos.Raw.isValid_ofList]
  simp only [utf8ByteSize_ofList, Option.isSome_iff_exists, Prod.exists, splitAt?_eq_some_iff]
  constructor
  · rintro ⟨a, b, rfl, hn⟩
    exact ⟨a.length, by simpa using hn.symm⟩
  · rintro ⟨i, hi⟩
    exact ⟨t.take i, t.drop i, (List.take_append_drop i t).symm, hi.symm⟩

end Text

/-! ## Programs that may stop -/

/-- What stops a program. -/
inductive Panic where
  /-- A text was cut at bytes where it cannot be cut. -/
  | cut (start stop : Nat)
  /-- A number was taken from a smaller one. -/
  | underflow (m n : Nat)
deriving DecidableEq

/-- What a program gives that may stop. -/
abbrev Checked (α : Type) : Type := Except Panic α

namespace Checked

/-- A step that does not stop hands on its value. -/
@[simp] theorem ok_bind {α β : Type} (a : α) (f : α → Checked β) : (Except.ok a >>= f) = f a := rfl

/-- What follows a step gives a value if the step gives one to it. -/
theorem bind_eq_ok_iff {α β : Type} {x : Checked α} {f : α → Checked β} {b : β} :
    (x >>= f) = .ok b ↔ ∃ a, x = .ok a ∧ f a = .ok b := by
  cases x with
  | error p => exact ⟨nofun, fun ⟨_, h, _⟩ => nomatch h⟩
  | ok a => exact ⟨fun h => ⟨a, rfl, h⟩, fun ⟨_, ha, h⟩ => Except.ok.inj ha ▸ h⟩

/-- The difference of two numbers, which is not negative. -/
def subtract (m n : Nat) : Checked Nat := if n ≤ m then .ok (m - n) else .error (.underflow m n)

/-- The text before a byte and the text from it on. -/
def splitAt (t : Text) (place : Nat) : Checked (Text × Text) :=
  match Text.splitAt? place t with
  | some parts => .ok parts
  | none => .error (.cut 0 place)

/-- The part of a text between two bytes. -/
def slice (t : Text) (start stop : Nat) : Checked Text :=
  match Text.splitAt? stop t with
  | some (head, _) =>
    match Text.splitAt? start head with
    | some (_, part) => .ok part
    | none => .error (.cut start stop)
  | none => .error (.cut start stop)

/-- A difference is computed exactly if it is not negative. -/
theorem isOk_subtract_iff {m n : Nat} : (subtract m n).isOk = true ↔ n ≤ m := by
  unfold subtract
  split
  · next h => simpa [Except.isOk, Except.toBool] using h
  · next h => simpa [Except.isOk, Except.toBool] using h

/-- What is taken from a sum that has it as a part is the rest. -/
@[simp] theorem subtract_add_left (m n : Nat) : subtract (m + n) m = .ok n := by
  simp [subtract]

/-- A text is split where one part of it ends. -/
theorem splitAt_append {t a b : Text} {place : Nat} (ht : t = a ++ b)
    (hplace : Text.utf8Length a = place) : splitAt t place = .ok (a, b) := by
  rw [splitAt, Text.splitAt?_eq_some_iff.2 ⟨ht, hplace⟩]

/-- A text is split exactly where a character begins, or the text ends. -/
theorem isOk_splitAt_iff {t : Text} {place : Nat} : (splitAt t place).isOk = true ↔
    (⟨place⟩ : String.Pos.Raw).IsValid (String.ofList t) := by
  rw [← Text.isSome_splitAt?_iff, splitAt]
  rcases Text.splitAt? place t with _ | parts
  · simp [Except.isOk, Except.toBool]
  · simp [Except.isOk, Except.toBool]

/-- `slice` gives the part of a text that begins and ends at the two bytes. -/
theorem slice_eq_ok_iff {t s : Text} {start stop : Nat} : slice t start stop = .ok s ↔
    ∃ a b, t = a ++ s ++ b ∧ Text.utf8Length a = start ∧ Text.utf8Length (a ++ s) = stop := by
  unfold slice
  constructor
  · intro h
    split at h
    · next head rest hstop =>
      split at h
      · next a part hstart =>
        cases h
        obtain ⟨rfl, hlen⟩ := Text.splitAt?_eq_some_iff.1 hstart
        obtain ⟨ht, hlen'⟩ := Text.splitAt?_eq_some_iff.1 hstop
        exact ⟨a, rest, ht, hlen, hlen'⟩
      · cases h
    · cases h
  · rintro ⟨a, b, ht, hstart, hstop⟩
    simp only [Text.splitAt?_eq_some_iff.2 ⟨ht, hstop⟩, Text.splitAt?_eq_some_iff.2 ⟨rfl, hstart⟩]

/-- The part of a text after one part and before another. -/
theorem slice_append {t a s b : Text} {start stop : Nat} (ht : t = a ++ s ++ b)
    (hstart : Text.utf8Length a = start) (hstop : Text.utf8Length a + Text.utf8Length s = stop) :
    slice t start stop = .ok s :=
  slice_eq_ok_iff.2 ⟨a, b, ht, hstart, by rw [Text.utf8Length_append, hstop]⟩

/-- The part of a text after another. -/
theorem slice_to_end {t a s : Text} {start : Nat} (ht : t = a ++ s)
    (hstart : Text.utf8Length a = start) : slice t start (Text.utf8Length t) = .ok s :=
  slice_append (b := []) (by rw [ht, List.append_nil]) hstart
    (by rw [ht, Text.utf8Length_append])

/-- A part of a text is given exactly if its bytes are in order and within the text, and both stand
between characters. -/
theorem isOk_slice_iff {t : Text} {start stop : Nat} : (slice t start stop).isOk = true ↔
    start ≤ stop ∧ stop ≤ (String.ofList t).utf8ByteSize ∧
      (⟨start⟩ : String.Pos.Raw).IsValid (String.ofList t) ∧
      (⟨stop⟩ : String.Pos.Raw).IsValid (String.ofList t) := by
  simp only [← Text.isSome_splitAt?_iff, Text.utf8ByteSize_ofList, Option.isSome_iff_exists,
    Prod.exists, Text.splitAt?_eq_some_iff]
  constructor
  · intro h
    rcases hs : slice t start stop with e | s
    · rw [hs] at h
      cases h
    · obtain ⟨a, b, rfl, rfl, rfl⟩ := slice_eq_ok_iff.1 hs
      refine ⟨?_, ?_, ⟨a, s ++ b, by simp, rfl⟩, ⟨a ++ s, b, rfl, rfl⟩⟩
      · rw [Text.utf8Length_append]
        omega
      · rw [Text.utf8Length_append (a ++ s)]
        omega
  · rintro ⟨hle, -, ⟨a, b, ha, rfl⟩, c, d, hc, rfl⟩
    -- The shorter beginning of the text begins the longer one.
    have hac : a <+: c := by
      have hat : a <+: t := ⟨b, ha.symm⟩
      have hct : c <+: t := ⟨d, hc.symm⟩
      exact List.prefix_of_prefix_length_le hat hct (Text.length_le_of_utf8Length_le hat hct hle)
    obtain ⟨s, rfl⟩ := hac
    rw [slice_append hc rfl (Text.utf8Length_append a s).symm]
    rfl

/-! ## Finding texts -/

/-- The byte at which a text first stands in another. -/
def find (needle t : Text) : Option Nat := (Text.cut? needle t).map fun (a, _) => Text.utf8Length a

/-- The member of a list whose text stands first in a text, with the byte at which it does. -/
def findFirst {α : Type} (text : α → Text) (l : List α) (t : Text) : Option (Nat × α) :=
  (l.filterMap fun x => (find (text x) t).map (·, x)).minOn? Prod.fst

/-- A place that is found is where a first occurrence begins. -/
theorem find_eq_some_iff {needle t : Text} {place : Nat} : find needle t = some place ↔
    ∃ a b, Text.cut? needle t = some (a, b) ∧ Text.utf8Length a = place := by
  simp [find]

variable {α : Type} {text : α → Text} {l : List α} {t : Text}

/-- Nothing is found exactly if no text of the list stands anywhere. -/
theorem findFirst_eq_none_iff : findFirst text l t = none ↔ ∀ x ∈ l, ¬ text x <:+: t := by
  have hnone : findFirst text l t = none ↔
      (l.filterMap fun x => (find (text x) t).map (·, x)) = [] := by
    rw [findFirst, ← Option.not_isSome_iff_eq_none, List.isSome_minOn?_iff, ne_eq,
      Decidable.not_not]
  rw [hnone, List.filterMap_eq_nil_iff]
  simp [find, Text.cut?_eq_none_iff]

/-- What is found is a text of the list after a text that avoids them all. -/
theorem exists_of_findFirst_eq_some {place : Nat} {x : α}
    (h : findFirst text l t = some (place, x)) :
    x ∈ l ∧ ∃ a b, t = a ++ (text x ++ b) ∧ Text.utf8Length a = place ∧
      ∀ y ∈ l, Text.Avoids (text y) a (text x ++ b) := by
  have hplaces (p : Nat) (y : α) : (p, y) ∈ l.filterMap (fun y => (find (text y) t).map (·, y)) ↔
      y ∈ l ∧ find (text y) t = some p := by
    simp only [List.mem_filterMap, Option.map_eq_some_iff, Prod.mk.injEq]
    exact ⟨fun ⟨_, hz, _, hq, hp, hy⟩ => hp ▸ hy ▸ ⟨hz, hq⟩,
      fun ⟨hy, hp⟩ => ⟨y, hy, p, hp, rfl, rfl⟩⟩
  obtain ⟨hx, hfind⟩ := (hplaces place x).1 (List.minOn?_mem h)
  obtain ⟨a, b, hcut, hlen⟩ := find_eq_some_iff.1 hfind
  obtain ⟨ht, -⟩ := Text.cut?_eq_some_iff.1 hcut
  rw [List.append_assoc] at ht
  refine ⟨hx, a, b, ht, hlen, fun y hy c hc => ?_⟩
  rw [← ht] at hc
  -- The first occurrence of another text begins no earlier.
  rcases hcut' : Text.cut? (text y) t with _ | ⟨a', b'⟩
  · obtain ⟨s, hs⟩ := hc
    exact absurd ⟨c, s, hs⟩ (Text.cut?_eq_none_iff.1 hcut')
  · obtain ⟨ht', hfirst'⟩ := Text.cut?_eq_some_iff.1 hcut'
    have hmem := (hplaces (Text.utf8Length a') y).2 ⟨hy, find_eq_some_iff.2 ⟨a', b', hcut', rfl⟩⟩
    have hle := List.apply_get_minOn?_le_of_mem (f := Prod.fst) hmem
    simp only [findFirst] at h
    simp only [h, Option.get_some] at hle
    have hprefix : a' <+: t := ⟨text y ++ b', by rw [ht', List.append_assoc]⟩
    exact Nat.le_trans
      (Text.length_le_of_utf8Length_le ⟨_, ht.symm⟩ hprefix (hlen ▸ hle)) (hfirst'.2 c hc)

end Checked

end Stencil
