import Stencil.Scope
import Stencil.Value.Display

/-!
# The texts in a value

`Value.Lacks c` says that no text in a value holds the character `c`, at any depth and in any cell;
the keys of objects do not count, since they are never written. What a path leads to in such a value
lacks the character too, and so does the scope of an item. If the character is a brace, it is not in
what is written for the value either (`notMem_display_of_lacks`): numbers are written with digits
and the characters of `numeralChars`.
-/

namespace Stencil

/-! ## Texts of numbers -/

/-- The characters other than digits that numbers are written with. -/
def Number.numeralChars : Text := ['N', 'a', 'I', 'n', 'f', 'i', 't', 'y', '+', '-', '.', 'e']

/-- Whether a number is written with a character. -/
def Number.WrittenWith (c : Char) : Prop := c.isDigit = true ∨ c ∈ numeralChars

namespace Number

/-- Numerals are written with digits. -/
theorem writtenWith_of_mem_toDigits {c : Char} {n : Nat} (h : c ∈ Nat.toDigits 10 n) :
    WrittenWith c :=
  .inl (Nat.isDigit_of_mem_toDigits (by decide) (by decide) h)

/-- An exponent is written with a sign and digits. -/
theorem writtenWith_of_mem_exponentText {c : Char} {e : Int} (h : c ∈ exponentText e) :
    WrittenWith c := by
  unfold exponentText at h
  rcases List.mem_cons.1 h with h | h
  · right
    split at h <;> subst h <;> decide
  · exact writtenWith_of_mem_toDigits h

/-- Zeros are digits. -/
theorem writtenWith_of_mem_zeros {c : Char} {n : Nat} (h : c ∈ zeros n) : WrittenWith c := by
  obtain rfl := List.eq_of_mem_replicate h
  exact .inl rfl

/-- The scientific form adds a point and an exponent to the digits. -/
theorem writtenWith_of_mem_scientific {c : Char} {digits : Text} {point : Int}
    (hdigits : ∀ x ∈ digits, WrittenWith x) (h : c ∈ scientific digits point) : WrittenWith c := by
  unfold scientific at h
  simp only [List.mem_append, List.mem_cons] at h
  rcases h with (h | h) | h | h
  · exact hdigits c (List.mem_of_mem_take h)
  · split at h
    · simp at h
    · rcases List.mem_cons.1 h with rfl | h
      · exact .inr (by decide)
      · exact hdigits c (List.mem_of_mem_drop h)
  · subst h
    exact .inr (by decide)
  · exact writtenWith_of_mem_exponentText h

/-- The positional form adds a point and zeros to the digits. -/
theorem writtenWith_of_mem_positional {c : Char} {digits : Text} {point : Int}
    (hdigits : ∀ x ∈ digits, WrittenWith x) (h : c ∈ positional digits point) : WrittenWith c := by
  have hpoint : WrittenWith '.' := .inr (by decide)
  unfold positional at h
  split at h
  · simp only [List.cons_append, List.mem_cons, List.mem_append] at h
    rcases h with rfl | rfl | h | h
    · exact .inl rfl
    · exact hpoint
    · exact writtenWith_of_mem_zeros h
    · exact hdigits c h
  · dsimp only at h
    split at h
    · rcases List.mem_append.1 h with h | h
      · exact hdigits c h
      · exact writtenWith_of_mem_zeros h
    · simp only [List.mem_append, List.mem_cons] at h
      rcases h with h | rfl | h
      · exact hdigits c (List.mem_of_mem_take h)
      · exact hpoint
      · exact hdigits c (List.mem_of_mem_drop h)

/-- A number is written with digits and the characters of `numeralChars`. -/
theorem writtenWith_of_mem_display {c : Char} {n : Number} (h : c ∈ n.display) :
    WrittenWith c := by
  have hsign (negative : Bool) (h : c ∈ if negative then ['-'] else []) : WrittenWith c := by
    split at h
    · obtain rfl := List.mem_singleton.1 h
      exact .inr (by decide)
    · simp at h
  have hword {word : Text} (hall : word.all (· ∈ numeralChars) = true) (h : c ∈ word) :
      WrittenWith c :=
    .inr (of_decide_eq_true (List.all_eq_true.1 hall c h))
  cases n with
  | nan => exact hword (by decide : (display .nan).all (· ∈ numeralChars) = true) h
  | infinity negative =>
    rcases List.mem_append.1 h with h | h
    · exact hsign negative h
    · exact hword (by decide : infinityWord.all (· ∈ numeralChars) = true) h
  | finite negative m =>
    simp only [display] at h
    split at h
    · obtain rfl := List.mem_singleton.1 h
      exact .inl rfl
    · rcases List.mem_append.1 h with h | h
      · exact hsign negative h
      · unfold Magnitude.display at h
        split at h
        · exact writtenWith_of_mem_toDigits h
        · have hdigits : ∀ x ∈ dropZeros (Nat.toDigits 10 m.shortest.digits), WrittenWith x := by
            intro x hx
            unfold dropZeros at hx
            have hx' := (List.dropWhile_suffix _).mem (List.mem_reverse.1 hx)
            exact writtenWith_of_mem_toDigits (List.mem_reverse.1 hx')
          dsimp only at h
          split at h
          · exact writtenWith_of_mem_scientific hdigits h
          · exact writtenWith_of_mem_positional hdigits h

end Number

namespace Value

/-! ## Texts of values -/

mutual

/-- No text in the value holds the character. -/
def Lacks (c : Char) : Value → Prop
  | text t => c ∉ t
  | array items => ItemsLack c items
  | object entries => EntriesLack c entries
  | cell v => v.Lacks c
  | null => True
  | bool _ => True
  | number _ => True
termination_by structural v => v

/-- No text in the items of an array holds the character. -/
def ItemsLack (c : Char) : List Value → Prop
  | [] => True
  | v :: rest => v.Lacks c ∧ ItemsLack c rest
termination_by structural items => items

/-- No text in the entries of an object holds the character. -/
def EntriesLack (c : Char) : List (Text × Value) → Prop
  | [] => True
  | (_, v) :: rest => v.Lacks c ∧ EntriesLack c rest
termination_by structural entries => entries

end

variable {c : Char} {v w : Value}

/-- An array lacks what each of its items lacks. -/
theorem itemsLack_iff {items : List Value} : ItemsLack c items ↔ ∀ v ∈ items, v.Lacks c := by
  induction items with
  | nil => simp [ItemsLack]
  | cons v rest ih => simp [ItemsLack, ih]

/-- An object lacks what the value of each of its entries lacks. -/
theorem entriesLack_iff {entries : List (Text × Value)} :
    EntriesLack c entries ↔ ∀ e ∈ entries, e.2.Lacks c := by
  induction entries with
  | nil => simp [EntriesLack]
  | cons e rest ih => simp [EntriesLack, ih]

/-- A value lacks what its content lacks. -/
theorem lacks_content (v : Value) : v.content.Lacks c ↔ v.Lacks c := by
  fun_induction content v with
  | case1 v ih => rw [ih, Lacks]
  | case2 v h => rfl

/-- Setting a key adds no text but those of the value. -/
theorem EntriesLack.set {key : Text} {entries : Entries Value} (hv : v.Lacks c)
    (h : EntriesLack c entries) : EntriesLack c (Entries.set key v entries) := by
  induction entries with
  | nil => exact ⟨hv, trivial⟩
  | cons e rest ih =>
    obtain ⟨k, u⟩ := e
    unfold Entries.set
    split
    · exact ⟨hv, h.2⟩
    · exact ⟨h.1, ih h.2⟩

/-- The properties of a value lack what the value lacks. -/
theorem Lacks.property? {key : Text} (hv : v.Lacks c) (h : v.property? key = some w) :
    w.Lacks c := by
  have hc := (lacks_content v).2 hv
  unfold Value.property? at h
  split at h
  · next entries he =>
    rw [he, Lacks, entriesLack_iff] at hc
    exact hc _ (Entries.mem_of_get?_eq_some h)
  · next items hi =>
    rw [hi, Lacks, itemsLack_iff] at hc
    split at h
    · cases h
      trivial
    · obtain ⟨i, -, hget⟩ := Option.bind_eq_some_iff.1 h
      exact hc w (List.mem_of_getElem? hget)
  · cases h

/-- What keys lead to lacks what the value lacks. -/
theorem Lacks.follow? {ks : List Text} (hv : v.Lacks c) (h : follow? ks v = some w) :
    w.Lacks c := by
  induction ks generalizing v with
  | nil =>
    obtain rfl := Option.some.inj h
    exact (lacks_content v).2 hv
  | cons k ks ih =>
    obtain ⟨u, hu, hw⟩ := Option.bind_eq_some_iff.1 h
    exact ih (hv.property? hu) hw

/-- What a path leads to lacks what the context lacks. -/
theorem Lacks.resolve? {path : Text} (hv : v.Lacks c) (h : v.resolve? path = some w) :
    w.Lacks c := by
  unfold Value.resolve? at h
  split at h
  · cases h
  · exact hv.follow? h

/-- The items of an array that a path leads to lack what the context lacks. -/
theorem Lacks.resolveArray? {path : Text} {items : List Value} (hv : v.Lacks c)
    (h : v.resolveArray? path = some items) : ∀ item ∈ items, item.Lacks c := by
  unfold Value.resolveArray? at h
  split at h
  · next items' hitems =>
    cases h
    have hc := hv.resolve? hitems
    rwa [Lacks, itemsLack_iff] at hc
  · cases h

/-- The items of an array as entries lack what the items lack. -/
theorem entriesLack_indexedEntries {items : List Value} (index : Nat) (h : ItemsLack c items) :
    EntriesLack c (indexedEntries index items) := by
  induction items generalizing index with
  | nil => trivial
  | cons v rest ih => exact ⟨h.1, ih (index + 1) h.2⟩

/-- The scope of an item lacks what the item lacks. -/
theorem Lacks.itemScope (hv : v.Lacks c) (index length : Nat) :
    (Stencil.itemScope v index length).Lacks c := by
  have hown : EntriesLack c v.ownEntries := by
    have hc := (lacks_content v).2 hv
    unfold ownEntries
    split
    · next entries he =>
      rwa [he, Lacks] at hc
    · next items hi =>
      rw [hi, Lacks] at hc
      exact entriesLack_indexedEntries 0 hc
    · trivial
  unfold Stencil.itemScope
  rw [Lacks]
  exact ((hown.set (by simp [Lacks])).set (by simp [Lacks])).set (by simp [Lacks])

/-! ## Braces -/

mutual

/-- A brace that no text in a value holds is not written for the value. -/
theorem notMem_display_of_lacks (hc : c = '{' ∨ c = '}') :
    (v : Value) → v.Lacks c → c ∉ v.display
  | null, _ => by simp [display]
  | bool b, _ => by rcases hc with rfl | rfl <;> cases b <;> decide
  | number n, _ => fun h => by
    have hw := Number.writtenWith_of_mem_display (by simpa only [display] using h)
    rcases hc with rfl | rfl
    · exact absurd hw (by unfold Number.WrittenWith; decide)
    · exact absurd hw (by unfold Number.WrittenWith; decide)
  | text t, h => by simpa only [display, Lacks] using h
  | array items, h => by
    rw [Lacks] at h
    simpa only [display] using notMem_displayItems_of_lacks hc items h
  | object entries, _ => by
    rw [display]
    rcases hc with rfl | rfl <;> decide
  | cell v, h => by
    rw [Lacks] at h
    simpa only [display] using notMem_display_of_lacks hc v h

/-- A brace that no text in the items holds is not written for them. -/
theorem notMem_displayItems_of_lacks (hc : c = '{' ∨ c = '}') :
    (items : List Value) → ItemsLack c items → c ∉ displayItems items
  | [], _ => by simp [displayItems]
  | [v], h => by
    simpa only [displayItems] using notMem_display_of_lacks hc v h.1
  | v :: w :: rest, h => by
    have hv := notMem_display_of_lacks hc v h.1
    have hrest := notMem_displayItems_of_lacks hc (w :: rest) h.2
    have hcomma : c ≠ ',' := by rcases hc with rfl | rfl <;> decide
    rw [displayItems]
    · simp [hv, hrest, hcomma]
    · simp

end

end Value

end Stencil
