import Stencil.Options.Json
import Stencil.Proofs.Json.Grammar
import Stencil.Proofs.Number.Digits

/-!
# Options that are read

An object of options holds entries in any order, with blanks wherever they may stand and any way of
quoting (`Options.IsObject`). If no option stands twice in it, it is read, and each option has the
value that it is given, or its default if it is given none; entries with other keys are passed over,
whatever their values are (`Options.parse_of_isObject`). What is written for options is such an
object, so options are read back (`Options.parse_reads`).
-/

namespace Stencil

open Json (Blanks EndsValue entryText)

namespace Options

/-- The keys that are known. -/
def knownKeys : List Text := [maxPassesKey, arrayRootKeyKey, detectionKey]

end Options

/-- What an entry of an object of options says. -/
inductive Setting where
  | maxPasses (n : UInt64)
  | arrayRootKey (t : Text)
  | detection (d : Detection)
  /-- Nothing: the key is not known. -/
  | unknown

namespace Setting

/-- The key of an option. -/
def key? : Setting → Option Text
  | maxPasses _ => some Options.maxPassesKey
  | arrayRootKey _ => some Options.arrayRootKeyKey
  | detection _ => some Options.detectionKey
  | unknown => none

/-- The key and the text of the value with which an entry is written. Quoted texts have any of their
forms, a way of looking for operators is its name, alone or as the only key of an object with `null`
under it, and an entry whose key is not known has any value. -/
inductive IsWritten : Setting → Text → Text → Prop
  | maxPasses (n : UInt64) :
    IsWritten (maxPasses n) Options.maxPassesKey (Nat.toDigits 10 n.toNat)
  | arrayRootKey {t s : Text} (h : Quoted.Spells t s) :
    IsWritten (arrayRootKey s) Options.arrayRootKeyKey ('"' :: (t ++ ['"']))
  | detection {t : Text} {d : Detection} (h : Quoted.Spells t d.name) :
    IsWritten (detection d) Options.detectionKey ('"' :: (t ++ ['"']))
  | detectionObject {a t b c e : Text} {d : Detection} (ha : Blanks a)
    (h : Quoted.Spells t d.name) (hb : Blanks b) (hc : Blanks c) (he : Blanks e) :
    IsWritten (detection d) Options.detectionKey
      ('{' :: (a ++ (entryText t b c ['n', 'u', 'l', 'l'] ++ (e ++ ['}']))))
  | unknown {key v : Text} (hkey : key ∉ Options.knownKeys) (hv : Json.IsText .value v) :
    IsWritten unknown key v

end Setting

namespace Options

/-- The entries of an object of options, with what they say. -/
inductive IsEntries : List Setting → Text → Prop
  | last {s : Setting} {a k key c d v b : Text} (ha : Blanks a) (hk : Quoted.Spells k key)
    (hc : Blanks c) (hd : Blanks d) (hs : s.IsWritten key v) (hb : Blanks b) :
    IsEntries [s] (a ++ (entryText k c d v ++ b))
  | cons {s : Setting} {rest : List Setting} {a k key c d v b t : Text} (ha : Blanks a)
    (hk : Quoted.Spells k key) (hc : Blanks c) (hd : Blanks d) (hs : s.IsWritten key v)
    (hb : Blanks b) (h : IsEntries rest t) :
    IsEntries (s :: rest) (a ++ (entryText k c d v ++ (b ++ ',' :: t)))

/-- An object of options, with what its entries say. -/
inductive IsObject : List Setting → Text → Prop
  | empty {a b c : Text} (ha : Blanks a) (hb : Blanks b) (hc : Blanks c) :
    IsObject [] (a ++ '{' :: (b ++ '}' :: c))
  | entries {settings : List Setting} {a t b : Text} (ha : Blanks a)
    (h : IsEntries settings t) (hb : Blanks b) : IsObject settings (a ++ '{' :: (t ++ '}' :: b))

/-- Options as settings give them: an option has the value that it is given, and its default if it
is given none. -/
structure GivenBy (o : Options) (settings : List Setting) : Prop where
  maxPasses : ∀ n, .maxPasses n ∈ settings → o.maxPasses = n
  maxPasses_default : (∀ n, .maxPasses n ∉ settings) → o.maxPasses = ({} : Options).maxPasses
  arrayRootKey : ∀ t, .arrayRootKey t ∈ settings → o.arrayRootKey = t
  arrayRootKey_default :
    (∀ t, .arrayRootKey t ∉ settings) → o.arrayRootKey = ({} : Options).arrayRootKey
  detection : ∀ d, .detection d ∈ settings → o.detection = d
  detection_default : (∀ d, .detection d ∉ settings) → o.detection = ({} : Options).detection

end Options

/-! ## Values -/

variable {a b c d e k key r s t v : Text}

/-- A quoted text is read. -/
theorem readScalar_quoted (ha : Blanks a) (h : Quoted.Spells t s) (r : Text) :
    readScalar (a ++ '"' :: (t ++ '"' :: r)) = .ok (.text s, r) := by
  rw [readScalar, skipBlanks_append_cons ha rfl]
  simp only [Char.reduceEq, or_self, if_false]
  show (Quoted.read (t ++ '"' :: r)).map _ = _
  rw [h.read_append]
  rfl

/-- Digits are appended as long as their value has 64 bits. -/
theorem JsonNumeral.appendDigits_eq {n : Nat} (h : Nat.ofDigitChars 10 t n < wordLimit) :
    appendDigits n t = (Nat.ofDigitChars 10 t n, t.length) := by
  induction t generalizing n with
  | nil => rfl
  | cons c t ih =>
    rw [Nat.ofDigitChars_cons] at h ⊢
    have hnext := Nat.lt_of_le_of_lt (le_ofDigitChars t _) h
    rw [appendDigits]
    simp only [hnext, if_true, ih h, List.length_cons]

/-- A number is written as the digits of a numeral. -/
theorem JsonNumeral.isWhole_toDigits (n : Nat) : IsWhole (Nat.toDigits 10 n) := by
  by_cases hn : n = 0
  · subst hn
    exact .inl rfl
  · exact .inr ⟨digitRun_toDigits n, head?_toDigits_ne_zero hn⟩

/-- A number of 64 bits is read as an integer. -/
theorem readNumeral_toDigits {n : Nat} (hn : n < JsonNumeral.wordLimit) (hr : EndsValue r) :
    readNumeral (Nat.toDigits 10 n ++ r) = .ok (.integer n, r) := by
  have hends := hr.ends_numeral
  have hread : JsonNumeral.read (Nat.toDigits 10 n ++ r) =
      .ok (⟨false, Nat.toDigits 10 n, none, none⟩, r) := by
    have hwhole := JsonNumeral.isWhole_toDigits n
    rw [JsonNumeral.read, hwhole.after?_minus]
    simp only [bind, Except.bind]
    rw [JsonNumeral.readWhole_append hwhole fun c hc => (hends c hc).1]
    simp only
    rw [JsonNumeral.readFraction_of_head fun c hc => (hends c hc).2.1]
    simp only
    rw [JsonNumeral.readExponent_of_head fun c hc => (hends c hc).2.2]
    rfl
  have hvalue : JsonNumeral.value? ⟨false, Nat.toDigits 10 n, none, none⟩ = some (.integer n) := by
    have hdigits : Nat.ofDigitChars 10 (Nat.toDigits 10 n) 0 = n := Nat.ofDigitChars_ten_toDigits
    have happend := JsonNumeral.appendDigits_eq (t := Nat.toDigits 10 n) (n := 0) (by rwa [hdigits])
    rw [hdigits] at happend
    simp [JsonNumeral.value?, happend]
  rw [readNumeral, hread]
  simp only [bind, Except.bind, hvalue]
  rfl

/-- A number of 64 bits is read. -/
theorem readWord64_toDigits (ha : Blanks a) (n : UInt64) (hr : EndsValue r) :
    readWord64 (a ++ (Nat.toDigits 10 n.toNat ++ r)) = .ok (n, r) := by
  have hnumeral := readNumeral_toDigits n.toNat_lt hr
  obtain ⟨c, u, hc, hdigit⟩ := (digitRun_toDigits n.toNat).head r
  obtain ⟨hblank, -, -, -, -, hbracket, -, hbrace⟩ := JsonNumeral.head_ne (.inr hdigit)
  rw [hc] at hnumeral ⊢
  have hscalar : readScalar (a ++ c :: u) = .ok (.integer n.toNat, r) := by
    rw [readScalar, skipBlanks_append_cons ha hblank]
    simp only [hbracket, hbrace, or_self, if_false]
    rw [Json.readNode_of_head documents none (.inr hdigit)]
    exact hnumeral
  rw [readWord64, hscalar]
  simp only [bind, Except.bind, Int.natCast_nonneg, if_true, Int.toNat_natCast]
  show Except.ok (UInt64.ofNat n.toNat, r) = _
  rw [UInt64.ofNat_toNat]

/-- A quoted text is read as such. -/
theorem readText_quoted (ha : Blanks a) (h : Quoted.Spells t s) (r : Text) :
    readText (a ++ '"' :: (t ++ '"' :: r)) = .ok (s, r) := by
  rw [readText, readScalar_quoted ha h]
  rfl

/-- A way of looking for operators is read from its name. -/
theorem Detection.read_quoted {d : Detection} (ha : Blanks a) (h : Quoted.Spells t d.name)
    (r : Text) : Detection.read (a ++ '"' :: (t ++ '"' :: r)) = .ok (d, r) := by
  rw [Detection.read, skipBlanks_append_cons ha rfl]
  simp only [if_true]
  rw [readName, h.read_append]
  simp only [bind, Except.bind, ofName?_name]
  rfl

/-- A null is read. -/
theorem readScalar_null (ha : Blanks a) (r : Text) :
    readScalar (a ++ 'n' :: 'u' :: 'l' :: 'l' :: r) = .ok (.null, r) := by
  rw [readScalar, skipBlanks_append_cons ha rfl]
  rfl

/-- A way of looking for operators is read from an object with its name as the only key. -/
theorem Detection.read_object {x : Detection} (hd : Blanks d) (ha : Blanks a)
    (h : Quoted.Spells t x.name) (hb : Blanks b) (hc : Blanks c) (he : Blanks e) (r : Text) :
    Detection.read (d ++ '{' :: (a ++ '"' :: (t ++ '"' :: (b ++ ':' :: (c ++
      'n' :: 'u' :: 'l' :: 'l' :: (e ++ '}' :: r)))))) = .ok (x, r) := by
  rw [Detection.read, skipBlanks_append_cons hd rfl]
  simp only [Char.reduceEq, if_false, if_true]
  rw [readMark_append ha rfl]
  simp only [bind, Except.bind]
  rw [readName, h.read_append]
  simp only [bind, Except.bind, ofName?_name, pure, Except.pure]
  rw [readMark_append hb rfl]
  simp only [readScalar_null hc]
  rw [readMark_append he rfl]

/-- An object of which the first key is not quoted is no JSON, whatever stands there instead. -/
theorem Detection.read_unquoted {x : Char} (hd : Blanks d) (ha : Blanks a)
    (hblank : isJsonBlank x = false) (hquote : x ≠ '"') (r : Text) :
    Detection.read (d ++ '{' :: (a ++ x :: r)) = .error .malformed := by
  rw [Detection.read, skipBlanks_append_cons hd rfl]
  simp only [Char.reduceEq, if_false, if_true]
  rw [readMark, skipBlanks_append_cons ha hblank]
  simp only [if_neg hquote]
  rfl

/-- A number for a key is malformed, and not only unfit. -/
example : Detection.read ['{', '5', ':', 'n', 'u', 'l', 'l', '}'] = .error .malformed := rfl

/-! ## Entries -/

namespace PartialOptions

/-- The options with what an entry says. -/
def apply (o : PartialOptions) : Setting → PartialOptions
  | .maxPasses n => { o with maxPasses := some n }
  | .arrayRootKey t => { o with arrayRootKey := some t }
  | .detection d => { o with detection := some d }
  | .unknown => o

/-- The option that an entry gives was not read yet. -/
def Vacant (o : PartialOptions) : Setting → Prop
  | .maxPasses _ => o.maxPasses = none
  | .arrayRootKey _ => o.arrayRootKey = none
  | .detection _ => o.detection = none
  | .unknown => True

/-- The options that were read are those that entries give. -/
structure Hold (o : PartialOptions) (settings : List Setting) : Prop where
  maxPasses : ∀ n, o.maxPasses = some n ↔ .maxPasses n ∈ settings
  arrayRootKey : ∀ t, o.arrayRootKey = some t ↔ .arrayRootKey t ∈ settings
  detection : ∀ d, o.detection = some d ↔ .detection d ∈ settings

variable {o : PartialOptions} {setting : Setting} {before settings : List Setting}

/-- At first nothing was read. -/
theorem hold_nil : Hold {} [] where
  maxPasses := by simp
  arrayRootKey := by simp
  detection := by simp

/-- What no entry has given was not read. -/
theorem Hold.vacant (h : Hold o before)
    (hnew : ∀ key ∈ setting.key?, key ∉ before.filterMap Setting.key?) : o.Vacant setting := by
  have habsent (s : Setting) (hkey : s.key? = setting.key?) (hsome : s.key?.isSome = true) :
      s ∉ before := by
    obtain ⟨key, hs⟩ := Option.isSome_iff_exists.1 hsome
    exact fun hmem => hnew key (hkey ▸ hs) (List.mem_filterMap.2 ⟨s, hmem, hs⟩)
  cases setting with
  | maxPasses n =>
    exact Option.eq_none_iff_forall_ne_some.2 fun m hm =>
      habsent (.maxPasses m) rfl rfl ((h.maxPasses m).1 hm)
  | arrayRootKey t =>
    exact Option.eq_none_iff_forall_ne_some.2 fun u hu =>
      habsent (.arrayRootKey u) rfl rfl ((h.arrayRootKey u).1 hu)
  | detection d =>
    exact Option.eq_none_iff_forall_ne_some.2 fun e he =>
      habsent (.detection e) rfl rfl ((h.detection e).1 he)
  | unknown => exact trivial

/-- What an entry gives is read in addition. -/
theorem Hold.apply (h : Hold o before) (hvacant : o.Vacant setting) :
    Hold (o.apply setting) (before ++ [setting]) := by
  obtain ⟨hpasses, hroot, hdetection⟩ := h
  cases setting with
  | maxPasses n =>
    have hnone : o.maxPasses = none := hvacant
    have hbefore (m : UInt64) : .maxPasses m ∉ before := fun hmem => by
      simpa [hnone] using (hpasses m).2 hmem
    exact ⟨by simp [PartialOptions.apply, hbefore, eq_comm],
      by simp [PartialOptions.apply, hroot], by simp [PartialOptions.apply, hdetection]⟩
  | arrayRootKey t =>
    have hnone : o.arrayRootKey = none := hvacant
    have hbefore (u : Text) : .arrayRootKey u ∉ before := fun hmem => by
      simpa [hnone] using (hroot u).2 hmem
    exact ⟨by simp [PartialOptions.apply, hpasses],
      by simp [PartialOptions.apply, hbefore, eq_comm], by simp [PartialOptions.apply, hdetection]⟩
  | detection d =>
    have hnone : o.detection = none := hvacant
    have hbefore (e : Detection) : .detection e ∉ before := fun hmem => by
      simpa [hnone] using (hdetection e).2 hmem
    exact ⟨by simp [PartialOptions.apply, hpasses], by simp [PartialOptions.apply, hroot],
      by simp [PartialOptions.apply, hbefore, eq_comm]⟩
  | unknown =>
    exact ⟨by simp [PartialOptions.apply, hpasses], by simp [PartialOptions.apply, hroot],
      by simp [PartialOptions.apply, hdetection]⟩

/-- Options that were not read have their defaults. -/
theorem Hold.givenBy (h : Hold o settings) : o.complete.GivenBy settings where
  maxPasses n hn := by rw [complete, (h.maxPasses n).2 hn]; rfl
  maxPasses_default hno := by
    rw [complete, Option.eq_none_iff_forall_ne_some.2 fun n hn => hno n ((h.maxPasses n).1 hn)]
    rfl
  arrayRootKey t ht := by rw [complete, (h.arrayRootKey t).2 ht]; rfl
  arrayRootKey_default hno := by
    rw [complete, Option.eq_none_iff_forall_ne_some.2 fun t ht => hno t ((h.arrayRootKey t).1 ht)]
    rfl
  detection d hd := by rw [complete, (h.detection d).2 hd]; rfl
  detection_default hno := by
    rw [complete, Option.eq_none_iff_forall_ne_some.2 fun d hd => hno d ((h.detection d).1 hd)]
    rfl

end PartialOptions

namespace Options

open PartialOptions (Hold)

variable {o : PartialOptions} {setting : Setting} {before settings : List Setting}

/-- The value of an option is read if there was none before. -/
theorem readOnce_none {α : Type} {read : Reader α} {x : α} (hc : Blanks c)
    (hread : read t = .ok (x, r)) : readOnce none read (c ++ ':' :: t) = .ok (x, r) := by
  rw [readOnce]
  simp only [bind, Except.bind]
  rw [readMark_append hc rfl]
  exact hread

/-- An entry is read, and it changes the option that it gives. -/
theorem readEntry_eq (hvacant : o.Vacant setting) (hk : Quoted.Spells k key) (hc : Blanks c)
    (hd : Blanks d) (hs : setting.IsWritten key v) (hr : EndsValue r) :
    readEntry o (k ++ '"' :: (c ++ ':' :: (d ++ (v ++ r)))) = .ok (o.apply setting, r) := by
  have hroot : arrayRootKeyKey ≠ maxPassesKey := by decide
  have hdetection : detectionKey ≠ maxPassesKey ∧ detectionKey ≠ arrayRootKeyKey := by decide
  rw [readEntry, hk.read_append]
  simp only [bind, Except.bind]
  cases hs with
  | maxPasses n =>
    have hnone : o.maxPasses = none := hvacant
    rw [if_pos rfl, hnone, readOnce_none hc (readWord64_toDigits hd n hr)]
    rfl
  | arrayRootKey h =>
    have hnone : o.arrayRootKey = none := hvacant
    rw [if_neg hroot, if_pos rfl, hnone, List.cons_append, List.append_assoc,
      List.singleton_append, readOnce_none hc (readText_quoted hd h r)]
    rfl
  | detection h =>
    have hnone : o.detection = none := hvacant
    rw [if_neg hdetection.1, if_neg hdetection.2, if_pos rfl, hnone, List.cons_append,
      List.append_assoc, List.singleton_append, readOnce_none hc (Detection.read_quoted hd h r)]
    rfl
  | detectionObject ha h hb hx he =>
    have hnone : o.detection = none := hvacant
    rw [if_neg hdetection.1, if_neg hdetection.2, if_pos rfl, hnone]
    simp only [entryText, List.cons_append, List.nil_append, List.append_assoc]
    rw [readOnce_none hc (Detection.read_object hd ha h hb hx he r)]
    rfl
  | unknown hkey hv =>
    simp only [knownKeys, List.mem_cons, List.not_mem_nil, or_false, not_or] at hkey
    rw [if_neg hkey.1, if_neg hkey.2.1, if_neg hkey.2.2, readMark_append hc rfl]
    simp only
    rw [hv.skipValue_eq hd hr]
    rfl

/-! ## Objects -/

/-- The entries of an object are read one after another, if no option stands twice. -/
theorem readEntries_of_isEntries (h : IsEntries settings t) (ho : Hold o before)
    (hnodup : ((before ++ settings).filterMap Setting.key?).Nodup) {fuel : Nat}
    (hfuel : t.length < fuel) {first : Bool} {p : Text} (hp : Lead first p) (r : Text) :
    ∃ o', readEntries readEntry fuel first o (p ++ (t ++ '}' :: r)) = .ok (o', r) ∧
      Hold o' (before ++ settings) := by
  -- An entry that is read gives an option that none of the entries before it has given.
  have hnew {s : Setting} {before rest : List Setting}
      (hnodup : ((before ++ s :: rest).filterMap Setting.key?).Nodup) :
      ∀ key ∈ s.key?, key ∉ before.filterMap Setting.key? := by
    intro key hkey hmem
    rw [List.filterMap_append, List.filterMap_cons_some hkey] at hnodup
    exact (List.nodup_append.1 hnodup).2.2 key hmem key List.mem_cons_self rfl
  induction h generalizing o before fuel first p with
  | @last s a k key c d v b ha hk hc hd hs hb =>
    obtain ⟨fuel, rfl⟩ : ∃ f, fuel = f + 2 := ⟨fuel - 2, by simp [entryText] at hfuel; omega⟩
    have hvacant := ho.vacant (hnew hnodup)
    have hentry := readEntry_eq hvacant hk hc hd hs
      (Json.endsValue_append hb (.inr (.inr rfl)) r)
    refine ⟨o.apply s, ?_, ho.apply hvacant⟩
    have htext : p ++ (a ++ (entryText k c d v ++ b) ++ '}' :: r) =
        p ++ (a ++ '"' :: (k ++ '"' :: (c ++ ':' :: (d ++ (v ++ (b ++ '}' :: r)))))) := by
      simp [entryText]
    rw [htext, readEntries_step hp ha hentry, readEntries_end hb]
  | @cons s rest a k key c d v b t ha hk hc hd hs hb _ ih =>
    obtain ⟨fuel, rfl⟩ := Nat.exists_eq_succ_of_ne_zero (Nat.ne_zero_of_lt hfuel)
    have hvacant := ho.vacant (hnew hnodup)
    have hentry := readEntry_eq hvacant hk hc hd hs
      (Json.endsValue_append hb (.inl rfl) (t ++ '}' :: r))
    have hassoc : before ++ s :: rest = before ++ [s] ++ rest := by simp
    rw [hassoc] at hnodup ⊢
    have hlength : t.length < fuel := by
      simp [entryText] at hfuel
      omega
    obtain ⟨o', hread, ho'⟩ := ih (ho.apply hvacant) hnodup hlength (.next hb)
    refine ⟨o', ?_, ho'⟩
    have htext : p ++ (a ++ (entryText k c d v ++ (b ++ ',' :: t)) ++ '}' :: r) =
        p ++ (a ++ '"' :: (k ++ '"' :: (c ++ ':' ::
          (d ++ (v ++ (b ++ ',' :: (t ++ '}' :: r))))))) := by
      simp [entryText]
    rw [List.append_assoc, List.singleton_append] at hread
    rw [htext, readEntries_step hp ha hentry, hread]

/-- Options are read from an object whose entries are read. -/
theorem parse_of_readEntries (ha : Blanks a) (hb : Blanks b)
    (h : readEntries readEntry ((t ++ '}' :: b).length + 1) true {} (t ++ '}' :: b) = .ok (o, b)) :
    parse (a ++ '{' :: (t ++ '}' :: b)) = .ok o.complete := by
  have hread : read (a ++ '{' :: (t ++ '}' :: b)) = .ok (o, b) := by
    rw [read, skipBlanks_append_cons ha rfl]
    simp only [Char.reduceEq, if_false, if_true]
    exact h
  have hend : checkEnd b = .ok () := by
    have hblank : skipBlanks b = [] := List.dropWhile_eq_nil_iff.2 hb
    rw [checkEnd, if_pos hblank]
  rw [parse, hread]
  simp only [bind, Except.bind, hend]
  rfl

/-- An object of options in which no option stands twice is read, with defaults for what it does not
give. -/
theorem parse_of_isObject (h : IsObject settings t)
    (hnodup : (settings.filterMap Setting.key?).Nodup) :
    ∃ o, parse t = .ok o ∧ o.GivenBy settings := by
  cases h with
  | empty ha hb hc =>
    exact ⟨_, parse_of_readEntries ha hc (readEntries_end hb _ true ({} : PartialOptions) _),
      PartialOptions.hold_nil.givenBy⟩
  | @entries _ a t b ha h hb =>
    have hlength : t.length < (t ++ '}' :: b).length + 1 := by
      rw [List.length_append]
      omega
    obtain ⟨o, hread, ho⟩ :=
      readEntries_of_isEntries h PartialOptions.hold_nil hnodup hlength .first b
    exact ⟨_, parse_of_readEntries ha hb hread, ho.givenBy⟩

/-- The settings that give all options. -/
def toSettings (o : Options) : List Setting :=
  [.maxPasses o.maxPasses, .arrayRootKey o.arrayRootKey, .detection o.detection]

/-- An entry is written without blanks. -/
theorem writeEntry_eq (key value : Text) :
    writeEntry key value = entryText (key.flatMap Quoted.writeChar) [] [] value := by
  simp [writeEntry, Quoted.write, entryText]

/-- Options are written as an object that gives them all. -/
theorem isObject_write (o : Options) : IsObject o.toSettings (write o) := by
  have hblank : Blanks [] := List.forall_mem_nil _
  have hkey (key : Text) := Quoted.spells_flatMap_writeChar key
  have hquoted (s : Text) : Quoted.write s = '"' :: (s.flatMap Quoted.writeChar ++ ['"']) := rfl
  have hroot : Setting.IsWritten (.arrayRootKey o.arrayRootKey) arrayRootKeyKey
      (Quoted.write o.arrayRootKey) := .arrayRootKey (hkey _)
  have hdetection : Setting.IsWritten (.detection o.detection) detectionKey
      (Quoted.write o.detection.name) := .detection (hkey _)
  have h := IsObject.entries hblank (IsEntries.cons hblank (hkey _) hblank hblank
    (.maxPasses o.maxPasses) hblank (.cons hblank (hkey _) hblank hblank hroot hblank
      (.last hblank (hkey _) hblank hblank hdetection hblank))) hblank
  simpa [toSettings, write, writeEntry_eq] using h

/-- Options are determined by the settings that give them all. -/
theorem GivenBy.eq {o o' : Options} (h : o'.GivenBy o.toSettings) : o' = o := by
  have hpasses := h.maxPasses o.maxPasses (by simp [toSettings])
  have hroot := h.arrayRootKey o.arrayRootKey (by simp [toSettings])
  have hdetection := h.detection o.detection (by simp [toSettings])
  cases o
  cases o'
  simp_all

/-- Options that are written are read back. Every object of options in which no option stands twice
is read, in whatever order and whatever form its entries stand and whatever other entries stand
between them, and each option has the value that it is given, or its default. -/
theorem parse_reads :
    (∀ o : Options, parse (write o) = .ok o) ∧
      ∀ settings t, IsObject settings t → (settings.filterMap Setting.key?).Nodup →
        ∃ o, parse t = .ok o ∧ o.GivenBy settings := by
  refine ⟨fun o => ?_, fun settings t => parse_of_isObject⟩
  have hnodup : ([maxPassesKey, arrayRootKeyKey, detectionKey] : List Text).Nodup := by decide
  obtain ⟨o', hparse, ho'⟩ := parse_of_isObject (isObject_write o) hnodup
  rw [hparse, ho'.eq]

/-- An object in which an entry with an unknown key, which holds an array, stands before the only
option that is given, and the value of the option is an escape. -/
def escapedRootKey : Text := "\x7b \"x\":[null] ,\"array_root_key\": \"\\u0061\" \x7d".toList

/-- Of this object the option is read, and the others have their defaults. -/
theorem parse_reads_escapedRootKey :
    IsObject [.unknown, .arrayRootKey ['a']] escapedRootKey ∧
      ([.unknown, .arrayRootKey ['a']].filterMap Setting.key?).Nodup ∧
      ∃ o, parse escapedRootKey = .ok o ∧ o.GivenBy [.unknown, .arrayRootKey ['a']] := by
  have hnone : Blanks [] := List.forall_mem_nil _
  have hblank : Blanks [' '] := List.forall_mem_singleton.2 rfl
  have hunknown : Setting.IsWritten .unknown ['x'] ['[', 'n', 'u', 'l', 'l', ']'] :=
    .unknown (by decide) (.array (.lastItem hnone .null hnone))
  have hunit : Quoted.HexUnit ['0', '0', '6', '1'] 97 :=
    @Quoted.HexUnit.mk '0' '0' '6' '1' 0 0 6 1 rfl rfl rfl rfl
  have hescape : Quoted.Escape ['u', '0', '0', '6', '1'] 'a' := .unit hunit rfl rfl
  have hgiven : Setting.IsWritten (.arrayRootKey ['a']) arrayRootKeyKey
      ['"', '\\', 'u', '0', '0', '6', '1', '"'] := .arrayRootKey (.escape hescape .nil)
  have hobject : IsObject [.unknown, .arrayRootKey ['a']] escapedRootKey :=
    .entries hnone (.cons hblank (Quoted.spells_flatMap_writeChar ['x']) hnone hnone hunknown hblank
      (.last hnone (Quoted.spells_flatMap_writeChar arrayRootKeyKey) hnone hblank hgiven hblank))
      hnone
  have hnodup : ([.unknown, .arrayRootKey ['a']].filterMap Setting.key?).Nodup := by decide
  exact ⟨hobject, hnodup, parse_reads.2 _ _ hobject hnodup⟩

end Options

end Stencil
