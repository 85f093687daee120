import Stencil.Json.Numeral
import Stencil.Json.Quoted

/-!
# Reading documents

`readNode` reads one value of a document, and `Builder` says what is made of its parts. The two
builders are `documents`, which makes the document itself (`Json.parse`), and `skipping`, which
makes nothing of it and passes over numbers and texts without asking what they stand for
(`skipValue`). A document may have 127 containers within one another, a value that is passed over
any number.
-/

namespace Stencil

/-- Reads something at the beginning of a text, and says what follows it. -/
abbrev Reader (α : Type) := Text → Except Fault (α × Text)

/-- The characters that may stand between the parts of a document. -/
def isJsonBlank (c : Char) : Bool := c = ' ' || c = '\n' || c = '\t' || c = '\r'

/-- A text without the blanks at its beginning. -/
def skipBlanks (t : Text) : Text := t.dropWhile isJsonBlank

/-- What follows a word. -/
def readWord : Text → Text → Except Fault Text
  | [], t => .ok t
  | _ :: _, [] => .error .cutShort
  | c :: word, d :: t => if c = d then readWord word t else .error .malformed

/-- What follows a mark, which blanks may stand before. -/
def readMark (mark : Char) (t : Text) : Except Fault Text :=
  match skipBlanks t with
  | [] => .error .cutShort
  | c :: rest => if c = mark then .ok rest else .error .malformed

/-! ## Containers -/

/-- The text from the next item of an array on; none if the array ends. A comma stands before every
item but the first. -/
def nextItem? (first : Bool) (t : Text) : Except Fault (Option Text) :=
  match skipBlanks t with
  | [] => .error .cutShort
  | c :: rest =>
    if c = ']' then .ok none
    else if first then .ok (some (c :: rest))
    else if c = ',' then
      match skipBlanks rest with
      | [] => .error .cutShort
      | d :: rest => if d = ']' then .error .malformed else .ok (some (d :: rest))
    else .error .malformed

/-- The text after the quote before the next key of an object; none if the object ends. A comma
stands before every key but the first. -/
def nextKey? (first : Bool) (t : Text) : Except Fault (Option Text) :=
  match skipBlanks t with
  | [] => .error .cutShort
  | c :: rest =>
    if c = '}' then .ok none
    else if first then if c = '"' then .ok (some rest) else .error .malformed
    else if c = ',' then (readMark '"' rest).map some
    else .error .malformed

/-- Reads the items of an array through its bracket. `fuel` is more than the number of items. -/
def readItems {α : Type} (value : Reader α) : Nat → Bool → Reader (List α)
  | 0, _, _ => .error .malformed
  | fuel + 1, first, t => do
    match ← nextItem? first t with
    | none =>
      let t ← readMark ']' t
      return ([], t)
    | some t =>
      let (v, t) ← value t
      let (vs, t) ← readItems value fuel false t
      return (v :: vs, t)

/-- Reads the entries of an object through its brace. `entry` reads an entry after the quote of its
key, and changes what was made of the entries before. `fuel` is more than the number of entries. -/
def readEntries {σ : Type} (entry : σ → Reader σ) : Nat → Bool → σ → Reader σ
  | 0, _, _, _ => .error .malformed
  | fuel + 1, first, s, t => do
    match ← nextKey? first t with
    | none =>
      let t ← readMark '}' t
      return (s, t)
    | some t =>
      let (s, t) ← entry s t
      readEntries entry fuel false s t

/-! ## Values -/

/-- What is made of the parts of a document, and how its numerals and quoted texts are read. -/
structure Builder (α : Type) where
  null : α
  bool : Bool → α
  text : Text → α
  array : List α → α
  object : Entries α → α
  readNumber : Reader α
  /-- Reads a quoted text after its opening quote. -/
  readQuoted : Reader Text

/-- Reads an entry of an object. A key that stands twice has its first place and its last value. -/
def Builder.readEntry {α : Type} (b : Builder α) (value : Reader α) (es : Entries α) :
    Reader (Entries α) := fun t => do
  let (key, t) ← b.readQuoted t
  let t ← readMark ':' t
  let (v, t) ← value t
  return (es.set key v, t)

/-- Reads a container after the mark that opens it. -/
def Builder.readContainer {α : Type} (b : Builder α) (value : Reader α) (mark : Char) :
    Reader α := fun t =>
  if mark = '[' then do
    let (vs, t) ← readItems value (t.length + 1) true t
    return (b.array vs, t)
  else do
    let (es, t) ← readEntries (b.readEntry value) (t.length + 1) true [] t
    return (b.object es, t)

/-- Reads a value. `inner` reads the values within a container; without it containers are too
deep. -/
def readNode {α : Type} (b : Builder α) (inner : Option (Reader α)) : Reader α := fun t =>
  match skipBlanks t with
  | [] => .error .cutShort
  | c :: rest =>
    if c = 'n' then (readWord ['u', 'l', 'l'] rest).map (b.null, ·)
    else if c = 't' then (readWord ['r', 'u', 'e'] rest).map (b.bool true, ·)
    else if c = 'f' then (readWord ['a', 'l', 's', 'e'] rest).map (b.bool false, ·)
    else if c = '"' then (b.readQuoted rest).map fun (s, rest) => (b.text s, rest)
    else if c = '-' ∨ c.isDigit then b.readNumber (c :: rest)
    else if c = '[' ∨ c = '{' then
      match inner with
      | some value => b.readContainer value c rest
      | none => .error .malformed
    else .error .malformed

/-- Reads a value with at most `depth` containers within one another. -/
def readValue {α : Type} (b : Builder α) : Nat → Reader α
  | 0 => readNode b none
  | depth + 1 => readNode b (some (readValue b depth))

/-- The fault of a text that goes on after the end of the document. -/
def checkEnd (t : Text) : Except Fault Unit :=
  if skipBlanks t = [] then .ok () else .error .malformed

/-! ## Documents -/

/-- Reads a numeral as a number. -/
def readNumeral : Reader Json := fun t => do
  let (n, t) ← JsonNumeral.read t
  match n.value? with
  | some j => return (j, t)
  | none => .error .malformed

/-- Makes the document. -/
def documents : Builder Json where
  null := .null
  bool := .bool
  text := .text
  array := .array
  object := .object
  readNumber := readNumeral
  readQuoted := Quoted.read

/-- The greatest number of containers within one another in a document. -/
def maxDepth : Nat := 127

/-- Reads a text that is a document of at most `depth` containers within one another. -/
def Json.parseWithin (depth : Nat) (t : Text) : Except Fault Json := do
  let (j, t) ← readValue documents depth t
  checkEnd t
  return j

/-- Reads a text that is a document. -/
def Json.parse (t : Text) : Except Fault Json := Json.parseWithin maxDepth t

/-- Reads a context from a document. -/
def Value.parse (t : Text) : Except InputError Value :=
  match Json.parse t with
  | .ok j => .ok (.ofJson j)
  | .error fault => .error (.context fault)

/-! ## Passing over values -/

/-- Passes over a numeral; one that is cut short is malformed. -/
def skipNumeral : Reader Unit := fun t =>
  match JsonNumeral.read t with
  | .ok (_, t) => .ok ((), t)
  | .error _ => .error .malformed

/-- Makes nothing of a document. -/
def skipping : Builder Unit where
  null := ()
  bool _ := ()
  text _ := ()
  array _ := ()
  object _ := ()
  readNumber := skipNumeral
  readQuoted := Quoted.skip

/-- What follows a value. -/
def skipValue (t : Text) : Except Fault Text := (readValue skipping t.length t).map Prod.snd

end Stencil
