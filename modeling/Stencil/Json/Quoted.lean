import Stencil.Json.Fault

/-!
# Quoted texts of a document

`Quoted.write` puts a text between quotes. The quote, the backslash and control characters are
escaped, with the short escapes where there are any. `Quoted.read` reads a quoted text with all the
escapes that JSON has; the escapes of two halves of a surrogate pair stand for one character, and
one half alone is a fault. `Quoted.skip` passes over a quoted text without asking whether
surrogates are paired.
-/

namespace Stencil.Quoted

/-- The value of a hexadecimal digit. -/
def hexValue? (c : Char) : Option Nat :=
  if c.isDigit then some (c.toNat - '0'.toNat)
  else if 'a' ≤ c ∧ c ≤ 'f' then some (c.toNat - 'a'.toNat + 10)
  else if 'A' ≤ c ∧ c ≤ 'F' then some (c.toNat - 'A'.toNat + 10)
  else none

/-- The value of the four hexadecimal digits at the beginning of a text. The text is cut short if
fewer than four bytes are left, whatever they are. -/
def hexAhead (t : Text) : Except Fault Nat :=
  match t.take 4 |>.mapM hexValue? with
  | some [a, b, c, d] => .ok (((a * 16 + b) * 16 + c) * 16 + d)
  | _ => .error (if Text.utf8Length t < 4 then .cutShort else .malformed)

/-- Whether a unit is the first half of a surrogate pair. -/
def isHighSurrogate (n : Nat) : Bool := 0xD800 ≤ n && n ≤ 0xDBFF

/-- Whether a unit is the second half of a surrogate pair. -/
def isLowSurrogate (n : Nat) : Bool := 0xDC00 ≤ n && n ≤ 0xDFFF

/-- The character of a surrogate pair. -/
def pairChar (high low : Nat) : Char :=
  Char.ofNat (0x10000 + (high - 0xD800) * 0x400 + (low - 0xDC00))

/-- The second half of a surrogate pair, escaped, at the beginning of a text. -/
def lowSurrogateAhead : Text → Except Fault Nat
  | [] => .error .cutShort
  | '\\' :: [] => .error .cutShort
  | '\\' :: 'u' :: t => do
    let low ← hexAhead t
    if isLowSurrogate low then .ok low else .error .malformed
  | _ => .error .malformed

/-- The character that an escape of one letter stands for. -/
def shortEscape? (c : Char) : Option Char :=
  [('"', '"'), ('\\', '\\'), ('/', '/'), ('b', '\x08'), ('f', '\x0C'), ('n', '\n'), ('r', '\r'),
    ('t', '\t')].lookup c

/-- The character of the escape after a backslash, and how many characters the escape has. -/
def escapeAhead : Text → Except Fault (Char × Nat)
  | [] => .error .cutShort
  | 'u' :: t => do
    let n ← hexAhead t
    if isLowSurrogate n then .error .malformed
    else if isHighSurrogate n then do
      let low ← lowSurrogateAhead (t.drop 4)
      return (pairChar n low, 11)
    else return (Char.ofNat n, 5)
  | c :: _ =>
    match shortEscape? c with
    | some d => .ok (d, 1)
    | none => .error .malformed

/-- The length of the escape after a backslash, with any character in place of what it stands
for. -/
def escapeLengthAhead : Text → Except Fault (Char × Nat)
  | 'u' :: t => do
    let _ ← hexAhead t
    return ('u', 5)
  | t => escapeAhead t

/-- Reads the characters up to the closing quote, after passing over `skip` of them. `escape` reads
the escapes. -/
def readFrom (escape : Text → Except Fault (Char × Nat)) : Nat → Text → Except Fault (Text × Text)
  | _, [] => .error .cutShort
  | skip + 1, _ :: t => readFrom escape skip t
  | 0, c :: t =>
    if c = '"' then .ok ([], t)
    else if c = '\\' then
      match escape t with
      | .ok (d, length) => (readFrom escape length t).map fun (s, rest) => (d :: s, rest)
      | .error fault => .error fault
    else if c.toNat < 0x20 then .error .malformed
    else (readFrom escape 0 t).map fun (s, rest) => (c :: s, rest)

/-- Reads a text after its opening quote. -/
def read (t : Text) : Except Fault (Text × Text) := readFrom escapeAhead 0 t

/-- Passes over a text after its opening quote. -/
def skip (t : Text) : Except Fault (Text × Text) := readFrom escapeLengthAhead 0 t

/-! ## Writing -/

/-- A hexadecimal digit. -/
def hexDigit (n : Nat) : Char := Nat.digitChar n

/-- The form of a character between quotes. -/
def writeChar (c : Char) : Text :=
  if c = '"' then ['\\', '"']
  else if c = '\\' then ['\\', '\\']
  else if c = '\x08' then ['\\', 'b']
  else if c = '\x0C' then ['\\', 'f']
  else if c = '\n' then ['\\', 'n']
  else if c = '\r' then ['\\', 'r']
  else if c = '\t' then ['\\', 't']
  else if c.toNat < 0x20 then
    ['\\', 'u', '0', '0', hexDigit (c.toNat / 16), hexDigit (c.toNat % 16)]
  else [c]

/-- A text between quotes. -/
def write (t : Text) : Text := '"' :: t.flatMap writeChar ++ ['"']

end Stencil.Quoted
