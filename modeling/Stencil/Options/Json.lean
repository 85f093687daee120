import Stencil.Json.Reader
import Stencil.Options

/-!
# Options as JSON

`Options.parse` reads options from an object with any of the three keys, or from an array with the
three values in order; what is missing has its default. Keys that are not known are passed over with
their values. A key that is known may stand only once. Values are read as they come, so that the
first fault in the text counts, whether the text is no JSON there or the value does not fit.

`Options.write` writes options as an object.
-/

namespace Stencil

/-- Reads a value that is not a container; a container does not fit, whatever is in it. -/
def readScalar : Reader Json := fun t =>
  match skipBlanks t with
  | [] => .error .cutShort
  | c :: rest => if c = '[' ∨ c = '{' then .error .unfit else readNode documents none (c :: rest)

/-- Reads an integer of 64 bits without sign. -/
def readWord64 : Reader UInt64 := fun t => do
  match ← readScalar t with
  | (.integer i, t) => if 0 ≤ i then return (i.toNat.toUInt64, t) else .error .unfit
  | _ => .error .unfit

/-- Reads a quoted text. -/
def readText : Reader Text := fun t => do
  match ← readScalar t with
  | (.text s, t) => return (s, t)
  | _ => .error .unfit

namespace Detection

/-- The name of a way of looking for operators. -/
def name : Detection → Text
  | legacy => ['l', 'e', 'g', 'a', 'c', 'y']
  | strict => ['s', 't', 'r', 'i', 'c', 't']

/-- The way of looking for operators with a name. -/
def ofName? (t : Text) : Option Detection := [legacy, strict].find? (·.name = t)

/-- Every way of looking for operators is found from its name. -/
@[simp] theorem ofName?_name (d : Detection) : ofName? d.name = some d := by
  cases d <;> decide

/-- Reads a name after its opening quote. -/
def readName : Reader Detection := fun t => do
  let (s, t) ← Quoted.read t
  match ofName? s with
  | some d => return (d, t)
  | none => .error .unfit

/-- Reads a way of looking for operators: its name, or an object with the name as its only key and
`null` as the value. -/
def read : Reader Detection := fun t =>
  match skipBlanks t with
  | [] => .error .cutShort
  | c :: rest =>
    if c = '"' then readName rest
    else if c = '{' then do
      -- As the key of an object the name is quoted. A value of another kind there is no JSON,
      -- whereas in the place of a value it would be one that does not fit.
      let t ← readMark '"' rest
      let (d, t) ← readName t
      let t ← readMark ':' t
      match ← readScalar t with
      | (.null, t) =>
        let t ← readMark '}' t
        return (d, t)
      | _ => .error .unfit
    else .error .malformed

end Detection

/-- The options that were read so far. -/
structure PartialOptions where
  maxPasses : Option UInt64 := none
  arrayRootKey : Option Text := none
  detection : Option Detection := none

namespace PartialOptions

/-- The options, with defaults for those that were not read. -/
def complete (o : PartialOptions) : Options where
  maxPasses := o.maxPasses.getD (default : Options).maxPasses
  arrayRootKey := o.arrayRootKey.getD (default : Options).arrayRootKey
  detection := o.detection.getD (default : Options).detection

end PartialOptions

namespace Options

/-- The key of the number of passes. -/
def maxPassesKey : Text := "max_passes".toList

/-- The key of the key for arrays. -/
def arrayRootKeyKey : Text := "array_root_key".toList

/-- The key of the way of looking for operators. -/
def detectionKey : Text := "operator_detection".toList

/-- Reads the value of an option after its key, unless it was read before. -/
def readOnce {α : Type} (present : Option α) (read : Reader α) : Reader α := fun t =>
  match present with
  | some _ => .error .unfit
  | none => do
    let t ← readMark ':' t
    read t

/-- Reads an entry after the quote of its key. -/
def readEntry (o : PartialOptions) : Reader PartialOptions := fun t => do
  let (key, t) ← Quoted.read t
  if key = maxPassesKey then
    let (n, t) ← readOnce o.maxPasses readWord64 t
    return ({ o with maxPasses := some n }, t)
  else if key = arrayRootKeyKey then
    let (s, t) ← readOnce o.arrayRootKey readText t
    return ({ o with arrayRootKey := some s }, t)
  else if key = detectionKey then
    let (d, t) ← readOnce o.detection Detection.read t
    return ({ o with detection := some d }, t)
  else
    let t ← readMark ':' t
    let t ← skipValue t
    return (o, t)

/-- Reads the next item of an array, which may be missing. -/
def readItem? {α : Type} (first : Bool) (read : Reader α) : Reader (Option α) := fun t => do
  match ← nextItem? first t with
  | none => return (none, t)
  | some t =>
    let (v, t) ← read t
    return (some v, t)

/-- Reads options from the items of an array, through its bracket. -/
def readItems : Reader PartialOptions := fun t => do
  let (maxPasses, t) ← readItem? true readWord64 t
  let (arrayRootKey, t) ← readItem? false readText t
  let (detection, t) ← readItem? false Detection.read t
  let t ← readMark ']' t
  return (⟨maxPasses, arrayRootKey, detection⟩, t)

/-- Reads options from an object or an array. -/
def read : Reader PartialOptions := fun t =>
  match skipBlanks t with
  | [] => .error .cutShort
  | c :: rest =>
    if c = '[' then readItems rest
    else if c = '{' then readEntries readEntry (rest.length + 1) true {} rest
    else do
      let _ ← readScalar (c :: rest)
      .error .unfit

/-- Reads options from a text. -/
def parse (t : Text) : Except InputError Options :=
  match (do let (o, t) ← read t; checkEnd t; return o.complete) with
  | .ok o => .ok o
  | .error fault => .error (.options fault)

/-- Writes a key and the text of its value. -/
def writeEntry (key value : Text) : Text := Quoted.write key ++ ':' :: value

/-- Options as an object, without blanks. -/
def write (o : Options) : Text :=
  '{' :: writeEntry maxPassesKey (Nat.toDigits 10 o.maxPasses.toNat) ++
    ',' :: writeEntry arrayRootKeyKey (Quoted.write o.arrayRootKey) ++
    ',' :: writeEntry detectionKey (Quoted.write o.detection.name) ++ ['}']

end Options

end Stencil
