import Stencil.Tag
import Stencil.Text.Blank

/-!
# Blocks

A template holds blocks of two kinds: `@if` blocks with a condition, a body and perhaps an `else`
part, and `#each` blocks with a path and a body. `scan` looks for the first opener of a kind and
reads its block: the tag of the opener, then everything up to the closer that balances it. Openers
and closers of the other kind are plain text to it.

What `scan` finds is a decomposition of the template: the parts of a found block, written one after
another, are the template again (`Scan.source_eq`).
-/

namespace Stencil

/-- The two kinds of blocks. -/
inductive Directive where
  | cond
  | each
deriving DecidableEq

namespace Directive

/-- The beginning of the tag that opens a block. -/
def opener : Directive → Text
  | cond => ['{', '{', '@', 'i', 'f', ' ']
  | each => ['{', '{', '#', 'e', 'a', 'c', 'h', ' ']

/-- The tag that closes a block. -/
def closer : Directive → Text
  | cond => ['{', '{', '/', 'i', 'f', '}', '}']
  | each => ['{', '{', '/', 'e', 'a', 'c', 'h', '}', '}']

/-- The word that names a kind of block. -/
def name : Directive → Text
  | cond => ['@', 'i', 'f']
  | each => ['#', 'e', 'a', 'c', 'h']

end Directive

/-- The tag between the two parts of an `@if` block. -/
def elseTag : Text := ['{', '{', 'e', 'l', 's', 'e', '}', '}']

/-- A block and the text around it. -/
structure Block where
  directive : Directive
  /-- The text before the opener. -/
  before : Text
  /-- The text between the beginning of the opener and the end of its tag. -/
  inner : Text
  body : Text
  elseBody : Option Text
  /-- The text after the closer. -/
  after : Text
deriving DecidableEq

namespace Block

/-- The condition of an `@if` block or the path of an `#each` block. -/
def expr (b : Block) : Text := Text.trim b.inner

/-- Everything between the tag of the opener and the closer. -/
def content (b : Block) : Text :=
  match b.elseBody with
  | none => b.body
  | some e => b.body ++ elseTag ++ e

/-- The block itself, from its opener through its closer. -/
def source (b : Block) : Text :=
  b.directive.opener ++ b.inner ++ tagEnd ++ b.content ++ b.directive.closer

/-- Where the block begins, in bytes. -/
def start (b : Block) : Nat := Text.utf8Length b.before

/-- Where the block ends, in bytes. -/
def stop (b : Block) : Nat := b.start + Text.utf8Length b.source

/-- The text around the block, with another text in its place. -/
def replaceWith (b : Block) (t : Text) : Text := b.before ++ t ++ b.after

end Block

/-- What looking for a block finds. -/
inductive Scan where
  /-- There is no opener. -/
  | absent
  /-- The first opener, which follows this text, has no closer, or its tag does not end. -/
  | unmatched (before : Text)
  | found (block : Block)
deriving DecidableEq

/-! ## The tag of an opener -/

/-- The text up to the end of a tag and the text after it. The condition of an `@if` stands on one
line; the path of an `#each` is not empty and holds no brace that closes. -/
def splitTag? (d : Directive) (t : Text) : Option (Text × Text) :=
  match d with
  | .cond =>
    match Text.cut? tagEnd t with
    | some (inner, rest) => if '\n' ∈ inner then none else some (inner, rest)
    | none => none
  | .each => splitBraces? t

/-- The inner text, the end of the tag and what follows make up the text. -/
theorem splitTag?_eq_append {d : Directive} {t inner rest : Text}
    (h : splitTag? d t = some (inner, rest)) : t = inner ++ tagEnd ++ rest := by
  cases d with
  | cond =>
    simp only [splitTag?] at h
    split at h
    · next hc =>
      split at h
      · cases h
      · cases h
        exact Text.cut?_eq_append hc
    · cases h
  | each => exact splitBraces?_eq_append h

/-! ## The closer that balances an opener -/

/-- The text up to the closer that balances `depth + 1` openers before the text, and the text after
that closer. No tag begins within another, so every place of the text is looked at. -/
def splitCloser? (d : Directive) (depth : Nat) : Text → Option (Text × Text)
  | [] => none
  | c :: t =>
    let further (depth : Nat) := (splitCloser? d depth t).map fun (a, b) => (c :: a, b)
    -- An opener is one more block to close; a closer closes the last one or ends the text.
    if (Text.after? d.opener (c :: t)).isSome then further (depth + 1)
    else match Text.after? d.closer (c :: t), depth with
      | some rest, 0 => some ([], rest)
      | some _, depth + 1 => further depth
      | none, _ => further depth

/-- The two parts and the closer between them make up the text. -/
theorem splitCloser?_eq_append {d : Directive} {depth : Nat} {t a b : Text}
    (h : splitCloser? d depth t = some (a, b)) : t = a ++ d.closer ++ b := by
  induction t generalizing depth a with
  | nil => simp [splitCloser?] at h
  | cons c t ih =>
    have further {depth : Nat}
        (h : ((splitCloser? d depth t).map fun (a, b) => (c :: a, b)) = some (a, b)) :
        c :: t = a ++ d.closer ++ b := by
      simp only [Option.map_eq_some_iff, Prod.mk.injEq, Prod.exists] at h
      obtain ⟨a', b', h', rfl, rfl⟩ := h
      simp [ih h']
    simp only [splitCloser?] at h
    split at h
    · exact further h
    · split at h
      · next hr =>
        cases h
        simpa using Text.after?_eq_some_iff.1 hr
      · exact further h
      · exact further h

/-! ## The parts of an `@if` block -/

/-- The text up to the first `else` tag that is not within a nested block, and the text after it.
`depth` is the number of blocks that are open before the text. -/
def splitElse? (depth : Nat) : Text → Option (Text × Text)
  | [] => none
  | c :: t =>
    let further (depth : Nat) := (splitElse? depth t).map fun (a, b) => (c :: a, b)
    if (Text.after? Directive.cond.opener (c :: t)).isSome then further (depth + 1)
    else if (Text.after? Directive.cond.closer (c :: t)).isSome then further (depth - 1)
    -- Only outside nested blocks the tag is that of the block itself.
    else match Text.after? elseTag (c :: t), depth with
      | some rest, 0 => some ([], rest)
      | _, _ => further depth

/-- The two parts and the tag between them make up the text. -/
theorem splitElse?_eq_append {depth : Nat} {t a b : Text}
    (h : splitElse? depth t = some (a, b)) : t = a ++ elseTag ++ b := by
  induction t generalizing depth a with
  | nil => simp [splitElse?] at h
  | cons c t ih =>
    have further {depth : Nat}
        (h : ((splitElse? depth t).map fun (a, b) => (c :: a, b)) = some (a, b)) :
        c :: t = a ++ elseTag ++ b := by
      simp only [Option.map_eq_some_iff, Prod.mk.injEq, Prod.exists] at h
      obtain ⟨a', b', h', rfl, rfl⟩ := h
      simp [ih h']
    simp only [splitElse?] at h
    split at h
    · exact further h
    · split at h
      · exact further h
      · split at h
        · next hr =>
          cases h
          simpa using Text.after?_eq_some_iff.1 hr
        · exact further h

/-- The body and the `else` part of what stands between an opener and its closer. -/
def splitParts (d : Directive) (content : Text) : Text × Option Text :=
  match d with
  | .each => (content, none)
  | .cond =>
    match splitElse? 0 content with
    | some (body, elseBody) => (body, some elseBody)
    | none => (content, none)

/-! ## Looking for a block -/

/-- Looks for the first block of a kind. -/
def scan (d : Directive) (t : Text) : Scan :=
  match Text.cut? d.opener t with
  | none => .absent
  | some (before, rest) =>
    match splitTag? d rest with
    | none => .unmatched before
    | some (inner, rest) =>
      match splitCloser? d 0 rest with
      | none => .unmatched before
      | some (content, after) =>
        let parts := splitParts d content
        .found ⟨d, before, inner, parts.1, parts.2, after⟩

/-- The first block of a kind, if the first opener has a closer. -/
def findBlock? (d : Directive) (t : Text) : Option Block :=
  match scan d t with
  | .found b => some b
  | _ => none

/-- The parts of a block are its content again. -/
theorem content_splitParts (d : Directive) (before inner content after : Text) :
    Block.content ⟨d, before, inner, (splitParts d content).1, (splitParts d content).2, after⟩ =
      content := by
  cases d with
  | each => rfl
  | cond =>
    simp only [splitParts]
    split
    · next h => exact (splitElse?_eq_append h).symm
    · rfl

/-- The text before a found block, the block and the text after it make up the template. -/
theorem Scan.source_eq {d : Directive} {t : Text} {b : Block} (h : scan d t = .found b) :
    b.before ++ b.source ++ b.after = t := by
  unfold scan at h
  split at h
  · cases h
  · next before rest hcut =>
    split at h
    · cases h
    · next inner rest' htag =>
      split at h
      · cases h
      · next content after hclose =>
        -- The opener, its tag and the closer cut the template in turn.
        obtain rfl := Scan.found.inj h
        rw [Text.cut?_eq_append hcut, splitTag?_eq_append htag, splitCloser?_eq_append hclose]
        simpa [Block.source] using content_splitParts d before inner content after

end Stencil
