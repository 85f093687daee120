import Stencil.Issue
import Stencil.Path
import Stencil.Value.Display

/-!
# Substituting tags

When no block is left to expand, the tags of a text are replaced by the values of their paths. An
opener that is left then belongs to a block without a closer: the text from it on stays as it is.
-/

namespace Stencil

/-- The kind of block whose opener stands at the beginning of a text. -/
def Directive.atStart? (t : Text) : Option Directive :=
  if (Text.after? cond.opener t).isSome then some cond
  else if (Text.after? each.opener t).isSome then some each
  else none

/-- The text before the first opener of any kind, its kind, and the text from it on. -/
def splitOpener? : Text → Option (Text × Directive × Text)
  | [] => none
  | c :: t =>
    match Directive.atStart? (c :: t) with
    | some d => some ([], d, c :: t)
    | none => (splitOpener? t).map fun (head, split) => (c :: head, split)

/-- The text before the first opener and the text from it on make up the whole. -/
theorem splitOpener?_eq_append {t head tail : Text} {d : Directive}
    (h : splitOpener? t = some (head, d, tail)) : t = head ++ tail := by
  induction t generalizing head with
  | nil => simp [splitOpener?] at h
  | cons c t ih =>
    simp only [splitOpener?] at h
    split at h
    · cases h
      rfl
    · simp only [Option.map_eq_some_iff, Prod.mk.injEq, Prod.exists] at h
      obtain ⟨head', d', tail', h', rfl, rfl, rfl⟩ := h
      simp [ih h']

/-- What is written for a segment, and the issues of it. A tag in which an `#each` is named stays
as it is. -/
def Segment.render (scope : Value) : Segment → Text × List Issue
  | literal c => ([c], [])
  | tag inner =>
    if Text.contains Directive.each.name inner then ((tag inner).source, [])
    else
      let path := Text.trim inner
      match scope.resolve? path with
      | some v => (v.display, [])
      | none => ([], [.unresolvedPath path])

/-- A text with its tags replaced, and the issues of them. -/
def renderTags (scope : Value) (t : Text) : Text × List Issue :=
  let parts := (Segment.ofText t).map (Segment.render scope)
  (parts.flatMap Prod.fst, parts.flatMap Prod.snd)

/-- A text with the tags before the first opener replaced, and the issues of them. The opener is an
issue if `reporting`. -/
def substitute (reporting : Bool) (scope : Value) (t : Text) : Text × List Issue :=
  match splitOpener? t with
  | none => renderTags scope t
  | some (head, d, tail) =>
    let (text, issues) := renderTags scope head
    let unmatched := if reporting then [.unmatchedBlock d (Text.utf8Length head)] else []
    (text ++ tail, unmatched ++ issues)

end Stencil
