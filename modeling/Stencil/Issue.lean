import Stencil.Block

/-!
# Issues

Rendering never fails. What it cannot do as the author meant it is left out or left in place, and
recorded as an `Issue`.
-/

namespace Stencil

/-- What went otherwise than the author of a template meant it. -/
inductive Issue where
  /-- A path in a tag leads nowhere; nothing is written for the tag. -/
  | unresolvedPath (path : Text)
  /-- The path of an `#each` block leads to no array; nothing is written for the block. -/
  | unresolvedArray (path : Text)
  /-- A condition has an operator but is no comparison; it was tested like a path. -/
  | malformedCondition (expr : Text)
  /-- An opener has no closer and was left in place. The offset is its place in bytes in the text
  that was substituted when it was found. -/
  | unmatchedBlock (directive : Directive) (offset : Nat)
  /-- As many blocks were expanded as the options allow. -/
  | passLimitReached (limit : Nat)
deriving DecidableEq

/-- The text of an issue. -/
def Issue.message : Issue → Text
  | unresolvedPath path =>
    "Unresolved path `".toList ++ path ++ "` rendered as empty text".toList
  | unresolvedArray path =>
    "`#each ".toList ++ path ++ "` does not resolve to an array; block removed".toList
  | malformedCondition expr =>
    "Condition `".toList ++ expr ++
      "` is not a valid comparison; evaluated as an existence check".toList
  | unmatchedBlock directive offset =>
    "Unmatched `".toList ++ directive.name ++ "` opener left as text (byte ".toList ++
      Nat.toDigits 10 offset ++ " of the expanded template)".toList
  | passLimitReached limit =>
    "Stopped expanding blocks after ".toList ++ Nat.toDigits 10 limit ++ " passes".toList

end Stencil
