import Stencil.Condition.Basic

/-!
# Options of a render
-/

namespace Stencil

/-- How templates are rendered. -/
structure Options where
  /-- How many blocks may be expanded in one render, nested ones included. -/
  maxPasses : UInt64 := 10000
  /-- The key under which an array stands in the context when it is the whole of the data. -/
  arrayRootKey : Text := ['i', 't', 'e', 'm', 's']
  detection : Detection := .legacy
deriving DecidableEq, Inhabited

end Stencil
