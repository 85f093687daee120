import Stencil.Text.Basic

/-!
# Faults of input

Why a text could not be read as the JSON that was asked for. Of several faults the first in the text
counts.
-/

namespace Stencil

/-- Why a text could not be read. -/
inductive Fault where
  /-- The text ends too early. -/
  | cutShort
  /-- The text is not JSON, is nested too deeply or holds a number that is out of range. -/
  | malformed
  /-- The text is JSON, but not what was asked for. -/
  | unfit
deriving DecidableEq

/-- The word for a kind of fault. -/
def Fault.category : Fault → Text
  | cutShort => ['e', 'o', 'f']
  | malformed => "syntax".toList
  | unfit => ['d', 'a', 't', 'a']

/-- What input could not be read. -/
inductive InputError where
  | context (fault : Fault)
  | options (fault : Fault)
deriving DecidableEq

/-- The text of an error. -/
def InputError.message : InputError → Text
  | context fault => "Invalid context JSON: ".toList ++ fault.category
  | options fault => "Invalid render options: ".toList ++ fault.category

end Stencil
