/-!
# Policies
-/

namespace DesignTokens

/-- What is reported when there is no previous snapshot. -/
inductive FirstRunPolicy where
  | markAll
  | markNone
deriving DecidableEq

namespace FirstRunPolicy

/-- The policy that a word of the command line names. -/
def ofWord? (word : String) : Option FirstRunPolicy :=
  if word = "markAll" ∨ word = "mark-all" ∨ word = "all" then some .markAll
  else if word = "markNone" ∨ word = "mark-none" ∨ word = "none" then some .markNone
  else none

def label : FirstRunPolicy → String
  | .markAll => "MarkAll"
  | .markNone => "MarkNone"

end FirstRunPolicy

/-- What is reported for classes that were there before and are gone. -/
inductive RemovedClassPolicy where
  | ignore
  | flag
deriving DecidableEq

/-- What happens on class keys that name no property. -/
inductive UnknownKeyPolicy where
  | ignore
  | warn
  | fail
deriving DecidableEq

/-- The policies of a comparison with the previous snapshot. -/
structure ChangePolicy where
  onFirstRun : FirstRunPolicy
  onRemovedClass : RemovedClassPolicy
deriving DecidableEq

end DesignTokens
