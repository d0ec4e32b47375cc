/-!
# Log events
-/

namespace DesignTokens

inductive Level where
  | info
  | warn
  | error
deriving DecidableEq

namespace Level

def label : Level → String
  | .info => "INFO"
  | .warn => "WARN"
  | .error => "ERROR"

end Level

structure Event where
  level : Level
  message : String
  /-- Named details, in order. -/
  fields : List (String × String)
deriving DecidableEq

end DesignTokens
