import DesignTokens.Baseline
import DesignTokens.CommandLine.Arguments
import DesignTokens.Config.Reader
import DesignTokens.Rule

/-!
# Errors
-/

namespace DesignTokens

/-- Why a command fails. -/
inductive Error where
  | config (path : String) (error : ConfigError)
  | inaccessible (path : String)
  | corruptSnapshot (path : String)
  | unknownKey (unknown : UnknownKey)
  | unknownClass (unknown : UnknownClass)
  | arguments (error : ArgumentError)

namespace ConfigError

/-- What is wrong with a config, as far as it can be said in words. -/
def message? : ConfigError → Option String
  | .malformed => none
  | .shape e => e.message?
  | .fault f => some f.message

end ConfigError

namespace UnknownKey

def message (unknown : UnknownKey) : String :=
  "class '" ++ unknown.className ++ "' declares unrecognized property '" ++ unknown.key ++ "'"

end UnknownKey

namespace UnknownClass

def message (unknown : UnknownClass) : String := "unknown class '" ++ unknown.name ++ "'"

end UnknownClass

namespace Error

def ofStore : StoreError → Error
  | .inaccessible path => .inaccessible path
  | .corrupt path => .corruptSnapshot path

def message : Error → String
  | .config path error =>
      match error.message? with
      | some text => "invalid config: " ++ path ++ ": " ++ text
      | none => "invalid config: " ++ path
  | .inaccessible path => "failed to access '" ++ path ++ "'"
  | .corruptSnapshot path => "corrupt snapshot '" ++ path ++ "'"
  | .unknownKey unknown => unknown.message
  | .unknownClass unknown => unknown.message
  | .arguments error => error.message

end Error

end DesignTokens
