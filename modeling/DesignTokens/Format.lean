import DesignTokens.Json.Reader
import DesignTokens.Toml.Reader

/-!
# Formats of documents
-/

namespace DesignTokens

inductive Format where
  | json
  | toml
deriving DecidableEq

namespace Format

/-- The document of a text; `none` when the text breaks the grammar of its format. -/
def read? : Format → String → Option Document
  | .json => Json.read?
  | .toml => Toml.read?

/-- True when every part of a whole document stands for a value. What the grammar allows in a place
that nobody reads may stand for none: in JSON a number out of range or too deep nesting, in TOML a
table that only begins like a moment. -/
def isValue : Format → Document → Bool
  | .json => Json.isValueWithin 0
  | .toml => Toml.isValue

/-- True when a document that stands `outer` levels deep in its text can be kept whatever it means.
TOML sets no limit to the depth that headers, keys and values add up to. -/
def isKeepable (format : Format) (outer : Nat) (document : Document) : Bool :=
  match format with
  | .json => Json.isValueWithin outer document
  | .toml => true

end Format

end DesignTokens
