import DesignTokens.Json.Number
import DesignTokens.Json.Quoted

/-!
# Reading JSON

The grammar of JSON without a bound on nesting. Strings and numbers that are well-formed but denote
no value become malformed documents, so that a reader can still pass over them.
-/

namespace DesignTokens.Json

def isSpace (c : Char) : Bool :=
  c = ' ' || c = '\n' || c = '\t' || c = '\r'

def skipSpace (text : List Char) : List Char :=
  text.dropWhile isSpace

/-- A member of an object with its key as scanned. -/
abbrev Member := Option String × Document

/-- An object one of whose keys denotes no text is malformed. -/
def objectOf (members : List Member) : Document :=
  match members.mapM (fun m => m.1.map (fun key => (key, m.2))) with
  | some named => .table named
  | none => .malformed

def textOf (units : List Unit16) : Document :=
  match resolve units with
  | some text => .text (String.ofList text)
  | none => .malformed

mutual

/-- A value, blanks before it allowed. Fuel counts the calls nested in one another. -/
def value : Nat → List Char → Option (Document × List Char)
  | 0, _ => none
  | fuel + 1, text =>
      match skipSpace text with
      | '{' :: rest =>
          match skipSpace rest with
          | '}' :: after => some (.table [], after)
          | body => do
              let (found, after) ← members fuel body
              pure (objectOf found, after)
      | '[' :: rest =>
          match skipSpace rest with
          | ']' :: after => some (.list [], after)
          | body => do
              let (found, after) ← items fuel body
              pure (.list found, after)
      | '"' :: rest => do
          let (units, after) ← scan rest
          pure (textOf units, after)
      | 'n' :: 'u' :: 'l' :: 'l' :: after => some (.null, after)
      | 't' :: 'r' :: 'u' :: 'e' :: after => some (.bool true, after)
      | 'f' :: 'a' :: 'l' :: 's' :: 'e' :: after => some (.bool false, after)
      | other => do
          let (number, after) ← number? other
          pure (number.toDocument, after)

/-- The items of a list up to its closing bracket. -/
def items : Nat → List Char → Option (List Document × List Char)
  | 0, _ => none
  | fuel + 1, text => do
      let (first, rest) ← value fuel text
      match skipSpace rest with
      | ']' :: after => pure ([first], after)
      | ',' :: more =>
          let (others, after) ← items fuel more
          pure (first :: others, after)
      | _ => none

/-- The members of an object up to its closing brace. -/
def members : Nat → List Char → Option (List Member × List Char)
  | 0, _ => none
  | fuel + 1, text =>
      match skipSpace text with
      | '"' :: afterQuote => do
          let (units, afterKey) ← scan afterQuote
          match skipSpace afterKey with
          | ':' :: afterColon =>
              let (first, rest) ← value fuel afterColon
              let member : Member := ((resolve units).map String.ofList, first)
              match skipSpace rest with
              | '}' :: after => pure ([member], after)
              | ',' :: more =>
                  let (others, after) ← members fuel more
                  pure (member :: others, after)
              | _ => none
          | _ => none
      | _ => none

end

/-- The document of a whole text. Two calls per character are enough. -/
def read? (text : String) : Option Document := do
  let chars := text.toList
  let (document, rest) ← value (2 * chars.length + 2) chars
  if skipSpace rest = [] then some document else none

/-- Lists and objects nested deeper than this are not read as values. -/
def depthLimit : Nat := 127

/-- True when a document that stands `outer` levels deep in its text can be read as a value. -/
def isValueWithin (outer : Nat) (document : Document) : Bool :=
  document.isSound && outer + document.depth ≤ depthLimit

end DesignTokens.Json
