import DesignTokens.Toml.Scalar
import DesignTokens.Toml.Tree

/-!
# Reading TOML
-/

namespace DesignTokens.Toml

def skipSpace (text : List Char) : List Char :=
  text.dropWhile isSpace

/-- Takes off a comment, up to the line end. -/
def skipComment (text : List Char) : List Char :=
  match text with
  | '#' :: rest => rest.dropWhile isPlain
  | other => other

/-- The end of a line: blanks, a comment, and a line break or the end of the text. -/
def lineEnd? (text : List Char) : Option (List Char) :=
  match skipComment (skipSpace text) with
  | [] => some []
  | other => lineBreak? other

def isBareKeyChar (c : Char) : Bool :=
  c.isAlphanum || c = '_' || c = '-'

/-- One part of a key: quoted on one line, or bare. -/
def simpleKey? (text : List Char) : Option (String × List Char) :=
  match text with
  | '"' :: rest => (basic rest).map (fun r => (String.ofList r.1, r.2))
  | '\'' :: rest => (literal rest).map (fun r => (String.ofList r.1, r.2))
  | _ =>
      match text.takeWhile isBareKeyChar with
      | [] => none
      | key => some (String.ofList key, text.dropWhile isBareKeyChar)

/-- Parts joined by dots, with blanks around each. Fuel counts the parts. -/
def dottedKey : Nat → List Char → Option (List String × List Char)
  | 0, _ => none
  | fuel + 1, text => do
      let (key, rest) ← simpleKey? (skipSpace text)
      match skipSpace rest with
      | '.' :: more =>
          let (keys, after) ← dottedKey fuel more
          pure (key :: keys, after)
      | after => pure ([key], after)

/-- Keys have fewer parts than this, and values are nested less deep. -/
def nestingLimit : Nat := 80

/-- A dotted key, as the path to its last part and that part. -/
def key? (text : List Char) : Option ((List String × String) × List Char) := do
  let (keys, after) ← dottedKey (nestingLimit - 1) text
  let last ← keys.getLast?
  pure ((keys.dropLast, last), after)

/-- Blanks, line ends and comments inside an array. A comment goes up to a line end. -/
def skipFiller : Nat → List Char → List Char
  | 0, text => text
  | fuel + 1, text =>
      match skipSpace text with
      | '#' :: rest =>
          match lineBreak? (rest.dropWhile isPlain) with
          | some after => skipFiller fuel after
          | none => '#' :: rest
      | other =>
          match lineBreak? other with
          | some after => skipFiller fuel after
          | none => other

def filler (text : List Char) : List Char :=
  skipFiller text.length text

mutual

/-- A value nested in `level` arrays and inline tables. -/
def value : Nat → Nat → List Char → Option (Document × List Char)
  | 0, _, _ => none
  | fuel + 1, level, text =>
      match text with
      | '[' :: rest =>
          if nestingLimit ≤ level + 1 then none
          else do
            let (found, after) ← items fuel (level + 1) rest
            pure (.list found, after)
      | '{' :: rest =>
          if nestingLimit ≤ level + 1 then none
          else
            match skipSpace rest with
            | '}' :: after => some (.table [], after)
            | _ => do
                let (found, after) ← pairs fuel (level + 1) [] rest
                pure (.table (membersToDocument found), after)
      | other => scalar? other

/-- The items of an array up to its closing bracket; a comma may follow the last one. -/
def items : Nat → Nat → List Char → Option (List Document × List Char)
  | 0, _, _ => none
  | fuel + 1, level, text =>
      match filler text with
      | ']' :: after => some ([], after)
      | start => do
          let (first, rest) ← value fuel level start
          match filler rest with
          | ',' :: more =>
              let (others, after) ← items fuel level more
              pure (first :: others, after)
          | ']' :: after => pure ([first], after)
          | _ => none

/-- The pairs of an inline table up to its closing brace, all on one line. -/
def pairs : Nat → Nat → Members → List Char → Option (Members × List Char)
  | 0, _, _, _ => none
  | fuel + 1, level, members, text => do
      let ((path, key), afterKey) ← key? text
      let afterEquals ← expect? '=' afterKey
      let (document, rest) ← value fuel level (skipSpace afterEquals)
      let extended ← addValue path key document members
      match skipSpace rest with
      | '}' :: after => pure (extended, after)
      | ',' :: more => pairs fuel level extended more
      | _ => none

end

/-- A pair of a key and a value, up to the end of its line. -/
def pair? (text : List Char) : Option (((List String × String) × Document) × List Char) := do
  let (key, afterKey) ← key? text
  let afterEquals ← expect? '=' afterKey
  let start := skipSpace afterEquals
  let (document, rest) ← value (2 * start.length + 2) 0 start
  let after ← lineEnd? rest
  pure ((key, document), after)

/-- A table's header, up to the end of its line. -/
def header? (text : List Char) : Option (Header × List Char) :=
  match text with
  | '[' :: '[' :: rest => do
      let ((path, key), afterKey) ← key? rest
      let afterFirst ← expect? ']' afterKey
      let afterBoth ← expect? ']' afterFirst
      let after ← lineEnd? afterBoth
      pure (⟨path, key, true⟩, after)
  | '[' :: rest => do
      let ((path, key), afterKey) ← key? rest
      let afterBoth ← expect? ']' afterKey
      let after ← lineEnd? afterBoth
      pure (⟨path, key, false⟩, after)
  | _ => none

/-- A line that says something. -/
inductive Line where
  | header (header : Header)
  | pair (path : List String) (key : String) (document : Document)

/-- The lines of a text that are not empty. Values can span several lines; fuel counts the steps,
each of which takes at least one character. -/
def lines : Nat → List Char → Option (List Line)
  | 0, _ => none
  | fuel + 1, text =>
      match skipSpace text with
      | [] => some []
      | '[' :: rest => do
          let (header, after) ← header? ('[' :: rest)
          let others ← lines fuel after
          pure (.header header :: others)
      | c :: rest =>
          if c = '#' ∨ c = '\n' ∨ c = '\r' then do
            let after ← lineEnd? (c :: rest)
            lines fuel after
          else do
            let (((path, key), document), after) ← pair? (c :: rest)
            let others ← lines fuel after
            pure (.pair path key document :: others)

/-- The pairs up to the next header, and the lines from there on. -/
def leadingPairs : List Line → List (List String × String × Document) × List Line
  | .pair path key document :: rest =>
      let (pairs, others) := leadingPairs rest
      ((path, key, document) :: pairs, others)
  | others => ([], others)

def fill (pairs : List (List String × String × Document)) (members : Members) : Option Members :=
  pairs.foldlM (fun found pair => addValue pair.1 pair.2.1 pair.2.2 found) members

/-- Adds the tables of all headers, in order. The first argument bounds their number. -/
def addTables : Nat → List Line → Members → Option Members
  | fuel + 1, .header header :: rest, root => do
      let (pairs, others) := leadingPairs rest
      let extended ← addTable header (fill pairs) root
      addTables fuel others extended
  | _, _, root => some root

/-- The table of a whole text. A byte order mark at the start is left out. -/
def read? (text : String) : Option Document := do
  let chars := match text.toList with
    | '\uFEFF' :: rest => rest
    | other => other
  let found ← lines (chars.length + 1) chars
  let (pairs, others) := leadingPairs found
  let root ← fill pairs []
  let full ← addTables others.length others root
  pure (.table (membersToDocument full))

end DesignTokens.Toml
