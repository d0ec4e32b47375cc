import DesignTokens.Stylesheet

/-!
# CSS text

A stylesheet is printed on indented lines, or minified without any layout.
-/

namespace DesignTokens

namespace Selector

/-- True of the characters that stand in a CSS identifier as they are. -/
def isNameChar (c : Char) : Bool :=
  c.isAlphanum || c = '-' || c = '_' || 0x80 ≤ c.toNat

def escapeChar (c : Char) : List Char :=
  if isNameChar c then [c] else ['\\', c]

/-- A class name as a CSS identifier. A digit at the start is written by its code point, any other
character that is not part of identifiers after a backslash. -/
def escape : List Char → List Char
  | [] => []
  | c :: rest =>
      (if c.isDigit then ['\\', '3', c, ' '] else escapeChar c) ++ rest.flatMap escapeChar

def text : Selector → String
  | .root => ":root"
  | .className name => "." ++ String.ofList (escape name.toList)

end Selector

/-- How CSS is laid out. -/
inductive Layout where
  | lines
  | minified
deriving DecidableEq

namespace StyleRule

def render (layout : Layout) (rule : StyleRule) : String :=
  match layout with
  | .minified =>
      rule.selector.text ++ "\x7b" ++
        ";".intercalate (rule.declarations.map (fun d => d.property ++ ":" ++ d.value)) ++ "\x7d"
  | .lines =>
      rule.selector.text ++ " \x7b\n" ++
        "\n".intercalate (rule.declarations.map (fun d => "  " ++ d.property ++ ": " ++ d.value ++ ";")) ++
        "\n\x7d"

end StyleRule

namespace Stylesheet

def header (sheet : Stylesheet) : String :=
  "/*! tokenframe | " ++ sheet.brand ++ "-" ++ sheet.category ++ " | generated, do not edit */"

/-- Puts blocks one after the other, with an empty line between two unless minified. -/
def join (layout : Layout) (blocks : List String) : String :=
  match layout with
  | .minified => String.join blocks
  | .lines => "\n\n".intercalate blocks

/-- The lines of a text without their ends, which are a line feed or a carriage return and a line
feed. -/
def lines : List Char → List (List Char)
  | [] => []
  | '\r' :: '\n' :: rest => [] :: lines rest
  | '\n' :: rest => [] :: lines rest
  | c :: rest =>
      match lines rest with
      | [] => [[c]]
      | first :: others => (c :: first) :: others

def indentLine (line : List Char) : List Char :=
  if line.isEmpty then [] else ' ' :: ' ' :: line

/-- Indents every line that is not empty by two spaces. -/
def indent (text : String) : String :=
  "\n".intercalate ((lines text.toList).map (fun line => String.ofList (indentLine line)))

def media (layout : Layout) (query body : String) : String :=
  match layout with
  | .minified => "@media " ++ query ++ "\x7b" ++ body ++ "\x7d"
  | .lines => "@media " ++ query ++ " \x7b\n" ++ indent body ++ "\n\x7d"

def render (layout : Layout) (sheet : Stylesheet) : String :=
  let query := "(width >= " ++ sheet.minWidth ++ ")"
  let wide := media layout query (join layout (sheet.wide.map (StyleRule.render layout)))
  let css := join layout (sheet.header :: sheet.base.map (StyleRule.render layout) ++ [wide])
  match layout with
  | .minified => css
  | .lines => css ++ "\n"

end Stylesheet

end DesignTokens
