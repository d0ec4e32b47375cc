import DesignTokens.Decimal.Shortest
import DesignTokens.Document
import DesignTokens.Json.Quoted

/-!
# Writing JSON

One member or item a line, two spaces for each level, and nothing inside empty lists and objects.
-/

namespace DesignTokens.Json

def lineBreak (level : Nat) : List Char :=
  '\n' :: List.replicate (2 * level) ' '

/-- A double with a point, so that it reads back as one; infinities and NaN have no JSON form. -/
def doubleChars (x : Float) : List Char :=
  if Decimal.isFinite x then
    let text := (Decimal.shortest x).toList
    if text.contains '.' then text else text ++ ['.', '0']
  else ['n', 'u', 'l', 'l']

mutual

def write (level : Nat) : Document → List Char
  | .null => ['n', 'u', 'l', 'l']
  | .bool true => ['t', 'r', 'u', 'e']
  | .bool false => ['f', 'a', 'l', 's', 'e']
  | .int n => (toString n).toList
  | .float x => doubleChars x
  | .text s => quoted s
  | .moment written => quoted written
  | .malformed => ['n', 'u', 'l', 'l']
  | .list [] => ['[', ']']
  | .list (item :: rest) =>
      '[' :: lineBreak (level + 1) ++ write (level + 1) item ++ writeItems (level + 1) rest ++
        lineBreak level ++ [']']
  | .table [] => ['{', '}']
  | .table ((key, value) :: rest) =>
      '{' :: lineBreak (level + 1) ++ quoted key ++ [':', ' '] ++ write (level + 1) value ++
        writeMembers (level + 1) rest ++ lineBreak level ++ ['}']

/-- The items after the first one. -/
def writeItems (level : Nat) : List Document → List Char
  | [] => []
  | item :: rest => ',' :: lineBreak level ++ write level item ++ writeItems level rest

/-- The members after the first one. -/
def writeMembers (level : Nat) : List (String × Document) → List Char
  | [] => []
  | (key, value) :: rest =>
      ',' :: lineBreak level ++ quoted key ++ [':', ' '] ++ write level value ++
        writeMembers level rest

end

def render (document : Document) : String :=
  String.ofList (write 0 document)

end DesignTokens.Json
