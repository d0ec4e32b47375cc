/-!
# Paths

Paths are texts; their segments stand between slashes. Empty segments and single dots count for
nothing, except a dot at the very start.
-/

namespace DesignTokens.Path

def isAbsolute (path : String) : Bool :=
  path.toList.head? = some '/'

/-- The segments between slashes, empty ones included. -/
def splitSlashes : List Char → List (List Char)
  | [] => [[]]
  | '/' :: rest => [] :: splitSlashes rest
  | c :: rest =>
      match splitSlashes rest with
      | [] => [[c]]
      | first :: others => (c :: first) :: others

def isIdle (segment : String) : Bool := segment = "" || segment = "."

def segments (path : String) : List String :=
  (splitSlashes path.toList).map String.ofList

/-- The first segment and the others. The first one is empty for an absolute path. -/
def headAndTail (path : String) : String × List String :=
  match segments path with
  | [] => ("", [])
  | first :: rest => (first, rest)

/-- What a path goes through. Two paths with the same components are the same path. -/
def components (path : String) : List String :=
  let (first, rest) := headAndTail path
  let more := rest.filter (fun segment => !isIdle segment)
  if isAbsolute path then "/" :: more
  else if first = "" then more
  else first :: more

def dropIdleEnd (reversed : List String) : List String :=
  reversed.dropWhile isIdle

/-- The path without its last component, as written; there is none above the root and above the
empty path. -/
def parent? (path : String) : Option String :=
  let (first, rest) := headAndTail path
  match dropIdleEnd rest.reverse with
  | _ :: others =>
      match (dropIdleEnd others).reverse with
      | [] => some (if isAbsolute path then "/" else first)
      | kept => some ("/".intercalate (first :: kept))
  | [] => if first = "" then none else some ""

/-- The last component, if it is a name. -/
def fileName? (path : String) : Option String :=
  match (components path).getLast? with
  | some name => if name = "/" ∨ name = "." ∨ name = ".." then none else some name
  | none => none

/-- What follows the last dot of the file name, unless that dot comes first. -/
def extension? (path : String) : Option String := do
  let name ← fileName? path
  let reversed := name.toList.reverse
  let ending := reversed.takeWhile (· ≠ '.')
  match reversed.dropWhile (· ≠ '.') with
  | '.' :: _ :: _ => some (String.ofList ending.reverse)
  | _ => none

/-- The second path seen from the first one; an absolute path stands for itself. -/
def join (base path : String) : String :=
  if isAbsolute path || base = "" then path
  else if base.toList.getLast? = some '/' then base ++ path
  else base ++ "/" ++ path

end DesignTokens.Path
