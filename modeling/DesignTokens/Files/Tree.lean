import DesignTokens.Files.Access
import DesignTokens.Files.Path
import DesignTokens.SortedMap

/-!
# File trees

A file system as a value: what stands at each place below the working directory and the root.
-/

namespace DesignTokens

inductive Inode where
  | file (content : ByteArray)
  | directory

instance : DecidableEq Inode
  | .file first, .file second =>
      match ByteArray.instDecidableEq first second with
      | .isTrue h => .isTrue (congrArg Inode.file h)
      | .isFalse h => .isFalse (fun heq => h (Inode.file.inj heq))
  | .file _, .directory => .isFalse nofun
  | .directory, .file _ => .isFalse nofun
  | .directory, .directory => .isTrue rfl

/-- A place reached from the working directory, or from the root if it begins with `/`. -/
abbrev Place := List String

namespace Place

/-- The directory above. Above the working directory there is always another one. -/
def up (place : Place) : Place :=
  match place.getLast? with
  | none => [".."]
  | some ".." => place ++ [".."]
  | some "/" => place
  | some _ => place.dropLast

/-- True of the places where a directory always stands. -/
def isFixed (place : Place) : Bool :=
  place.all (fun name => name = ".." || name = "/")

end Place

structure FileTree where
  inodes : List (Place × Inode)
deriving DecidableEq

namespace FileTree

def empty : FileTree := ⟨[]⟩

def inode? (tree : FileTree) (place : Place) : Option Inode :=
  if place.isFixed then some .directory else tree.inodes.lookup place

def isDirectory (tree : FileTree) (place : Place) : Bool :=
  tree.inode? place = some .directory

/-- The most bytes of a name in a directory. -/
def nameLimit : Nat := 255

/-- One step along a path, which has to start from a directory. -/
def step (tree : FileTree) (place : Place) (name : String) : Except ReadFailure Place :=
  match tree.inode? place with
  | none => .error .missing
  | some (.file _) => .error .blocked
  | some .directory =>
      if name = "." then .ok place
      else if name = ".." then .ok place.up
      else if name.utf8ByteSize ≤ nameLimit then .ok (place ++ [name])
      else .error .blocked

/-- The names along a path, from its root on. -/
def names (path : String) : List String :=
  (if Path.isAbsolute path then ["/"] else []) ++ (Path.segments path).filter (· ≠ "")

/-- The names that a look-up goes along; a slash at the end leads on to the directory itself. -/
def lookupNames (path : String) : List String :=
  names path ++ (if path.toList.getLast? = some '/' then ["."] else [])

/-- The most bytes of a path. -/
def pathLimit : Nat := 4095

/-- A path is not too long and does not hold the null character. -/
def isPath (path : String) : Bool :=
  path.utf8ByteSize ≤ pathLimit && !path.toList.contains '\x00'

/-- Where a path leads; something need not stand there yet. The empty path leads nowhere. -/
def locate (tree : FileTree) (path : String) : Except ReadFailure Place :=
  if path = "" then .error .missing
  else if isPath path then (lookupNames path).foldlM tree.step []
  else .error .blocked

def read (tree : FileTree) (path : String) : Except ReadFailure ByteArray := do
  let place ← tree.locate path
  match tree.inode? place with
  | none => .error .missing
  | some .directory => .error .blocked
  | some (.file content) => .ok content

def put (tree : FileTree) (place : Place) (inode : Inode) : FileTree :=
  ⟨(place, inode) :: tree.inodes.filter (fun entry => entry.1 ≠ place)⟩

/-- Writes a file in a directory that is there. A directory is not replaced by a file. -/
def writeBytes (tree : FileTree) (path : String) (content : ByteArray) : Option FileTree :=
  match tree.locate path with
  | .error _ => none
  | .ok place =>
      if tree.isDirectory place then none else some (tree.put place (.file content))

/-- True when nothing but single dots is left of a path, so that it ends within a directory. -/
def endsWithin (rest : List String) : Bool :=
  !rest.isEmpty && rest.all (· = ".")

/-- Goes along names and makes the directories that are missing, but not one that the path would
have to end within. The directories made before a failure stay. -/
def makeAlong : List String → Place → FileTree → FileTree × Bool
  | [], _, tree => (tree, true)
  | name :: rest, place, tree =>
      match tree.step place name with
      | .error _ => (tree, false)
      | .ok next =>
          match tree.inode? next with
          | none => if endsWithin rest then (tree, false) else makeAlong rest next (tree.put next .directory)
          | some .directory => makeAlong rest next tree
          | some (.file _) => (tree, false)

def makeDirectories (tree : FileTree) (path : String) : FileTree × Bool :=
  if isPath path then makeAlong (names path) [] tree else (tree, false)

/-- Access to a file tree that is a state. -/
def access : FileAccess (StateM FileTree) where
  read path := fun tree => (tree.read path, tree)
  makeDirectories path := fun tree =>
    let (changed, done) := tree.makeDirectories path
    (done, changed)
  write path text := fun tree =>
    match tree.writeBytes path text.toUTF8 with
    | some changed => (true, changed)
    | none => (false, tree)

end FileTree

end DesignTokens
