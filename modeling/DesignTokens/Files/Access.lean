/-!
# Access to files

The three operations that a build needs of the file system, over any monad that provides them.
-/

namespace DesignTokens

/-- Why a file cannot be read. -/
inductive ReadFailure where
  | missing
  | blocked
deriving DecidableEq

structure FileAccess (m : Type → Type) where
  read : String → m (Except ReadFailure ByteArray)
  /-- Makes a directory and those above it; tells whether it is there afterwards. -/
  makeDirectories : String → m Bool
  /-- Puts a text into a file; tells whether that worked. -/
  write : String → String → m Bool

namespace FileAccess

variable {m : Type → Type} [Monad m]

/-- The text of a file. Bytes that are no text count as blocked. -/
def readText (files : FileAccess m) (path : String) : m (Except ReadFailure String) := do
  match ← files.read path with
  | .error e => pure (.error e)
  | .ok bytes =>
      match String.fromUTF8? bytes with
      | some text => pure (.ok text)
      | none => pure (.error .blocked)

end FileAccess

end DesignTokens
