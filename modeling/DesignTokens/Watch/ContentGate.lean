import DesignTokens.Digest.Sha256
import DesignTokens.Files.Access
import DesignTokens.Files.Path

/-!
# The content gate

Remembers a digest of the content of each file, so that an event on a file counts only if the content
is another one than before.
-/

namespace DesignTokens

/-- The digests of the files that could be read, by the components of their paths. -/
structure ContentGate where
  digests : List (List String × List UInt8)
deriving DecidableEq

namespace ContentGate

def empty : ContentGate := ⟨[]⟩

def digest? (gate : ContentGate) (key : List String) : Option (List UInt8) :=
  gate.digests.lookup key

def forget (gate : ContentGate) (key : List String) : ContentGate :=
  ⟨gate.digests.filter (fun entry => entry.1 ≠ key)⟩

def remember (gate : ContentGate) (key : List String) (digest : List UInt8) : ContentGate :=
  ⟨(key, digest) :: (gate.forget key).digests⟩

/-- Tells whether the content differs from the last call for the same path. A file that cannot be
read has no content. -/
def note (gate : ContentGate) (path : String) (content : Option ByteArray) : ContentGate × Bool :=
  let key := Path.components path
  match content with
  | some bytes =>
      let digest := Sha256.digest bytes.toList
      if gate.digest? key = some digest then (gate, false) else (gate.remember key digest, true)
  | none => (gate.forget key, (gate.digest? key).isSome)

variable {m : Type → Type} [Monad m]

/-- `note` on what the file holds now. -/
def changed (files : FileAccess m) (gate : ContentGate) (path : String) : m (ContentGate × Bool) := do
  match ← files.read path with
  | .ok bytes => pure (gate.note path (some bytes))
  | .error _ => pure (gate.note path none)

end ContentGate

end DesignTokens
