import DesignTokens.Changes
import DesignTokens.Event
import DesignTokens.Files.Access
import DesignTokens.Files.Path
import DesignTokens.Snapshot.Codec

/-!
# Baselines

The snapshot that the next build is compared with, wherever it is kept. Trouble with the baseline
never fails a build: what cannot be read counts as absent, and what cannot be saved is logged.
-/

namespace DesignTokens

inductive StoreError where
  | inaccessible (path : String)
  | corrupt (path : String)
deriving DecidableEq

/-- A place for one snapshot. -/
structure SnapshotStore (m : Type → Type) where
  load : m (Except StoreError (Option Snapshot))
  save : Snapshot → m (Except StoreError Unit)

namespace SnapshotStore

/-- A store in memory. -/
def memory : SnapshotStore (StateM (Option Snapshot)) where
  load := do pure (.ok (← get))
  save snapshot := do
    set (some snapshot)
    pure (.ok ())

variable {m : Type → Type} [Monad m]

/-- A store in a file. -/
def file (files : FileAccess m) (path : String) : SnapshotStore m where
  load := do
    match ← files.readText path with
    | .error .missing => pure (.ok none)
    | .error .blocked => pure (.error (.inaccessible path))
    | .ok text =>
        match Snapshot.parse? text with
        | some snapshot => pure (.ok (some snapshot))
        | none => pure (.error (.corrupt path))
  save snapshot := do
    let directory := (Path.parent? path).getD ""
    if ← (if directory = "" then pure true else files.makeDirectories directory) then
      if ← files.write path snapshot.render then pure (.ok ())
      else pure (.error (.inaccessible path))
    else pure (.error (.inaccessible directory))

end SnapshotStore

/-- A result with what was logged on the way to it. -/
structure Logged (α : Type) where
  value : α
  events : List Event
deriving DecidableEq

namespace Baseline

variable {m : Type → Type} [Monad m]

def ignoring : Event := ⟨.warn, "ignoring previous snapshot", []⟩

def saveFailed : Event := ⟨.warn, "failed to save snapshot", []⟩

/-- What is logged about a comparison. -/
def comparison (previous : Option Snapshot) (policy : ChangePolicy) (changes : ChangeSet) : Event :=
  let changed := ("changed", toString changes.size)
  match previous with
  | none =>
      ⟨.info, "no previous snapshot, using baseline", [("policy", policy.onFirstRun.label), changed]⟩
  | some _ => ⟨.info, "compared against previous snapshot", [changed]⟩

/-- Compares with the baseline and leaves it as it is. -/
def detect (store : SnapshotStore m) (current : Snapshot) (policy : ChangePolicy) :
    m (Logged ChangeSet) := do
  let (previous, warnings) := match ← store.load with
    | .ok previous => (previous, [])
    | .error _ => (none, [ignoring])
  let changes := Changes.diff current previous policy
  pure ⟨changes, warnings ++ [comparison previous policy changes]⟩

/-- Makes a snapshot the baseline. -/
def commit (store : SnapshotStore m) (current : Snapshot) : m (Logged Unit) := do
  match ← store.save current with
  | .ok () => pure ⟨(), []⟩
  | .error _ => pure ⟨(), [saveFailed]⟩

/-- Compares with the baseline and moves it. -/
def track (store : SnapshotStore m) (current : Snapshot) (policy : ChangePolicy) :
    m (Logged ChangeSet) := do
  let detected ← detect store current policy
  let committed ← commit store current
  pure ⟨detected.value, detected.events ++ committed.events⟩

end Baseline

end DesignTokens
