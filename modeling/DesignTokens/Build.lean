import DesignTokens.Baseline
import DesignTokens.Page.Html
import DesignTokens.Stylesheet.Printer

/-!
# Builds

One build makes stylesheet and reference page of a config and moves the baseline.
-/

namespace DesignTokens

structure BuildOutput where
  css : String
  docs : String
  changes : ChangeSet
  variableCount : Nat
deriving DecidableEq

namespace Build

def cssFileName : String := "tokens.css"

def docsFileName : String := "tokens.html"

variable {m : Type → Type} [Monad m]

/-- Builds a config. An unknown key that the config's policy refuses stops the build before the
baseline is touched. -/
def compile (store : SnapshotStore m) (config : Config) (policy : ChangePolicy) (layout : Layout) :
    m (Logged (Except UnknownKey BuildOutput)) :=
  match config.intern config.build.unknownKeys with
  | .error unknown => pure ⟨.error unknown, []⟩
  | .ok table => do
      let snapshot := Snapshot.capture config table
      let detected ← Baseline.detect store snapshot policy
      let committed ← Baseline.commit store snapshot
      let output : BuildOutput := {
        css := (Stylesheet.ofConfig config table).render layout
        docs := (Page.ofConfig config table detected.value cssFileName).html
        changes := detected.value
        variableCount := table.size }
      pure ⟨.ok output,
        config.unknownKeyWarnings config.build.unknownKeys ++ detected.events ++ committed.events⟩

end Build

end DesignTokens
