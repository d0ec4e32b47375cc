import DesignTokens.Variables

/-!
# Snapshots

What one build resolved, kept to be compared with the next one.
-/

namespace DesignTokens

structure Snapshot where
  breakpoints : Widths
  fontFamilies : SortedMap String
  spacing : SortedMap String
  colors : SortedMap String
  classes : SortedMap ClassSpec
  /-- Declared values by variable name. -/
  values : SortedMap String

namespace Snapshot

def empty : Snapshot where
  breakpoints := ⟨"", ""⟩
  fontFamilies := .empty
  spacing := .empty
  colors := .empty
  classes := .empty
  values := .empty

/-- The snapshot of a config and its variables. Keys that name no property are left out. -/
def capture (config : Config) (table : VariableTable) : Snapshot where
  breakpoints := config.breakpoints
  fontFamilies := config.fontFamilies
  spacing := config.spacing
  colors := config.colors
  classes := config.classes.map ClassSpec.withoutUnknown
  values := table.valuesByName

end Snapshot

end DesignTokens
