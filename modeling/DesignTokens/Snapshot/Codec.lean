import DesignTokens.Config.Reader
import DesignTokens.Json.Writer
import DesignTokens.Snapshot

/-!
# The text of snapshots

Snapshots are kept as JSON. Absent properties are left out, and an empty tier is kept as an empty
object.
-/

namespace DesignTokens

/-- A member for a value that is there. -/
def optionalMember (name : String) (value : Option Document) : List (String × Document) :=
  match value with
  | some document => [(name, document)]
  | none => []

namespace Tier

def toDocument (tier : Tier) : Document :=
  .table (optionalMember "fontSize" (tier.fontSize.map .text) ++
    optionalMember "lineHeight" (tier.lineHeight.map .text) ++ tier.unknown.entries)

end Tier

namespace ClassSpec

def toDocument (spec : ClassSpec) : Document :=
  .table (optionalMember "fontFamily" (spec.fontFamily.map .text) ++
    optionalMember "fontWeight" (spec.fontWeight.map .text) ++
    optionalMember "letterSpacing" (spec.letterSpacing.map .text) ++
    optionalMember "textTransform" (spec.textTransform.map .text) ++
    optionalMember "mobile" (spec.mobile.map Tier.toDocument) ++
    optionalMember "desktop" (spec.desktop.map Tier.toDocument) ++ spec.unknown.entries)

end ClassSpec

def SortedMap.toDocument {α : Type} (write : α → Document) (map : SortedMap α) : Document :=
  .table (map.entries.map (fun entry => (entry.1, write entry.2)))

def Widths.toDocument (widths : Widths) : Document :=
  .table [("mobile", .text widths.mobile), ("desktop", .text widths.desktop)]

namespace Snapshot

def toDocument (snapshot : Snapshot) : Document :=
  .table [
    ("breakpoints", snapshot.breakpoints.toDocument),
    ("fontFamilyMap", snapshot.fontFamilies.toDocument .text),
    ("spacingMap", snapshot.spacing.toDocument .text),
    ("colors", snapshot.colors.toDocument .text),
    ("classes", snapshot.classes.toDocument ClassSpec.toDocument),
    ("variables", snapshot.values.toDocument .text)]

def render (snapshot : Snapshot) : String :=
  Json.render snapshot.toDocument

/-- Unlike those of a config, the widths of a snapshot are texts and may be missing. -/
def widthsSchema : Schema Widths :=
  .closed ⟨"", ""⟩ [
    Field.of "mobile" Reading.text (fun v w => { w with mobile := v }),
    Field.of "desktop" Reading.text (fun v w => { w with desktop := v })]

def schema : Schema Snapshot :=
  .closed empty [
    Field.of "breakpoints" (widthsSchema.read .json) (fun v s => { s with breakpoints := v }),
    Field.of "fontFamilyMap" (Reading.map Reading.raw) (fun v s => { s with fontFamilies := v }),
    Field.of "spacingMap" (Reading.map Reading.raw) (fun v s => { s with spacing := v }),
    Field.of "colors" (Reading.map Reading.raw) (fun v s => { s with colors := v }),
    Field.of "classes" (Reading.map (ClassSpec.read .json)) (fun v s => { s with classes := v }),
    Field.of "variables" (Reading.map Reading.text) (fun v s => { s with values := v })]

/-- The snapshot that a text holds; any field may be missing. -/
def parse? (text : String) : Option Snapshot := do
  let document ← Json.read? text
  match schema.read .json document with
  | .ok snapshot => some snapshot
  | .error _ => none

end Snapshot

end DesignTokens
