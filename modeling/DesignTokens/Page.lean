import DesignTokens.Changes
import DesignTokens.Stylesheet

/-!
# The reference page

The content of the page that documents a design system: sections with tables, whose cells are marked
where something changed since the previous build.
-/

namespace DesignTokens.Page

inductive Content where
  | text (text : String)
  | code (text : String)
  /-- A class name set in its own class. -/
  | classSample (className : String)
  /-- A font family set in itself. -/
  | fontSample (family : String)
  /-- A patch of a color. -/
  | swatch (reference : String)
deriving DecidableEq

structure Cell where
  content : Content
  isChanged : Bool
deriving DecidableEq

def Cell.plain (content : Content) : Cell := ⟨content, false⟩

structure Table where
  columns : List String
  rows : List (List Cell)
deriving DecidableEq

inductive Body where
  | note (text : String)
  | table (table : Table)
  /-- The keys of all changes. -/
  | changes (keys : List String)
deriving DecidableEq

structure Section where
  id : String
  heading : String
  body : Body
deriving DecidableEq

end Page

structure Page where
  brand : String
  stylesheetHref : String
  sections : List Page.Section
deriving DecidableEq

namespace Page

def changeSection (changes : ChangeSet) : Section where
  id := "changes"
  heading := "Changes"
  body :=
    if changes.isEmpty then .note "No token changes since the previous build."
    else .changes changes.elements

def breakpointSection (config : Config) (changes : ChangeSet) : Section where
  id := "breakpoints"
  heading := "Breakpoints"
  body := .table {
    columns := ["Breakpoint", "Min width"]
    rows := Breakpoint.all.map (fun b =>
      [.plain (.text b.name),
        ⟨.text (config.breakpoints.at b), changes.contains (Changes.widthKey b)⟩]) }

/-- Name, value and raw value of a variable. Name and value are marked also when the variable itself
is new or changed. -/
def variableCells (v : Variable) (fieldChanged : Bool) (changes : ChangeSet) : List Cell :=
  let variableChanged := fieldChanged || changes.contains (Changes.variableKey v.name)
  [⟨.code v.name, variableChanged⟩, ⟨.text v.value, variableChanged⟩, ⟨.text v.raw, fieldChanged⟩]

/-- The key under which a change of a class property at a breakpoint is reported. -/
def bindingKey (className : String) (b : Breakpoint) (p : Property) : String :=
  match Slot.at? p b with
  | some slot => Changes.slotKey className slot
  | none => className ++ "." ++ p.configKey

def typographyRow (changes : ChangeSet) (rule : Rule) (binding : Property × Variable) : List Cell :=
  .plain (.classSample rule.className) :: .plain (.text binding.1.cssProperty) ::
    variableCells binding.2
      (changes.contains (bindingKey rule.className rule.breakpoint binding.1)) changes

def variableColumns : List String := ["Variable", "Value", "Raw"]

def typographySection (config : Config) (table : VariableTable) (changes : ChangeSet)
    (b : Breakpoint) : Section where
  id := "typography-" ++ b.name
  heading := "Typography: " ++ b.name ++ " (from " ++ config.breakpoints.at b ++ ")"
  body :=
    match config.rules table b with
    | [] => .note "No classes declare properties at this breakpoint."
    | rules => .table {
        columns := "Class" :: "Property" :: variableColumns
        rows := rules.flatMap (fun rule => rule.bindings.map (typographyRow changes rule)) }

/-- There is no section where no alias is declared. -/
def fontFamilySections (config : Config) (changes : ChangeSet) : List Section :=
  if config.fontFamilies.isEmpty then []
  else [{
    id := "font-families"
    heading := "Font families"
    body := .table {
      columns := ["Alias", "Value"]
      rows := config.fontFamilies.entries.map (fun entry =>
        [.plain (.text entry.1),
          ⟨.fontSample entry.2,
            changes.contains (Changes.entryKey Changes.fontFamilyMap entry.1)⟩]) } }]

def spacingSection (config : Config) (table : VariableTable) (changes : ChangeSet) : Section where
  id := "spacing"
  heading := "Spacing"
  body :=
    if config.spacing.isEmpty then .note "No spacing tokens."
    else .table {
      columns := "Key" :: variableColumns
      rows := (table.flat .spacing config.spacing).map (fun entry =>
        let changed := changes.contains (Changes.entryKey Property.spacing.configKey entry.1)
        .plain (.text entry.1) :: variableCells entry.2 changed changes) }

def colorSection (config : Config) (table : VariableTable) (changes : ChangeSet) : Section where
  id := "colors"
  heading := "Colors"
  body :=
    if config.colors.isEmpty then .note "No color tokens."
    else .table {
      columns := "Swatch" :: "Key" :: variableColumns
      rows := (table.flat .color config.colors).map (fun entry =>
        let changed := changes.contains (Changes.entryKey Property.color.configKey entry.1)
        ⟨.swatch entry.2.reference, changed⟩ :: .plain (.text entry.1) ::
          variableCells entry.2 changed changes) }

def ofConfig (config : Config) (table : VariableTable) (changes : ChangeSet) (href : String) :
    Page where
  brand := config.brand
  stylesheetHref := href
  sections :=
    [changeSection changes, breakpointSection config changes] ++
      Breakpoint.all.map (typographySection config table changes) ++
      fontFamilySections config changes ++
      [spacingSection config table changes, colorSection config table changes]

end Page

end DesignTokens
