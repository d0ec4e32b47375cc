import DesignTokens.Rule

/-!
# Stylesheets

The content of the stylesheet: variables on `:root`, a rule for each class, utility classes for each
spacing and color, a container, and again rules, utilities and container from the desktop width on.
-/

namespace DesignTokens

structure Declaration where
  property : String
  value : String
deriving DecidableEq

inductive Selector where
  | root
  | className (name : String)
deriving DecidableEq

structure StyleRule where
  selector : Selector
  declarations : List Declaration
deriving DecidableEq

structure Stylesheet where
  brand : String
  category : String
  /-- Rules at every width. -/
  base : List StyleRule
  /-- The width from which the `wide` rules count. -/
  minWidth : String
  wide : List StyleRule
deriving DecidableEq

/-- A family of utility classes: its short name and the CSS properties that they set. -/
structure Utility where
  name : String
  properties : List String
deriving DecidableEq

namespace Utility

def spacing : List Utility :=
  [⟨"m", ["margin"]⟩, ⟨"mt", ["margin-top"]⟩, ⟨"mr", ["margin-right"]⟩, ⟨"mb", ["margin-bottom"]⟩,
    ⟨"ml", ["margin-left"]⟩, ⟨"mx", ["margin-left", "margin-right"]⟩,
    ⟨"my", ["margin-top", "margin-bottom"]⟩, ⟨"p", ["padding"]⟩, ⟨"pt", ["padding-top"]⟩,
    ⟨"pr", ["padding-right"]⟩, ⟨"pb", ["padding-bottom"]⟩, ⟨"pl", ["padding-left"]⟩,
    ⟨"px", ["padding-left", "padding-right"]⟩, ⟨"py", ["padding-top", "padding-bottom"]⟩,
    ⟨"gap", ["gap"]⟩]

def color : List Utility :=
  [⟨"text", ["color"]⟩, ⟨"bg", ["background-color"]⟩, ⟨"border", ["border-color"]⟩]

/-- The class of a key, marked with a breakpoint for the ones that count from its width on. -/
def className (utility : Utility) (brand : String) (breakpoint : Option Breakpoint) (key : String) :
    String :=
  let mark := match breakpoint with
    | some b => b.name ++ ":"
    | none => ""
  brand ++ "-" ++ mark ++ utility.name ++ "-" ++ Slug.slugify key

def rule (utility : Utility) (brand : String) (breakpoint : Option Breakpoint) (key : String)
    (v : Variable) : StyleRule :=
  ⟨.className (utility.className brand breakpoint key),
    utility.properties.map (fun property => ⟨property, v.reference⟩)⟩

/-- The rules of several families over the keys of a flat table, family by family. -/
def rules (utilities : List Utility) (brand : String) (breakpoint : Option Breakpoint)
    (entries : List (String × Variable)) : List StyleRule :=
  utilities.flatMap (fun utility =>
    entries.map (fun entry => utility.rule brand breakpoint entry.1 entry.2))

end Utility

namespace Stylesheet

def rootRules (table : VariableTable) : List StyleRule :=
  match table.byProperty with
  | [] => []
  | declared => [⟨.root, declared.map (fun v => ⟨v.name, v.value⟩)⟩]

def typographyRule (rule : Rule) : StyleRule :=
  ⟨.className rule.className,
    rule.bindings.map (fun binding => ⟨binding.1.cssProperty, binding.2.reference⟩)⟩

def typography (config : Config) (table : VariableTable) (breakpoint : Breakpoint) : List StyleRule :=
  (config.rules table breakpoint).map typographyRule

end Stylesheet

/-- The variables of a flat table's keys, in the order of the keys. -/
def VariableTable.flat (table : VariableTable) (p : Property) (values : SortedMap String) :
    List (String × Variable) :=
  values.keys.filterMap (fun key => (table.find? (.entry p key)).map (fun v => (key, v)))

namespace Stylesheet

def utilities (config : Config) (table : VariableTable) (breakpoint : Option Breakpoint) :
    List StyleRule :=
  Utility.rules Utility.spacing config.brand breakpoint (table.flat .spacing config.spacing) ++
    Utility.rules Utility.color config.brand breakpoint (table.flat .color config.colors)

def container (config : Config) (declarations : List Declaration) : StyleRule :=
  ⟨.className (config.brand ++ "-container"), declarations⟩

def ofConfig (config : Config) (table : VariableTable) : Stylesheet where
  brand := config.brand
  category := config.category
  base :=
    rootRules table ++ typography config table .mobile ++ utilities config table none ++
      [container config [⟨"width", "100%"⟩, ⟨"margin-inline", "auto"⟩]]
  minWidth := config.breakpoints.desktop
  wide :=
    typography config table .desktop ++ utilities config table (some .desktop) ++
      [container config [⟨"max-width", config.breakpoints.desktop⟩]]

end Stylesheet

end DesignTokens
