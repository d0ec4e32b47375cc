import DesignTokens.ClassSpec
import DesignTokens.Naming.Namer
import DesignTokens.Policy

/-!
# Configs

A config declares a design system: classes with their values at each breakpoint, tables of spacings
and colors, and how its tokens are built.
-/

namespace DesignTokens

structure BuildOptions where
  snapshotPath : Option String
  onFirstRun : FirstRunPolicy
  onRemovedClass : RemovedClassPolicy
  unknownKeys : UnknownKeyPolicy
  minify : Bool
deriving DecidableEq

def BuildOptions.default : BuildOptions :=
  ⟨none, .markNone, .ignore, .ignore, false⟩

structure Config where
  /-- The first part of every variable and utility class name. -/
  brand : String
  category : String
  /-- The pixels of one `rem`. -/
  baseFontSize : Float
  breakpoints : Widths
  classes : SortedMap ClassSpec
  /-- Font families by alias. -/
  fontFamilies : SortedMap String
  spacing : SortedMap String
  colors : SortedMap String
  build : BuildOptions

/-- Why a config that could be read is not accepted. -/
inductive ConfigFault where
  | emptyBrand
  | emptyCategory
  | baseFontSize (found : Float)
  | width (breakpoint : Breakpoint) (found : String)
  | descending (mobile desktop : String)
  | className (found : String)

namespace ConfigFault

def message : ConfigFault → String
  | .emptyBrand => "prefix must not be empty"
  | .emptyCategory => "category must not be empty"
  | .baseFontSize found => "baseFontSize must be a positive number, got " ++ Decimal.shortest found
  | .width breakpoint found =>
      "breakpoints." ++ breakpoint.name ++ " must be a pixel length, got '" ++ found ++ "'"
  | .descending mobile desktop =>
      "breakpoints must ascend: mobile " ++ mobile ++ " is not below desktop " ++ desktop
  | .className found => "invalid class name '" ++ found ++ "'"

end ConfigFault

namespace Config

/-- The width of a breakpoint in pixels, which must not be negative. -/
def pixels (config : Config) (breakpoint : Breakpoint) : Except ConfigFault Float :=
  let raw := config.breakpoints.at breakpoint
  match Length.parse? raw with
  | some length =>
      if length.unit = "px" ∧ 0 ≤ length.value then .ok length.value
      else .error (.width breakpoint raw)
  | none => .error (.width breakpoint raw)

/-- Accepts a config, or tells the first of its faults. -/
def validate (config : Config) : Except ConfigFault Unit :=
  if Text.allBlank config.brand then .error .emptyBrand
  else if Text.allBlank config.category then .error .emptyCategory
  else if !Length.isBase config.baseFontSize then .error (.baseFontSize config.baseFontSize)
  else do
    let mobile ← config.pixels .mobile
    let desktop ← config.pixels .desktop
    if mobile ≥ desktop then
      .error (.descending config.breakpoints.mobile config.breakpoints.desktop)
    else
      match config.classes.keys.find? Text.allBlank with
      | some name => .error (.className name)
      | none => .ok ()

def namer (config : Config) : Namer :=
  ⟨config.brand, config.category, config.fontFamilies⟩

/-- The config with the keys that name no property taken out of every class. -/
def withoutUnknown (config : Config) : Config :=
  { config with classes := config.classes.map ClassSpec.withoutUnknown }

end Config

end DesignTokens
