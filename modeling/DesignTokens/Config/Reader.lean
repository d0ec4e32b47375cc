import DesignTokens.Config
import DesignTokens.Record

/-!
# Reading configs
-/

namespace DesignTokens

namespace Tier

def schema : Schema Tier where
  blank := empty
  fields := [
    Field.of "fontSize" (Reading.optional Reading.raw) (fun v t => { t with fontSize := v }),
    Field.of "lineHeight" (Reading.optional Reading.raw) (fun v t => { t with lineHeight := v })]
  other := fun key document t => { t with unknown := t.unknown.insert key document.sorted }

end Tier

namespace ClassSpec

def schema : Schema ClassSpec where
  blank := empty
  fields := [
    Field.of "fontFamily" (Reading.optional Reading.raw) (fun v c => { c with fontFamily := v }),
    Field.of "fontWeight" (Reading.optional Reading.raw) (fun v c => { c with fontWeight := v }),
    Field.of "letterSpacing" (Reading.optional Reading.raw) (fun v c => { c with letterSpacing := v }),
    Field.of "textTransform" (Reading.optional Reading.raw) (fun v c => { c with textTransform := v }),
    Field.of "mobile" (Reading.optional Tier.schema.readAsTable) (fun v c => { c with mobile := v }),
    Field.of "desktop" (Reading.optional Tier.schema.readAsTable) (fun v c => { c with desktop := v })]
  other := fun key document c => { c with unknown := c.unknown.insert key document.sorted }

/-- The levels around a class: the table of classes and the whole. -/
def outerLevels : Nat := 2

/-- All of a class is kept, also what its unknown keys hold. -/
def read (format : Format) : Reading ClassSpec := fun document =>
  if format.isKeepable outerLevels document then schema.readAsTable document
  else .error .misfit

end ClassSpec

def Widths.schema : Schema Widths :=
  .closed ⟨"", ""⟩ [
    (Field.of "mobile" Reading.raw (fun v w => { w with mobile := v })).required,
    (Field.of "desktop" Reading.raw (fun v w => { w with desktop := v })).required]

namespace BuildOptions

def schema (format : Format) : Schema BuildOptions :=
  .closed default [
    Field.of "snapshotPath" (Reading.optional Reading.text) (fun v b => { b with snapshotPath := v }),
    Field.of "onFirstRun"
      (Reading.choice format [("markAll", .markAll), ("markNone", .markNone)])
      (fun v b => { b with onFirstRun := v }),
    Field.of "onRemovedClass"
      (Reading.choice format [("ignore", .ignore), ("flag", .flag)])
      (fun v b => { b with onRemovedClass := v }),
    Field.of "unknownProperties"
      (Reading.choice format [("ignore", .ignore), ("warn", .warn), ("error", .fail)])
      (fun v b => { b with unknownKeys := v }),
    Field.of "minify" Reading.flag (fun v b => { b with minify := v })]

end BuildOptions

/-- Why a text is no config. -/
inductive ConfigError where
  /-- The text breaks the rules of its format. -/
  | malformed
  | shape (error : ShapeError)
  | fault (fault : ConfigFault)

namespace Config

/-- The config that states nothing; its required fields are filled while reading. -/
def blank : Config where
  brand := "tf"
  category := "typo"
  baseFontSize := 16
  breakpoints := ⟨"", ""⟩
  classes := .empty
  fontFamilies := .empty
  spacing := .empty
  colors := .empty
  build := .default

def schema (format : Format) : Schema Config :=
  .closed blank [
    Field.of "prefix" Reading.text (fun v c => { c with brand := v }),
    Field.of "category" Reading.text (fun v c => { c with category := v }),
    Field.of "baseFontSize" Reading.number (fun v c => { c with baseFontSize := v }),
    (Field.of "breakpoints" (Widths.schema.read format) (fun v c => { c with breakpoints := v })).required,
    (Field.of "classes" (Reading.map (ClassSpec.read format)) (fun v c => { c with classes := v })).required,
    Field.of "fontFamilyMap" (Reading.map Reading.raw) (fun v c => { c with fontFamilies := v }),
    Field.of "spacingMap" (Reading.map Reading.raw) (fun v c => { c with spacing := v }),
    Field.of "colors" (Reading.map Reading.raw) (fun v c => { c with colors := v }),
    Field.of "build" ((BuildOptions.schema format).read format) (fun v c => { c with build := v })]

/-- The config that a document states, before it is validated. -/
def ofDocument (format : Format) : Reading Config :=
  (schema format).read format

/-- Reads and validates a config. A document of the wrong shape is malformed text if some part of it
stands for no value. -/
def parse (format : Format) (text : String) : Except ConfigError Config :=
  match format.read? text with
  | none => .error .malformed
  | some document =>
      match ofDocument format document with
      | .error e => .error (if format.isValue document then .shape e else .malformed)
      | .ok config =>
          match config.validate with
          | .error fault => .error (.fault fault)
          | .ok () => .ok config

end Config

end DesignTokens
