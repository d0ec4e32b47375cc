/-!
# Properties

The eight kinds of value that a design system declares, with the rule of each one as data: where it
is declared, how its value is transformed and how its variables are named.
-/

namespace DesignTokens

inductive Property where
  | fontFamily
  | fontWeight
  | fontSize
  | lineHeight
  | letterSpacing
  | textTransform
  | spacing
  | color
deriving DecidableEq

/-- Where a property is declared. -/
inductive Scope where
  /-- At the top of a class, for every breakpoint. -/
  | invariant
  /-- In a class, for each breakpoint apart. -/
  | breakpoint
  /-- In a table of its own, by key. -/
  | flat
deriving DecidableEq

inductive Transform where
  | verbatim
  | pxToRem
deriving DecidableEq

/-- What a variable name is made of after the brand. -/
inductive NamingScheme where
  /-- Category, CSS property and value. -/
  | classScoped
  /-- Category, `font-family` and an alias of the family. -/
  | fontAlias
  /-- A fixed word and the key. -/
  | flat (word : String)
deriving DecidableEq

structure PropertyRule where
  configKey : String
  cssProperty : String
  scope : Scope
  transform : Transform
  naming : NamingScheme
  /-- The unit that names leave out; other units are kept. -/
  nativeUnit : String
deriving DecidableEq

namespace Property

/-- All properties in emission order. -/
def all : List Property :=
  [.fontFamily, .fontWeight, .fontSize, .lineHeight, .letterSpacing, .textTransform, .spacing, .color]

theorem mem_all (p : Property) : p ∈ all := by
  cases p <;> decide

/-- The properties of classes, in emission order. -/
def typography : List Property :=
  [.fontFamily, .fontWeight, .fontSize, .lineHeight, .letterSpacing, .textTransform]

def rule : Property → PropertyRule
  | .fontFamily => ⟨"fontFamily", "font-family", .invariant, .verbatim, .fontAlias, ""⟩
  | .fontWeight => ⟨"fontWeight", "font-weight", .invariant, .verbatim, .classScoped, ""⟩
  | .fontSize => ⟨"fontSize", "font-size", .breakpoint, .pxToRem, .classScoped, "px"⟩
  | .lineHeight => ⟨"lineHeight", "line-height", .breakpoint, .pxToRem, .classScoped, ""⟩
  | .letterSpacing => ⟨"letterSpacing", "letter-spacing", .invariant, .verbatim, .classScoped, "em"⟩
  | .textTransform => ⟨"textTransform", "text-transform", .invariant, .verbatim, .classScoped, ""⟩
  | .spacing => ⟨"spacingMap", "spacing", .flat, .pxToRem, .flat "spacing", ""⟩
  | .color => ⟨"colors", "color", .flat, .verbatim, .flat "color", ""⟩

def configKey (p : Property) : String := p.rule.configKey

def cssProperty (p : Property) : String := p.rule.cssProperty

def scope (p : Property) : Scope := p.rule.scope

def withScope (scope : Scope) : List Property :=
  all.filter (fun p => p.scope = scope)

/-- The class property that a config key names. -/
def ofConfigKey? (key : String) : Option Property :=
  typography.find? (fun p => p.configKey = key)

end Property

end DesignTokens
