import DesignTokens.Config
import DesignTokens.Event

/-!
# Variables

Interning gives each raw value of a class property one CSS variable, whatever classes and
breakpoints declare it, and each key of a flat table one of its own.
-/

namespace DesignTokens

/-- What a variable stands for. -/
inductive Token where
  /-- A raw value of a class property. -/
  | value (property : Property) (raw : String)
  /-- A key of a flat table. -/
  | entry (property : Property) (key : String)
deriving DecidableEq

namespace Token

def property : Token → Property
  | .value p _ => p
  | .entry p _ => p

/-- The text that the name is made from. -/
def text : Token → String
  | .value _ raw => raw
  | .entry _ key => key

end Token

structure Variable where
  property : Property
  /-- The CSS name with its two leading dashes. -/
  name : String
  /-- The declared value. -/
  value : String
  raw : String
deriving DecidableEq

namespace Variable

def reference (v : Variable) : String :=
  "var(" ++ v.name ++ ")"

def transformed (config : Config) (p : Property) (raw : String) : String :=
  match p.rule.transform with
  | .verbatim => raw
  | .pxToRem => Length.pxToRem raw config.baseFontSize

/-- The variable of a token, which depends on no other token of the config. -/
def ofToken (config : Config) (token : Token) (raw : String) : Variable :=
  ⟨token.property, config.namer.name token.property token.text,
    transformed config token.property raw, raw⟩

end Variable

/-- The place of a variable in its table. -/
abbrev VariableId := Nat

/-- The variables of a config in the order of their creation, the token of each one, and what each
class refers to. -/
structure VariableTable where
  entries : Array Variable
  index : List (Token × VariableId)
  classes : SortedMap (List (Slot × VariableId))
deriving DecidableEq

namespace VariableTable

def empty : VariableTable := ⟨#[], [], .empty⟩

/-- The id of a token, which gets a new variable if it has none yet. -/
def intern (config : Config) (token : Token) (raw : String) (table : VariableTable) :
    VariableTable × VariableId :=
  match table.index.lookup token with
  | some id => (table, id)
  | none =>
      ({ table with
          entries := table.entries.push (Variable.ofToken config token raw)
          index := table.index ++ [(token, table.entries.size)] },
        table.entries.size)

def internSlots (config : Config) :
    List (Slot × String) → VariableTable → VariableTable × List (Slot × VariableId)
  | [], table => (table, [])
  | (slot, raw) :: rest, table =>
      let (interned, id) := table.intern config (.value slot.property raw) raw
      let (full, ids) := internSlots config rest interned
      (full, (slot, id) :: ids)

def internClass (config : Config) (table : VariableTable) (name : String) (spec : ClassSpec) :
    VariableTable :=
  let (interned, ids) := internSlots config spec.declared table
  { interned with classes := interned.classes.insert name ids }

/-- Gives every key of a flat table its variable. -/
def internFlat (config : Config) (p : Property) (values : SortedMap String) (table : VariableTable) :
    VariableTable :=
  values.entries.foldl (fun t entry => (t.intern config (.entry p entry.1) entry.2).1) table

/-- The table of a config: classes by name, then spacings, then colors. -/
def ofConfig (config : Config) : VariableTable :=
  let ofClasses :=
    config.classes.entries.foldl (fun t entry => t.internClass config entry.1 entry.2) empty
  internFlat config .color config.colors (internFlat config .spacing config.spacing ofClasses)

def size (table : VariableTable) : Nat := table.entries.size

def entry? (table : VariableTable) (id : VariableId) : Option Variable := table.entries[id]?

def find? (table : VariableTable) (token : Token) : Option Variable :=
  (table.index.lookup token).bind table.entry?

/-- The variable in a slot of a class. -/
def inSlot? (table : VariableTable) (className : String) (slot : Slot) : Option Variable := do
  let ids ← table.classes.get? className
  let id ← ids.lookup slot
  table.entry? id

/-- The variables of a property in the order of their creation. -/
def ofProperty (table : VariableTable) (p : Property) : List Variable :=
  table.entries.toList.filter (fun v => v.property = p)

/-- All variables, properties in emission order. -/
def byProperty (table : VariableTable) : List Variable :=
  Property.all.flatMap table.ofProperty

/-- Declared values by name; of two variables with one name the later one counts. -/
def valuesByName (table : VariableTable) : SortedMap String :=
  SortedMap.ofList (table.entries.toList.map (fun v => (v.name, v.value)))

end VariableTable

/-- A class key that names no property. -/
structure UnknownKey where
  className : String
  key : String
deriving DecidableEq

namespace UnknownKey

def warning (unknown : UnknownKey) : Event :=
  ⟨.warn, "skipping unrecognized property",
    [("class", unknown.className), ("property", unknown.key)]⟩

end UnknownKey

namespace Config

/-- The unknown keys of all classes, in order. -/
def unknownKeys (config : Config) : List UnknownKey :=
  config.classes.entries.flatMap (fun entry => entry.2.unknownKeys.map (UnknownKey.mk entry.1))

/-- The warnings that a policy on unknown keys gives rise to. -/
def unknownKeyWarnings (config : Config) (policy : UnknownKeyPolicy) : List Event :=
  if policy = .warn then config.unknownKeys.map UnknownKey.warning else []

/-- The variable table, unless the policy refuses an unknown key; then the first one is told. -/
def intern (config : Config) (policy : UnknownKeyPolicy) : Except UnknownKey VariableTable :=
  match policy, config.unknownKeys with
  | .fail, unknown :: _ => .error unknown
  | _, _ => .ok (VariableTable.ofConfig config)

end Config

end DesignTokens
