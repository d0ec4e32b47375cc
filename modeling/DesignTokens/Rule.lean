import DesignTokens.Variables

/-!
# Rules

A rule says which variables a class takes its properties from at one breakpoint.
-/

namespace DesignTokens

structure Rule where
  className : String
  breakpoint : Breakpoint
  /-- Each property with its variable, in emission order. -/
  bindings : List (Property × Variable)
deriving DecidableEq

/-- A property of a class at a breakpoint, with the name of its variable. -/
structure Binding where
  className : String
  breakpoint : Breakpoint
  property : Property
  variableName : String
deriving DecidableEq

def Rule.named (rule : Rule) : List Binding :=
  rule.bindings.map (fun binding => ⟨rule.className, rule.breakpoint, binding.1, binding.2.name⟩)

/-- A class that the config does not declare. -/
structure UnknownClass where
  name : String
deriving DecidableEq

namespace VariableTable

/-- The variables that count for a class at a breakpoint: those of its invariant properties and of
that breakpoint's own tier. -/
def bindings (table : VariableTable) (className : String) (breakpoint : Breakpoint) :
    List (Property × Variable) :=
  (Slot.forBreakpoint breakpoint).filterMap (fun slot =>
    (table.inSlot? className slot).map (fun v => (slot.property, v)))

/-- The rule of a class; there is none where nothing is declared. -/
def rule? (table : VariableTable) (className : String) (breakpoint : Breakpoint) : Option Rule :=
  match table.bindings className breakpoint with
  | [] => none
  | bindings => some ⟨className, breakpoint, bindings⟩

theorem eq_of_rule? {table : VariableTable} {className : String} {breakpoint : Breakpoint} {rule : Rule}
    (h : table.rule? className breakpoint = some rule) :
    rule = ⟨className, breakpoint, table.bindings className breakpoint⟩ := by
  unfold rule? at h
  split at h
  · cases h
  · exact (Option.some.inj h).symm

end VariableTable

namespace Config

def resolve (config : Config) (table : VariableTable) (className : String) (breakpoint : Breakpoint) :
    Except UnknownClass (Option Rule) :=
  if config.classes.contains className then .ok (table.rule? className breakpoint)
  else .error ⟨className⟩

/-- The rules of all classes at a breakpoint, in the order of their names. -/
def rules (config : Config) (table : VariableTable) (breakpoint : Breakpoint) : List Rule :=
  config.classes.keys.filterMap (fun name => table.rule? name breakpoint)

end Config

end DesignTokens
