import DesignTokens.Proofs.StylesheetMeaning

/-!
# Resolution of classes

What a class resolves to at a breakpoint is told by its invariant properties and its tier for that
breakpoint. Its variables stand in a table that all classes fill together, at places that depend on every
one of them; but a name is made from the raw value alone, so nothing of the others shows in a binding.
-/

namespace DesignTokens

/-! ## What counts at a breakpoint -/

/-- The classes declare the same values for invariant properties and in the tier of a breakpoint. -/
structure ClassSpec.AgreesAt (spec other : ClassSpec) (b : Breakpoint) : Prop where
  invariant : ∀ slot : Slot, slot.breakpoint? = none → spec.value? slot = other.value? slot
  tier : ∀ slot : Slot, slot.breakpoint? = some b → spec.value? slot = other.value? slot

theorem ClassSpec.AgreesAt.declaredAt_eq {spec other : ClassSpec} {b : Breakpoint} (h : spec.AgreesAt other b) :
    spec.declaredAt b = other.declaredAt b := by
  have hslots : ∀ slot ∈ Slot.forBreakpoint b, spec.value? slot = other.value? slot := by
    intro slot hslot
    obtain ⟨p, -, hat⟩ := List.mem_filterMap.1 hslot
    cases p <;> cases hat
    case fontSize | lineHeight => exact h.tier _ rfl
    all_goals exact h.invariant _ rfl
  rw [declaredAt_eq_slots, declaredAt_eq_slots]
  apply List.filterMap_congr
  intro slot hslot
  rw [hslots slot hslot]

/-- The bindings of a class, made from what it declares. -/
def ClassSpec.bindingsAt (spec : ClassSpec) (n : Namer) (name : String) (b : Breakpoint) : List Binding :=
  (spec.declaredAt b).map (fun declared => ⟨name, b, declared.1, n.name declared.1 declared.2⟩)

namespace Config

/-! ## One class -/

variable {config : Config} {name : String} {spec : ClassSpec} {b : Breakpoint}

theorem resolve_eq_error_iff {table : VariableTable} {e : UnknownClass} :
    config.resolve table name b = .error e ↔ config.classes.get? name = none ∧ e = ⟨name⟩ := by
  unfold Config.resolve SortedMap.contains
  cases config.classes.get? name with
  | none => simp [eq_comm]
  | some spec => simp

theorem resolve_eq_ok_iff {table : VariableTable} {rule? : Option Rule} :
    config.resolve table name b = .ok rule? ↔
      (∃ spec, config.classes.get? name = some spec) ∧ table.rule? name b = rule? := by
  unfold Config.resolve SortedMap.contains
  cases config.classes.get? name with
  | none => simp
  | some spec => simp

theorem declaredAt_of_get? (h : config.classes.get? name = some spec) :
    config.declaredAt name b = spec.declaredAt b := by
  rw [declaredAt, h]

/-- The rule of a declared class binds what the class declares, and nothing else. -/
theorem map_named_rule? (h : config.classes.get? name = some spec) :
    ((VariableTable.ofConfig config).rule? name b).map Rule.named =
      if spec.declaredAt b = [] then none else some (spec.bindingsAt config.namer name b) := by
  rw [← declaredAt_of_get? h]
  split
  · rename_i hnone
    rw [rule?_eq_none hnone, Option.map_none]
  · rename_i hsome
    rw [rule?_eq_some hsome, Option.map_some, Rule.named, ClassSpec.bindingsAt,
      ← declaredAt_of_get? h, List.map_map]
    rfl

theorem map_named_resolve {policy : UnknownKeyPolicy} {table : VariableTable}
    (htable : config.intern policy = .ok table) (h : config.classes.get? name = some spec) :
    (config.resolve table name b).map (Option.map Rule.named) =
      .ok (if spec.declaredAt b = [] then none else some (spec.bindingsAt config.namer name b)) := by
  rw [resolve_eq_ok_iff.2 ⟨⟨spec, h⟩, rfl⟩, eq_ofConfig_of_intern htable, Except.map, map_named_rule? h]

/-! ## All classes -/

theorem mem_rules_iff {table : VariableTable} {rule : Rule} :
    rule ∈ config.rules table b ↔ ∃ name, config.resolve table name b = .ok (some rule) := by
  simp only [rules, List.mem_filterMap, resolve_eq_ok_iff, SortedMap.mem_keys]

theorem pairwise_rules (config : Config) (table : VariableTable) (b : Breakpoint) :
    (config.rules table b).Pairwise (fun first second => first.className < second.className) := by
  have hkeys : config.classes.keys.Pairwise (· < ·) := List.pairwise_map.2 config.classes.ascending
  refine hkeys.filterMap _ ?_
  intro name other hlt first hfirst second hsecond
  rwa [className_of_rule? hfirst, className_of_rule? hsecond]

/-- What the classes of a config resolve to at a breakpoint. -/
structure ResolvesAt (config : Config) (table : VariableTable) (b : Breakpoint) : Prop where
  undeclared : ∀ name e,
    config.resolve table name b = .error e ↔ config.classes.get? name = none ∧ e = ⟨name⟩
  declared : ∀ name spec, config.classes.get? name = some spec →
    (config.resolve table name b).map (Option.map Rule.named) =
      .ok (if spec.declaredAt b = [] then none else some (spec.bindingsAt config.namer name b))
  /-- Nothing else in a config shows in what a class resolves to. -/
  isolated : ∀ (other : Config) policy otherTable, other.intern policy = .ok otherTable →
    config.brand = other.brand → config.category = other.category → config.fontFamilies = other.fontFamilies →
    ∀ name spec otherSpec, config.classes.get? name = some spec → other.classes.get? name = some otherSpec →
      spec.AgreesAt otherSpec b →
      (config.resolve table name b).map (Option.map Rule.named) =
        (other.resolve otherTable name b).map (Option.map Rule.named)
  /-- The rules of a breakpoint are those of the single classes, by class name. -/
  rules : ∀ rule, rule ∈ config.rules table b ↔ ∃ name, config.resolve table name b = .ok (some rule)
  named : ∀ name rule, config.resolve table name b = .ok (some rule) →
    rule.className = name ∧ rule.breakpoint = b
  ordered : (config.rules table b).Pairwise (fun first second => first.className < second.className)

theorem resolution_isolated {config : Config} {policy : UnknownKeyPolicy} {table : VariableTable}
    (htable : config.intern policy = .ok table) (b : Breakpoint) : config.ResolvesAt table b := by
  have htold : ∀ name spec, config.classes.get? name = some spec →
      (config.resolve table name b).map (Option.map Rule.named) =
        .ok (if spec.declaredAt b = [] then none else some (spec.bindingsAt config.namer name b)) :=
    fun _ _ => map_named_resolve htable
  exact {
    undeclared := fun _ _ => resolve_eq_error_iff
    declared := htold
    isolated := by
      intro other policy otherTable hother hbrand hcategory hfamilies name spec otherSpec hspec hotherSpec hagree
      have hnamer : config.namer = other.namer := by
        rw [namer, namer, hbrand, hcategory, hfamilies]
      rw [htold name spec hspec, map_named_resolve hother hotherSpec, ClassSpec.bindingsAt,
        ClassSpec.bindingsAt, hagree.declaredAt_eq, hnamer]
    rules := fun _ => mem_rules_iff
    named := by
      intro name rule h
      rw [VariableTable.eq_of_rule? (resolve_eq_ok_iff.1 h).2]
      exact ⟨rfl, rfl⟩
    ordered := config.pairwise_rules table b }

/-- A card, which takes a desktop tier. -/
def card (desktop : Option Tier) : ClassSpec :=
  { ClassSpec.empty with
    fontWeight := some "700"
    mobile := some ⟨some "16px", none, .empty⟩
    desktop := desktop }

def loneCard : Config where
  brand := "tf"
  category := "typo"
  baseFontSize := 16
  breakpoints := ⟨"375px", "1024px"⟩
  classes := .ofList [("card", card none)]
  fontFamilies := .ofList [("sans", "Inter, sans-serif")]
  spacing := .empty
  colors := .empty
  build := .default

/-- Other classes and a flat table come before the card's variables and after them. -/
def sharedCard : Config :=
  { loneCard with
    baseFontSize := 10
    breakpoints := ⟨"20em", "60em"⟩
    classes := .ofList [
      ("body", { ClassSpec.empty with fontWeight := some "400" }),
      ("card", card (some ⟨some "24px", some "1.5", .empty⟩)),
      ("note", { ClassSpec.empty with fontWeight := some "700" })]
    spacing := .ofList [("sm", "8px")] }

theorem resolution_isolated_card :
    loneCard.intern .ignore = .ok (.ofConfig loneCard) ∧ sharedCard.intern .ignore = .ok (.ofConfig sharedCard) ∧
      (card none).AgreesAt (card (some ⟨some "24px", some "1.5", .empty⟩)) .mobile ∧
      (loneCard.resolve (.ofConfig loneCard) "card" .mobile).map (Option.map Rule.named) =
        (sharedCard.resolve (.ofConfig sharedCard) "card" .mobile).map (Option.map Rule.named) := by
  have hlone : loneCard.intern .ignore = .ok (.ofConfig loneCard) := rfl
  have hshared : sharedCard.intern .ignore = .ok (.ofConfig sharedCard) := rfl
  have hagree : (card none).AgreesAt (card (some ⟨some "24px", some "1.5", .empty⟩)) .mobile := by
    constructor <;> intro slot hslot <;> cases slot <;> cases hslot <;> rfl
  exact ⟨hlone, hshared, hagree, (resolution_isolated hlone .mobile).isolated sharedCard .ignore _ hshared
    rfl rfl rfl "card" _ _ rfl rfl hagree⟩

end Config

end DesignTokens
