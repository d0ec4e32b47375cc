import DesignTokens.Proofs.Interning
import DesignTokens.Proofs.Validation
import Mathlib.Data.List.Forall2
import Mathlib.Data.List.Nodup

/-!
# What a stylesheet means

Every class comes out as one rule at each breakpoint where it declares something, and every key of a
flat table as one rule of each utility. All of them refer to variables that are declared once on
`:root`, with the values that the config gives, and no other variable is declared.
-/

namespace DesignTokens

/-! ## What is declared -/

/-- What a class declares at a breakpoint, in emission order: its invariant properties, and the others
in that breakpoint's tier only. -/
def ClassSpec.declaredAt (spec : ClassSpec) (b : Breakpoint) : List (Property × String) :=
  [(Property.fontFamily, spec.fontFamily), (.fontWeight, spec.fontWeight),
    (.fontSize, (spec.tier? b).bind (·.fontSize)), (.lineHeight, (spec.tier? b).bind (·.lineHeight)),
    (.letterSpacing, spec.letterSpacing), (.textTransform, spec.textTransform)].filterMap
    (fun entry => entry.2.map (fun raw => (entry.1, raw)))

def Config.declaredAt (config : Config) (name : String) (b : Breakpoint) : List (Property × String) :=
  match config.classes.get? name with
  | some spec => spec.declaredAt b
  | none => []

/-- One utility over one key of a flat table. -/
structure UtilityUse where
  utility : Utility
  property : Property
  key : String
  raw : String

def UtilityUse.all (utilities : List Utility) (p : Property) (values : SortedMap String) :
    List UtilityUse :=
  utilities.flatMap (fun utility => values.entries.map (fun entry => ⟨utility, p, entry.1, entry.2⟩))

def Config.utilityUses (config : Config) : List UtilityUse :=
  UtilityUse.all Utility.spacing .spacing config.spacing ++
    UtilityUse.all Utility.color .color config.colors

/-- The mark of utility classes that count at a breakpoint. -/
def Breakpoint.mark : Breakpoint → Option Breakpoint
  | .mobile => none
  | .desktop => some .desktop

namespace Stylesheet

/-- All that is declared on `:root`. -/
def rootDeclarations (sheet : Stylesheet) : List Declaration :=
  ((sheet.base ++ sheet.wide).filter (fun rule => rule.selector = .root)).flatMap (·.declarations)

/-- The variable is declared once, with this value. -/
def Declares (sheet : Stylesheet) (name value : String) : Prop :=
  sheet.rootDeclarations.filter (fun d => d.property = name) = [⟨name, value⟩]

/-- Some rule for a class refers to the variable. -/
def References (sheet : Stylesheet) (name : String) : Prop :=
  ∃ rule ∈ sheet.base ++ sheet.wide, rule.selector ≠ .root ∧
    ∃ d ∈ rule.declarations, d.value = "var(" ++ name ++ ")"

/-- A reference to the variable named after the text, which holds the transformed raw value. -/
def Refers (config : Config) (sheet : Stylesheet) (p : Property) (text raw reference : String) : Prop :=
  ∃ n, config.namer.name p text = "--" ++ n ∧ reference = "var(--" ++ n ++ ")" ∧
    sheet.Declares ("--" ++ n) (Variable.transformed config p raw)

/-- A sheet with its rules for classes and for utilities at each breakpoint. -/
structure Faithful (config : Config) (sheet : Stylesheet)
    (typography utilities : Breakpoint → List StyleRule) : Prop where
  base : ∃ root container,
    sheet.base = root ++ typography .mobile ++ utilities .mobile ++ [container]
  wide : ∃ container, sheet.wide = typography .desktop ++ utilities .desktop ++ [container]
  classes : ∀ b, ∀ rule ∈ typography b, ∃ name, rule.selector = .className name
  absent : ∀ name b, config.declaredAt name b = [] →
    (typography b).filter (fun rule => rule.selector = .className name) = []
  present : ∀ name b, config.declaredAt name b ≠ [] →
    ∃ rule, (typography b).filter (fun rule => rule.selector = .className name) = [rule] ∧
      List.Forall₂ (fun d declared => d.property = declared.1.cssProperty ∧
        Refers config sheet declared.1 declared.2 declared.2 d.value)
        rule.declarations (config.declaredAt name b)
  utilities : ∀ b, List.Forall₂ (fun rule use =>
      rule.selector = .className (use.utility.className config.brand b.mark use.key) ∧
        ∃ reference, Refers config sheet use.property use.key use.raw reference ∧
          rule.declarations = use.utility.properties.map (fun css => ⟨css, reference⟩))
      (utilities b) config.utilityUses
  /-- The variables that are declared are those that are referred to. -/
  closed : ∀ name, (∃ value, ⟨name, value⟩ ∈ sheet.rootDeclarations) ↔ sheet.References name

end Stylesheet

/-! ## Variables on the root -/

theorem filter_eq_singleton {α β : Type} [DecidableEq β] {items : List α} {f : α → β}
    (h : (items.map f).Nodup) {a : α} (hmem : a ∈ items) : items.filter (fun x => f x = f a) = [a] := by
  induction items with
  | nil => cases hmem
  | cons first rest ih =>
      obtain ⟨hfirst, hrest⟩ := List.nodup_cons.1 h
      rcases List.mem_cons.1 hmem with rfl | hlater
      · have hnone : rest.filter (fun x => f x = f a) = [] := by
          rw [List.filter_eq_nil_iff]
          intro x hx heq
          exact hfirst (of_decide_eq_true heq ▸ List.mem_map_of_mem hx)
        rw [List.filter_cons_of_pos (by simp), hnone]
      · have hne : f first ≠ f a := fun heq => hfirst (heq ▸ List.mem_map_of_mem hlater)
        rw [List.filter_cons_of_neg (by simpa using hne), ih hrest hlater]

namespace VariableTable

variable {table : VariableTable}

theorem mem_byProperty {v : Variable} : v ∈ table.byProperty ↔ v ∈ table.entries.toList := by
  simp [byProperty, ofProperty, Property.mem_all]

/-- Sorting by property keeps names distinct. -/
theorem HasDistinctNames.byProperty (h : table.HasDistinctNames) :
    (table.byProperty.map (·.name)).Nodup := by
  rw [VariableTable.byProperty, List.map_flatMap, List.Nodup, List.pairwise_flatMap]
  constructor
  · intro p _
    exact h.sublist (List.filter_sublist.map _)
  · have hall : Property.all.Nodup := by decide
    refine hall.imp ?_
    intro p q hne x hx y hy heq
    obtain ⟨v, hv, hvname⟩ := List.mem_map.1 hx
    obtain ⟨w, hw, hwname⟩ := List.mem_map.1 hy
    obtain ⟨hv, hvproperty⟩ := List.mem_filter.1 hv
    obtain ⟨hw, hwproperty⟩ := List.mem_filter.1 hw
    have hsame : v = w := List.inj_on_of_nodup_map h hv hw (by rw [hvname, hwname, heq])
    apply hne
    rw [← of_decide_eq_true hvproperty, ← of_decide_eq_true hwproperty, hsame]

end VariableTable

namespace Stylesheet

theorem exists_className_of_mem_typography {config : Config} {table : VariableTable} {b : Breakpoint}
    {rule : StyleRule} (h : rule ∈ typography config table b) :
    ∃ name, rule.selector = .className name := by
  obtain ⟨found, -, rfl⟩ := List.mem_map.1 h
  exact ⟨found.className, rfl⟩

theorem mem_utilityRules {utilities : List Utility} {brand : String} {mark : Option Breakpoint}
    {entries : List (String × Variable)} {rule : StyleRule} :
    rule ∈ Utility.rules utilities brand mark entries ↔
      ∃ utility ∈ utilities, ∃ entry ∈ entries, utility.rule brand mark entry.1 entry.2 = rule := by
  simp only [Utility.rules, List.mem_flatMap, List.mem_map]

theorem exists_className_of_mem_utilities {config : Config} {table : VariableTable}
    {mark : Option Breakpoint} {rule : StyleRule} (h : rule ∈ utilities config table mark) :
    ∃ name, rule.selector = .className name := by
  rcases List.mem_append.1 h with h | h
  · obtain ⟨utility, -, entry, -, rfl⟩ := mem_utilityRules.1 h
    exact ⟨_, rfl⟩
  · obtain ⟨utility, -, entry, -, rfl⟩ := mem_utilityRules.1 h
    exact ⟨_, rfl⟩

theorem filter_root_eq_nil {rules : List StyleRule}
    (h : ∀ rule ∈ rules, ∃ name, rule.selector = .className name) :
    rules.filter (fun rule => rule.selector = .root) = [] := by
  rw [List.filter_eq_nil_iff]
  intro rule hmem
  obtain ⟨name, hname⟩ := h rule hmem
  simp [hname]

theorem rootDeclarations_ofConfig (config : Config) (table : VariableTable) :
    (ofConfig config table).rootDeclarations = table.byProperty.map (fun v => ⟨v.name, v.value⟩) := by
  have htypography : ∀ b, (typography config table b).filter (fun rule => rule.selector = .root) = [] :=
    fun b => filter_root_eq_nil (fun _ h => exists_className_of_mem_typography h)
  have hutilities : ∀ mark,
      (utilities config table mark).filter (fun rule => rule.selector = .root) = [] :=
    fun mark => filter_root_eq_nil (fun _ h => exists_className_of_mem_utilities h)
  simp only [rootDeclarations, ofConfig, List.filter_append, htypography, hutilities, List.append_nil,
    rootRules, container]
  cases table.byProperty with
  | nil => simp
  | cons first rest => simp

/-- A variable of the table is declared once. -/
theorem declares_of_mem {table : VariableTable} (h : table.HasDistinctNames) (config : Config)
    {v : Variable} (hmem : v ∈ table.entries.toList) :
    (ofConfig config table).Declares v.name v.value := by
  have hfilter := filter_eq_singleton h.byProperty (VariableTable.mem_byProperty.2 hmem)
  unfold Declares
  rw [rootDeclarations_ofConfig, List.filter_map]
  show (table.byProperty.filter (fun w => w.name = v.name)).map _ = _
  rw [hfilter]
  rfl

end Stylesheet

theorem Namer.exists_name_eq (n : Namer) (p : Property) (text : String) :
    ∃ rest, n.name p text = "--" ++ rest := by
  unfold Namer.name
  split
  · exact ⟨n.brand ++ ("-" ++ (n.category ++ ("-" ++ (p.cssProperty ++ ("-" ++ Fragment.ofValue p text))))),
      by simp only [String.append_assoc]⟩
  · exact ⟨n.brand ++ ("-" ++ (n.category ++ ("-font-family-" ++ n.fontFragment text))),
      by simp only [String.append_assoc]⟩
  · rename_i word _
    exact ⟨n.brand ++ ("-" ++ (word ++ ("-" ++ Fragment.ofKey text))),
      by simp only [String.append_assoc]⟩

/-- A requested variable is referred to by its own name. -/
theorem refers_of_mem_requests {config : Config}
    (hnames : (VariableTable.ofConfig config).HasDistinctNames) {request : Request}
    (h : request ∈ config.requests) :
    Stylesheet.Refers config (Stylesheet.ofConfig config (.ofConfig config)) request.1.property
      request.1.text request.2 (Request.variable config request).reference := by
  have hmem : Request.variable config request ∈ (VariableTable.ofConfig config).entries.toList := by
    rw [Interning.entries_ofConfig]
    exact List.mem_map_of_mem (Interning.mem_distinct.2 h)
  have hdeclares := Stylesheet.declares_of_mem hnames config hmem
  obtain ⟨n, hn⟩ := config.namer.exists_name_eq request.1.property request.1.text
  have hname : (Request.variable config request).name = "--" ++ n := hn
  refine ⟨n, hn, ?_, ?_⟩
  · rw [Variable.reference, hname, ← String.append_assoc]
    rfl
  · rw [hname] at hdeclares
    exact hdeclares

/-! ## Rules for classes -/

theorem ClassSpec.declaredAt_eq_slots (spec : ClassSpec) (b : Breakpoint) :
    spec.declaredAt b = (Slot.forBreakpoint b).filterMap (fun slot =>
      (spec.value? slot).map (fun raw => (slot.property, raw))) := by
  cases b <;> rfl

section

variable (config : Config) (name : String) (b : Breakpoint)

theorem bindings_ofConfig :
    (VariableTable.ofConfig config).bindings name b = (config.declaredAt name b).map (fun declared =>
      (declared.1, Request.variable config (.value declared.1 declared.2, declared.2))) := by
  unfold Config.declaredAt
  cases hspec : config.classes.get? name with
  | none => simp [VariableTable.bindings, Interning.inSlot?_ofConfig, hspec]
  | some spec =>
      simp only [VariableTable.bindings, Interning.inSlot?_ofConfig, hspec, Option.bind_some,
        ClassSpec.declaredAt_eq_slots, List.map_filterMap, Option.map_map]
      rfl

variable {config name b}

theorem rule?_eq_none (h : config.declaredAt name b = []) :
    (VariableTable.ofConfig config).rule? name b = none := by
  have hbindings := bindings_ofConfig config name b
  rw [h, List.map_nil] at hbindings
  simp only [VariableTable.rule?, hbindings]

theorem rule?_eq_some (h : config.declaredAt name b ≠ []) :
    (VariableTable.ofConfig config).rule? name b =
      some ⟨name, b, (config.declaredAt name b).map (fun declared =>
        (declared.1, Request.variable config (.value declared.1 declared.2, declared.2)))⟩ := by
  rw [← bindings_ofConfig]
  unfold VariableTable.rule?
  cases hbindings : (VariableTable.ofConfig config).bindings name b with
  | nil =>
      rw [bindings_ofConfig, List.map_eq_nil_iff] at hbindings
      exact absurd hbindings h
  | cons first rest => rfl

theorem className_of_rule? {table : VariableTable} {rule : Rule} (h : table.rule? name b = some rule) :
    rule.className = name := by
  rw [VariableTable.eq_of_rule? h]

end

theorem filter_filterMap_className {names : List String} (hnodup : names.Nodup)
    {f : String → Option Rule} (hf : ∀ name rule, f name = some rule → rule.className = name)
    (name : String) :
    (names.filterMap f).filter (fun rule => rule.className = name) =
      if name ∈ names then (f name).toList else [] := by
  induction names with
  | nil => rfl
  | cons first rest ih =>
      obtain ⟨hfirst, hrest⟩ := List.nodup_cons.1 hnodup
      have hih := ih hrest
      by_cases heq : name = first
      · subst heq
        rw [if_neg hfirst] at hih
        rw [if_pos List.mem_cons_self]
        cases hrule : f name with
        | none => rw [List.filterMap_cons_none hrule, hih]; rfl
        | some rule =>
            rw [List.filterMap_cons_some hrule, List.filter_cons_of_pos (by simp [hf name rule hrule]),
              hih]
            rfl
      · simp only [List.mem_cons, heq, false_or]
        cases hrule : f first with
        | none => rw [List.filterMap_cons_none hrule, hih]
        | some rule =>
            have hname := hf first rule hrule
            rw [List.filterMap_cons_some hrule,
              List.filter_cons_of_neg (by simpa [hname] using fun h => heq h.symm), hih]

namespace Stylesheet

/-- The rules for one class. -/
theorem filter_typography (config : Config) (name : String) (b : Breakpoint) :
    (typography config (.ofConfig config) b).filter (fun rule => rule.selector = .className name) =
      (((VariableTable.ofConfig config).rule? name b).toList).map typographyRule := by
  have hselector : ∀ rule : Rule,
      decide ((typographyRule rule).selector = .className name) = decide (rule.className = name) := by
    intro rule
    simp [typographyRule]
  have hname : ∀ other rule, (VariableTable.ofConfig config).rule? other b = some rule →
      rule.className = other := fun _ _ h => className_of_rule? h
  have hrules := filter_filterMap_className config.classes.nodup_keys hname name
  rw [typography, List.filter_map]
  simp only [Function.comp_def, hselector]
  rw [Config.rules, hrules]
  split
  · rfl
  · rename_i habsent
    have hnone : config.declaredAt name b = [] := by
      rw [Config.declaredAt, SortedMap.get?_eq_none_iff.2 habsent]
    rw [rule?_eq_none hnone]
    rfl

/-- The rule for a class at a breakpoint where it declares something. -/
def ruleFor (config : Config) (name : String) (b : Breakpoint) : StyleRule :=
  ⟨.className name, (config.declaredAt name b).map (fun declared =>
    ⟨declared.1.cssProperty,
      (Request.variable config (.value declared.1 declared.2, declared.2)).reference⟩)⟩

theorem filter_typography_eq_singleton {config : Config} {name : String} {b : Breakpoint}
    (h : config.declaredAt name b ≠ []) :
    (typography config (.ofConfig config) b).filter (fun rule => rule.selector = .className name) =
      [ruleFor config name b] := by
  rw [filter_typography, rule?_eq_some h]
  simp [typographyRule, ruleFor]

end Stylesheet

theorem mem_requests_of_mem_declaredAt {config : Config} {name raw : String} {b : Breakpoint}
    {p : Property} (h : (p, raw) ∈ config.declaredAt name b) :
    ((.value p raw, raw) : Request) ∈ config.requests := by
  unfold Config.declaredAt at h
  cases hspec : config.classes.get? name with
  | none =>
      rw [hspec] at h
      cases h
  | some spec =>
      simp only [hspec, ClassSpec.declaredAt_eq_slots, List.mem_filterMap, Option.map_eq_some_iff,
        Prod.mk.injEq] at h
      obtain ⟨slot, -, value, hvalue, rfl, rfl⟩ := h
      exact Interning.mem_requests.2 (.inl ⟨name, spec, slot, value, hspec, hvalue, rfl⟩)

/-! ## Utilities -/

/-- The variable that a use of a utility asks for. -/
def UtilityUse.request (use : UtilityUse) : Request :=
  (.entry use.property use.key, use.raw)

theorem UtilityUse.mem_all {utilities : List Utility} {p : Property} {values : SortedMap String}
    {utility : Utility} {key raw : String} (h : utility ∈ utilities) (hkey : values.get? key = some raw) :
    ⟨utility, p, key, raw⟩ ∈ UtilityUse.all utilities p values :=
  List.mem_flatMap.2 ⟨utility, h, List.mem_map.2 ⟨(key, raw), SortedMap.get?_eq_some_iff.1 hkey, rfl⟩⟩

theorem mem_requests_of_mem_utilityUses {config : Config} {use : UtilityUse}
    (h : use ∈ config.utilityUses) : use.request ∈ config.requests := by
  have hall : ∀ {utilities : List Utility} {p : Property} {values : SortedMap String},
      use ∈ UtilityUse.all utilities p values → use.request ∈ values.requests p := by
    intro utilities p values hmem
    obtain ⟨utility, -, huse⟩ := List.mem_flatMap.1 hmem
    obtain ⟨entry, hentry, rfl⟩ := List.mem_map.1 huse
    exact List.mem_map_of_mem hentry
  rcases List.mem_append.1 h with hspacing | hcolor
  · exact Interning.mem_requests_of_spacing (hall hspacing)
  · exact Interning.mem_requests_of_colors (hall hcolor)

theorem Stylesheet.utilities_eq_map (config : Config) (mark : Option Breakpoint) :
    utilities config (.ofConfig config) mark = config.utilityUses.map (fun use =>
      use.utility.rule config.brand mark use.key (Request.variable config use.request)) := by
  have hspacing := Interning.flat_ofConfig
    (fun request (h : request ∈ config.spacing.requests .spacing) => Interning.mem_requests_of_spacing h)
  have hcolors := Interning.flat_ofConfig
    (fun request (h : request ∈ config.colors.requests .color) => Interning.mem_requests_of_colors h)
  simp only [utilities, Utility.rules, hspacing, hcolors, Config.utilityUses, UtilityUse.all,
    List.map_append, List.map_flatMap, List.map_map]
  rfl

/-! ## References -/

theorem Breakpoint.exists_iff {P : Breakpoint → Prop} : (∃ b, P b) ↔ P .mobile ∨ P .desktop := by
  constructor
  · intro ⟨b, hb⟩
    cases b with
    | mobile => exact .inl hb
    | desktop => exact .inr hb
  · intro h
    rcases h with h | h
    · exact ⟨.mobile, h⟩
    · exact ⟨.desktop, h⟩

namespace Stylesheet

/-- No numeric text begins with a letter. -/
theorem parse?_eq_none_of_head {text : String} (h : text.toList.head? = some 'v') :
    NumericText.parse? text = none := by
  obtain ⟨rest, htext⟩ := List.head?_eq_some_iff.1 h
  have hstart : Text.trimStart text.toList = text.toList := by
    rw [htext]
    exact List.dropWhile_cons_of_neg (by decide)
  have hend : ∃ kept, Text.trimEnd text.toList = 'v' :: kept := by
    rw [htext, Text.trimEnd, List.reverse_cons, List.dropWhile_append]
    split
    · exact ⟨[], by decide⟩
    · exact ⟨(rest.reverse.dropWhile Text.isBlank).reverse, by simp⟩
  obtain ⟨kept, hkept⟩ := hend
  have hmagnitude : (NumericText.pieces (Text.trim text.toList)).2.1 = [] := by
    rw [Text.trim, hstart, hkept]
    rfl
  simp only [NumericText.parse?, hmagnitude]
  rfl

/-- The width of a container begins as a length does. -/
theorem head?_desktop_ne {config : Config} (h : config.validate = .ok ()) :
    config.breakpoints.desktop.toList.head? ≠ some 'v' := by
  intro hhead
  have hpixels : config.pixels .desktop = .error (.width .desktop config.breakpoints.desktop) := by
    simp [Config.pixels, Widths.at, Length.parse?, parse?_eq_none_of_head hhead]
  obtain ⟨width, hwidth⟩ := (Config.accepted_of_validate h).pixels .desktop
  rw [hpixels] at hwidth
  cases hwidth

theorem head?_reference (name : String) : ("var(" ++ name ++ ")").toList.head? = some 'v' := by
  simp

/-- A rule for a class is the one that its declarations ask for. -/
theorem eq_ruleFor_of_mem_typography {config : Config} {b : Breakpoint} {rule : StyleRule}
    (h : rule ∈ typography config (.ofConfig config) b) :
    ∃ name, config.declaredAt name b ≠ [] ∧ rule = ruleFor config name b := by
  obtain ⟨found, hfound, rfl⟩ := List.mem_map.1 h
  obtain ⟨name, -, hrule⟩ := List.mem_filterMap.1 hfound
  by_cases hdeclared : config.declaredAt name b = []
  · rw [rule?_eq_none hdeclared] at hrule
    cases hrule
  · rw [rule?_eq_some hdeclared] at hrule
    cases hrule
    exact ⟨name, hdeclared, by simp [typographyRule, ruleFor]⟩

theorem exists_request_of_mem_typography {config : Config} {b : Breakpoint} {rule : StyleRule}
    (h : rule ∈ typography config (.ofConfig config) b) {d : Declaration} (hd : d ∈ rule.declarations) :
    ∃ request ∈ config.requests, d.value = (Request.variable config request).reference := by
  obtain ⟨name, -, rfl⟩ := eq_ruleFor_of_mem_typography h
  obtain ⟨⟨p, raw⟩, hmem, rfl⟩ := List.mem_map.1 hd
  exact ⟨_, mem_requests_of_mem_declaredAt hmem, rfl⟩

theorem exists_request_of_mem_utilities {config : Config} {mark : Option Breakpoint} {rule : StyleRule}
    (h : rule ∈ utilities config (.ofConfig config) mark) {d : Declaration}
    (hd : d ∈ rule.declarations) :
    ∃ request ∈ config.requests, d.value = (Request.variable config request).reference := by
  rw [utilities_eq_map] at h
  obtain ⟨use, huse, rfl⟩ := List.mem_map.1 h
  obtain ⟨css, -, rfl⟩ := List.mem_map.1 hd
  exact ⟨use.request, mem_requests_of_mem_utilityUses huse, rfl⟩

theorem mem_rules_iff {config : Config} {table : VariableTable} {rule : StyleRule} :
    rule ∈ (ofConfig config table).base ++ (ofConfig config table).wide ↔
      rule ∈ rootRules table ∨ (∃ b, rule ∈ typography config table b) ∨
        (∃ b : Breakpoint, rule ∈ utilities config table b.mark) ∨
        rule = container config [⟨"width", "100%"⟩, ⟨"margin-inline", "auto"⟩] ∨
        rule = container config [⟨"max-width", config.breakpoints.desktop⟩] := by
  rw [Breakpoint.exists_iff, Breakpoint.exists_iff]
  simp only [ofConfig, Breakpoint.mark, List.mem_append, List.mem_singleton]
  grind

/-- A declaration in a class rule that asks for a variable refers to it. -/
theorem references_of_mem {config : Config} {rule : StyleRule} {d : Declaration} {v : Variable}
    (h : (∃ b, rule ∈ typography config (.ofConfig config) b) ∨
      ∃ b : Breakpoint, rule ∈ utilities config (.ofConfig config) b.mark)
    (hd : d ∈ rule.declarations) (hv : d.value = v.reference) :
    (ofConfig config (.ofConfig config)).References v.name := by
  have hmem : rule ∈ (ofConfig config (.ofConfig config)).base ++ (ofConfig config (.ofConfig config)).wide := by
    rw [mem_rules_iff]
    rcases h with h | h
    · exact .inr (.inl h)
    · exact .inr (.inr (.inl h))
  have hclass : ∃ name, rule.selector = .className name := by
    rcases h with ⟨b, hb⟩ | ⟨b, hb⟩
    · exact exists_className_of_mem_typography hb
    · exact exists_className_of_mem_utilities hb
  obtain ⟨name, hname⟩ := hclass
  exact ⟨rule, hmem, by simp [hname], d, hd, hv⟩

theorem references_of_declaredAt {config : Config} {name raw : String} {b : Breakpoint} {p : Property}
    (h : (p, raw) ∈ config.declaredAt name b) :
    (ofConfig config (.ofConfig config)).References (Request.variable config (.value p raw, raw)).name := by
  have hfilter := filter_typography_eq_singleton (List.ne_nil_of_mem h)
  have hmem : ruleFor config name b ∈ typography config (.ofConfig config) b := by
    apply List.mem_of_mem_filter (p := fun rule => rule.selector = .className name)
    rw [hfilter]
    exact List.mem_singleton_self _
  exact references_of_mem (.inl ⟨b, hmem⟩) (List.mem_map_of_mem h) rfl

theorem references_of_use {config : Config} {use : UtilityUse} {css : String}
    (h : use ∈ config.utilityUses) (hcss : css ∈ use.utility.properties) :
    (ofConfig config (.ofConfig config)).References (Request.variable config use.request).name := by
  have hmem : use.utility.rule config.brand none use.key (Request.variable config use.request) ∈
      utilities config (.ofConfig config) Breakpoint.mobile.mark := by
    rw [utilities_eq_map]
    exact List.mem_map_of_mem h
  exact references_of_mem (.inr ⟨.mobile, hmem⟩) (List.mem_map_of_mem hcss) rfl

/-- Every variable is asked for by a class or by a key, and is referred to there. -/
theorem references_of_mem_requests {config : Config} {request : Request} (h : request ∈ config.requests) :
    (ofConfig config (.ofConfig config)).References (Request.variable config request).name := by
  rcases Interning.mem_requests.1 h with
    ⟨name, spec, slot, raw, hspec, hvalue, rfl⟩ | ⟨key, raw, hkey, rfl⟩ | ⟨key, raw, hkey, rfl⟩
  · have hslot : slot ∈ Slot.forBreakpoint (slot.breakpoint?.getD .mobile) := by
      rcases slot with _ | _ | _ | _ | b | b <;> first | decide | (cases b <;> decide)
    have hdeclared : (slot.property, raw) ∈ config.declaredAt name (slot.breakpoint?.getD .mobile) := by
      simp only [Config.declaredAt, hspec, ClassSpec.declaredAt_eq_slots, List.mem_filterMap]
      exact ⟨slot, hslot, by rw [hvalue]; rfl⟩
    exact references_of_declaredAt hdeclared
  · have huse : ⟨⟨"m", ["margin"]⟩, .spacing, key, raw⟩ ∈ config.utilityUses :=
      List.mem_append_left _ (UtilityUse.mem_all (by decide) hkey)
    have href := references_of_use huse List.mem_cons_self
    exact href
  · have huse : ⟨⟨"text", ["color"]⟩, .color, key, raw⟩ ∈ config.utilityUses :=
      List.mem_append_right _ (UtilityUse.mem_all (by decide) hkey)
    have href := references_of_use huse List.mem_cons_self
    exact href

/-- References are made to requested variables only. -/
theorem exists_request_of_references {config : Config} (hvalid : config.validate = .ok ())
    {name : String} (h : (ofConfig config (.ofConfig config)).References name) :
    ∃ request ∈ config.requests, (Request.variable config request).name = name := by
  obtain ⟨rule, hmem, hselector, d, hd, hvalue⟩ := h
  have hname : (∃ request ∈ config.requests, d.value = (Request.variable config request).reference) →
      ∃ request ∈ config.requests, (Request.variable config request).name = name := by
    intro ⟨request, hrequest, hreference⟩
    rw [hvalue, Variable.reference, String.append_left_inj, String.append_right_inj] at hreference
    exact ⟨request, hrequest, hreference.symm⟩
  rcases mem_rules_iff.1 hmem with hroot | ⟨b, htypography⟩ | ⟨b, hutility⟩ | rfl | rfl
  · have hselectorRoot : rule.selector = .root := by
      unfold rootRules at hroot
      split at hroot
      · cases hroot
      · rw [List.mem_singleton.1 hroot]
    exact absurd hselectorRoot hselector
  · exact hname (exists_request_of_mem_typography htypography hd)
  · exact hname (exists_request_of_mem_utilities hutility hd)
  · have htext : d.value = "100%" ∨ d.value = "auto" := by
      simp only [container, List.mem_cons, List.not_mem_nil, or_false] at hd
      rcases hd with rfl | rfl
      · exact .inl rfl
      · exact .inr rfl
    have hparse := congrArg (fun text => text.toList.head?) hvalue
    rcases htext with htext | htext <;> simp [htext] at hparse
  · have hdesktop : d.value = config.breakpoints.desktop := by
      rw [List.mem_singleton.1 hd]
    apply absurd (head?_reference name)
    rw [← hvalue, hdesktop]
    exact head?_desktop_ne hvalid

theorem exists_request_of_declared {config : Config} {name value : String}
    (h : ⟨name, value⟩ ∈ (ofConfig config (.ofConfig config)).rootDeclarations) :
    ∃ request ∈ config.requests, (Request.variable config request).name = name := by
  rw [rootDeclarations_ofConfig] at h
  obtain ⟨v, hv, heq⟩ := List.mem_map.1 h
  rw [VariableTable.mem_byProperty, Interning.entries_ofConfig] at hv
  obtain ⟨request, hrequest, rfl⟩ := List.mem_map.1 hv
  exact ⟨request, Interning.mem_distinct.1 hrequest, congrArg Declaration.property heq⟩

/-- The declared variables are those that rules refer to. -/
theorem declared_iff_references {config : Config} (hvalid : config.validate = .ok ()) (name : String) :
    (∃ value, ⟨name, value⟩ ∈ (ofConfig config (.ofConfig config)).rootDeclarations) ↔
      (ofConfig config (.ofConfig config)).References name := by
  constructor
  · intro ⟨value, hvalue⟩
    obtain ⟨request, hrequest, rfl⟩ := exists_request_of_declared hvalue
    exact references_of_mem_requests hrequest
  · intro h
    obtain ⟨request, hrequest, rfl⟩ := exists_request_of_references hvalid h
    refine ⟨(Request.variable config request).value, ?_⟩
    rw [rootDeclarations_ofConfig]
    apply List.mem_map_of_mem (f := fun v : Variable => (⟨v.name, v.value⟩ : Declaration))
    rw [VariableTable.mem_byProperty, Interning.entries_ofConfig]
    exact List.mem_map_of_mem (Interning.mem_distinct.2 hrequest)

/-! ## Whole stylesheets -/

section

variable {config : Config} (hnames : (VariableTable.ofConfig config).HasDistinctNames)

include hnames

theorem exists_rule_of_declaredAt (name : String) (b : Breakpoint) (h : config.declaredAt name b ≠ []) :
    ∃ rule, (typography config (.ofConfig config) b).filter (fun rule => rule.selector = .className name) =
        [rule] ∧
      List.Forall₂ (fun d declared => d.property = declared.1.cssProperty ∧
        Refers config (ofConfig config (.ofConfig config)) declared.1 declared.2 declared.2 d.value)
        rule.declarations (config.declaredAt name b) := by
  refine ⟨ruleFor config name b, filter_typography_eq_singleton h, ?_⟩
  rw [ruleFor, List.forall₂_map_left_iff, List.forall₂_same]
  intro declared hmem
  exact ⟨rfl, refers_of_mem_requests hnames (mem_requests_of_mem_declaredAt hmem)⟩

theorem forall₂_utilities (b : Breakpoint) :
    List.Forall₂ (fun rule use =>
      rule.selector = .className (use.utility.className config.brand b.mark use.key) ∧
        ∃ reference, Refers config (ofConfig config (.ofConfig config)) use.property use.key use.raw
            reference ∧
          rule.declarations = use.utility.properties.map (fun css => ⟨css, reference⟩))
      (utilities config (.ofConfig config) b.mark) config.utilityUses := by
  rw [utilities_eq_map, List.forall₂_map_left_iff, List.forall₂_same]
  intro use hmem
  exact ⟨rfl, _, refers_of_mem_requests hnames (mem_requests_of_mem_utilityUses hmem), rfl⟩

end

/-- The stylesheet of a valid config says what the config declares. -/
theorem faithful_ofConfig {config : Config} (hvalid : config.validate = .ok ())
    (hnames : (VariableTable.ofConfig config).HasDistinctNames) :
    Faithful config (ofConfig config (.ofConfig config)) (typography config (.ofConfig config))
      (fun b => utilities config (.ofConfig config) b.mark) where
  base := ⟨_, _, rfl⟩
  wide := ⟨_, rfl⟩
  classes := fun _ _ h => exists_className_of_mem_typography h
  absent := by
    intro name b h
    rw [filter_typography, rule?_eq_none h]
    rfl
  present := exists_rule_of_declaredAt hnames
  utilities := forall₂_utilities hnames
  closed := declared_iff_references hvalid

end Stylesheet

end DesignTokens
