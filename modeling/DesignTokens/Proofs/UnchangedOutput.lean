import DesignTokens.Page.Html
import DesignTokens.Proofs.Changes
import DesignTokens.Proofs.Interning
import DesignTokens.Stylesheet.Printer

/-!
# Unchanged output

Stylesheet and page are made from what a comparison of snapshots sees, and from the base font size,
which shows in the values of variables only. So where no change is reported the output is that of
the build before.
-/

namespace DesignTokens

/-- Configs that differ at most in what no output shows: the base font size apart from its effect on
the declared values, unknown keys, and classes and tiers that declare nothing. -/
structure Alike (config other : Config) : Prop where
  brand : config.brand = other.brand
  category : config.category = other.category
  breakpoints : config.breakpoints = other.breakpoints
  fontFamilies : config.fontFamilies = other.fontFamilies
  spacing : config.spacing = other.spacing
  colors : config.colors = other.colors
  slots : ∀ name slot,
    Changes.slotValue? config.classes name slot = Changes.slotValue? other.classes name slot
  values : ∀ request ∈ config.requests,
    (Request.variable config request).value = (Request.variable other request).value

/-! ## What tables and rules depend on -/

theorem requests_eq_slots (classes : SortedMap ClassSpec) (name : String) :
    ((classes.get? name).map ClassSpec.requests).getD [] =
      Slot.all.filterMap (fun slot => (Changes.slotValue? classes name slot).map
        (fun raw => (.value slot.property raw, raw))) := by
  unfold Changes.slotValue?
  cases classes.get? name with
  | none => simp
  | some spec => simp [ClassSpec.requests, ClassSpec.declared, List.map_filterMap, Function.comp_def]

theorem requests_congr {config other : Config}
    (hslots : ∀ name slot,
      Changes.slotValue? config.classes name slot = Changes.slotValue? other.classes name slot)
    (hspacing : config.spacing = other.spacing) (hcolors : config.colors = other.colors) :
    config.requests = other.requests := by
  have hclasses : config.classes.entries.flatMap (fun entry => entry.2.requests) =
      other.classes.entries.flatMap (fun entry => entry.2.requests) := by
    apply SortedMap.flatMap_entries_congr (f := fun _ => ClassSpec.requests)
      (g := fun _ => ClassSpec.requests)
    intro name
    rw [requests_eq_slots, requests_eq_slots]
    simp only [hslots name]
  unfold Config.requests
  rw [hclasses, hspacing, hcolors]

/-- The variable in a slot is made from what is declared there. -/
theorem inSlot?_eq_map (config : Config) (name : String) (slot : Slot) :
    (VariableTable.ofConfig config).inSlot? name slot =
      (Changes.slotValue? config.classes name slot).map (fun raw =>
        Request.variable config (.value slot.property raw, raw)) := by
  rw [Interning.inSlot?_ofConfig, Changes.slotValue?]
  cases config.classes.get? name <;> rfl

theorem mem_requests_of_slotValue? {config : Config} {name raw : String} {slot : Slot}
    (h : Changes.slotValue? config.classes name slot = some raw) :
    ((.value slot.property raw, raw) : Request) ∈ config.requests := by
  obtain ⟨spec, hspec, hvalue⟩ := Option.bind_eq_some_iff.1 h
  exact Interning.mem_requests.2 (.inl ⟨name, spec, slot, raw, hspec, hvalue, rfl⟩)

/-- A class that is not there has no rule, as one that declares nothing. -/
theorem rules_eq_filterMap_entries (config : Config) (table : VariableTable) (b : Breakpoint) :
    config.rules table b = config.classes.entries.filterMap (fun entry => table.rule? entry.1 b) := by
  rw [Config.rules, SortedMap.keys, List.filterMap_map]
  rfl

theorem rule?_eq_none_of_absent {config : Config} {name : String}
    (h : config.classes.get? name = none) (b : Breakpoint) :
    (VariableTable.ofConfig config).rule? name b = none := by
  have hbindings : (VariableTable.ofConfig config).bindings name b = [] := by
    simp [VariableTable.bindings, inSlot?_eq_map, Changes.slotValue?, h]
  simp only [VariableTable.rule?, hbindings]

theorem bind_rule?_eq (config : Config) (name : String) (b : Breakpoint) :
    (config.classes.get? name).bind (fun _ => (VariableTable.ofConfig config).rule? name b) =
      (VariableTable.ofConfig config).rule? name b := by
  cases h : config.classes.get? name with
  | none => rw [rule?_eq_none_of_absent h, Option.bind_none]
  | some spec => rw [Option.bind_some]

namespace Alike

variable {config other : Config} (h : Alike config other)

include h

theorem requests : config.requests = other.requests :=
  requests_congr h.slots h.spacing h.colors

theorem namer : config.namer = other.namer := by
  rw [Config.namer, Config.namer, h.brand, h.category, h.fontFamilies]

theorem variable_eq {request : Request} (hmem : request ∈ config.requests) :
    Request.variable config request = Request.variable other request := by
  have hvalue := h.values request hmem
  simp only [Request.variable, Variable.ofToken] at hvalue ⊢
  rw [hvalue, h.namer]

theorem inSlot? (name : String) (slot : Slot) :
    (VariableTable.ofConfig config).inSlot? name slot =
      (VariableTable.ofConfig other).inSlot? name slot := by
  rw [inSlot?_eq_map, inSlot?_eq_map, ← h.slots]
  cases hslot : Changes.slotValue? config.classes name slot with
  | none => rfl
  | some raw => simp only [Option.map_some, h.variable_eq (mem_requests_of_slotValue? hslot)]

theorem entries : (VariableTable.ofConfig config).entries = (VariableTable.ofConfig other).entries := by
  apply Array.toList_inj.1
  rw [Interning.entries_ofConfig, Interning.entries_ofConfig, ← h.requests]
  apply List.map_congr_left
  intro request hmem
  exact h.variable_eq (Interning.mem_distinct.1 hmem)

theorem byProperty :
    (VariableTable.ofConfig config).byProperty = (VariableTable.ofConfig other).byProperty := by
  have hproperty : (VariableTable.ofConfig config).ofProperty =
      (VariableTable.ofConfig other).ofProperty := by
    funext p
    rw [VariableTable.ofProperty, VariableTable.ofProperty, h.entries]
  rw [VariableTable.byProperty, VariableTable.byProperty, hproperty]

theorem rule? (name : String) (b : Breakpoint) :
    (VariableTable.ofConfig config).rule? name b = (VariableTable.ofConfig other).rule? name b := by
  have hbindings : (VariableTable.ofConfig config).bindings name b =
      (VariableTable.ofConfig other).bindings name b := by
    simp only [VariableTable.bindings, h.inSlot?]
  simp only [VariableTable.rule?, hbindings]

/-- Classes that one config alone has make no rules, since they declare nothing. -/
theorem rules (b : Breakpoint) :
    config.rules (VariableTable.ofConfig config) b = other.rules (VariableTable.ofConfig other) b := by
  rw [rules_eq_filterMap_entries, rules_eq_filterMap_entries]
  apply SortedMap.filterMap_entries_congr
    (f := fun name _ => (VariableTable.ofConfig config).rule? name b)
    (g := fun name _ => (VariableTable.ofConfig other).rule? name b)
  intro name
  rw [bind_rule?_eq, bind_rule?_eq, h.rule?]

theorem flat_eq {p : Property} {values : SortedMap String}
    (hrequests : ∀ request ∈ values.requests p, request ∈ config.requests) :
    (VariableTable.ofConfig config).flat p values = (VariableTable.ofConfig other).flat p values := by
  have hothers : ∀ request ∈ values.requests p, request ∈ other.requests := by
    intro request hmem
    rw [← h.requests]
    exact hrequests request hmem
  rw [Interning.flat_ofConfig hrequests, Interning.flat_ofConfig hothers]
  apply List.map_congr_left
  intro entry hmem
  have hrequest : ((.entry p entry.1, entry.2) : Request) ∈ config.requests :=
    hrequests _ (List.mem_map_of_mem hmem)
  exact congrArg (Prod.mk entry.1) (h.variable_eq hrequest)

theorem flat_spacing :
    (VariableTable.ofConfig config).flat .spacing config.spacing =
      (VariableTable.ofConfig other).flat .spacing other.spacing := by
  rw [← h.spacing]
  exact h.flat_eq (fun _ => Interning.mem_requests_of_spacing)

theorem flat_colors :
    (VariableTable.ofConfig config).flat .color config.colors =
      (VariableTable.ofConfig other).flat .color other.colors := by
  rw [← h.colors]
  exact h.flat_eq (fun _ => Interning.mem_requests_of_colors)

/-! ## Outputs -/

theorem stylesheet :
    Stylesheet.ofConfig config (.ofConfig config) = Stylesheet.ofConfig other (.ofConfig other) := by
  have hroot : Stylesheet.rootRules (VariableTable.ofConfig config) =
      Stylesheet.rootRules (VariableTable.ofConfig other) := by
    rw [Stylesheet.rootRules, Stylesheet.rootRules, h.byProperty]
  simp only [Stylesheet.ofConfig, Stylesheet.typography, Stylesheet.utilities, Stylesheet.container,
    hroot, h.rules, h.flat_spacing, h.flat_colors, h.brand, h.category, h.breakpoints]

theorem page (changes : ChangeSet) (href : String) :
    Page.ofConfig config (.ofConfig config) changes href =
      Page.ofConfig other (.ofConfig other) changes href := by
  have htypography : Page.typographySection config (.ofConfig config) changes =
      Page.typographySection other (.ofConfig other) changes := by
    funext b
    simp only [Page.typographySection, h.rules, h.breakpoints]
  have hspacing : Page.spacingSection config (.ofConfig config) changes =
      Page.spacingSection other (.ofConfig other) changes := by
    rw [Page.spacingSection, Page.spacingSection, h.flat_spacing, h.spacing]
  have hcolors : Page.colorSection config (.ofConfig config) changes =
      Page.colorSection other (.ofConfig other) changes := by
    rw [Page.colorSection, Page.colorSection, h.flat_colors, h.colors]
  simp only [Page.ofConfig, Page.breakpointSection, Page.fontFamilySections, htypography, hspacing,
    hcolors, h.brand, h.breakpoints, h.fontFamilies]

end Alike

/-! ## What a comparison sees -/

/-- The name of a requested variable has the variable's value in the snapshot. -/
theorem get?_values_capture {config : Config} (h : (VariableTable.ofConfig config).HasDistinctNames)
    {request : Request} (hmem : request ∈ config.requests) :
    (Snapshot.capture config (.ofConfig config)).values.get? (Request.variable config request).name =
      some (Request.variable config request).value := by
  apply h.get?_valuesByName
  rw [Interning.entries_ofConfig]
  exact List.mem_map_of_mem (Interning.mem_distinct.2 hmem)

/-- Where nothing has changed between the snapshots of two configs, the configs are alike. The base
font size is not in a snapshot; the declared values tell what it does. -/
theorem alike_of_unchanged {config other : Config} (hbrand : config.brand = other.brand)
    (hcategory : config.category = other.category)
    (hnames : (VariableTable.ofConfig config).HasDistinctNames)
    (hothers : (VariableTable.ofConfig other).HasDistinctNames)
    (h : Changes.Unchanged (Snapshot.capture config (.ofConfig config))
      (Snapshot.capture other (.ofConfig other))) :
    Alike config other := by
  have hslots : ∀ name slot,
      Changes.slotValue? config.classes name slot = Changes.slotValue? other.classes name slot := by
    intro name slot
    have hslot := h.slots name slot
    rwa [Snapshot.capture, Snapshot.capture, Changes.slotValue?_withoutUnknown,
      Changes.slotValue?_withoutUnknown] at hslot
  have hrequests := requests_congr hslots h.spacing h.colors
  have hnamer : config.namer = other.namer := by
    rw [Config.namer, Config.namer, hbrand, hcategory, show config.fontFamilies = other.fontFamilies
      from h.fontFamilies]
  refine ⟨hbrand, hcategory, h.breakpoints, h.fontFamilies, h.spacing, h.colors, hslots, ?_⟩
  intro request hmem
  have hname : (Request.variable config request).name = (Request.variable other request).name := by
    simp only [Request.variable, Variable.ofToken, hnamer]
  have hvalue := h.values _ _ (get?_values_capture hnames hmem)
  rw [hname, get?_values_capture hothers (hrequests ▸ hmem)] at hvalue
  exact (Option.some.inj hvalue).symm

/-- An empty set of changes means that stylesheet and page are those of the previous config. -/
theorem output_eq_of_no_change {current previous : Config} {table before : VariableTable}
    {unknownKeys unknownBefore : UnknownKeyPolicy} {policy : ChangePolicy}
    (htable : current.intern unknownKeys = .ok table)
    (hbefore : previous.intern unknownBefore = .ok before)
    (hnames : table.HasDistinctNames) (hnamesBefore : before.HasDistinctNames)
    (hbrand : current.brand = previous.brand) (hcategory : current.category = previous.category)
    (hflag : policy.onRemovedClass = .flag)
    (hdiff : Changes.diff (Snapshot.capture current table) (some (Snapshot.capture previous before))
      policy = .empty) :
    (∀ layout, (Stylesheet.ofConfig current table).render layout =
        (Stylesheet.ofConfig previous before).render layout) ∧
      ∀ changes href, (Page.ofConfig current table changes href).html =
        (Page.ofConfig previous before changes href).html := by
  have heq := Config.eq_ofConfig_of_intern htable
  have heqBefore := Config.eq_ofConfig_of_intern hbefore
  subst heq
  subst heqBefore
  have hunchanged := Changes.unchanged_of_diff_eq_empty hflag hdiff
  have halike := alike_of_unchanged hbrand hcategory hnames hnamesBefore hunchanged
  constructor
  · intro layout
    rw [halike.stylesheet]
  · intro changes href
    rw [halike.page]

def headingSpec : ClassSpec :=
  { ClassSpec.empty with fontWeight := some "700", mobile := some ⟨some "16px", none, .empty⟩ }

def headingConfig : Config where
  brand := "tf"
  category := "typo"
  baseFontSize := 16
  breakpoints := ⟨"375px", "1024px"⟩
  classes := .ofList [("h1", headingSpec)]
  fontFamilies := .empty
  spacing := .empty
  colors := .empty
  build := .default

/-- Another base font size that rounding hides, an empty tier, an empty class and an unknown key. -/
def retouchedConfig : Config :=
  { headingConfig with
    baseFontSize := 16.0001
    classes := .ofList [("h1", { headingSpec with desktop := some .empty }),
      ("note", { ClassSpec.empty with unknown := .ofList [("colour", .null)] })] }

theorem output_eq_of_no_change_retouched :
    (Changes.diff (Snapshot.capture retouchedConfig (.ofConfig retouchedConfig))
        (some (Snapshot.capture headingConfig (.ofConfig headingConfig))) ⟨.markNone, .flag⟩ = .empty) ∧
      (∀ layout, (Stylesheet.ofConfig retouchedConfig (.ofConfig retouchedConfig)).render layout =
        (Stylesheet.ofConfig headingConfig (.ofConfig headingConfig)).render layout) ∧
      ∀ changes href, (Page.ofConfig retouchedConfig (.ofConfig retouchedConfig) changes href).html =
        (Page.ofConfig headingConfig (.ofConfig headingConfig) changes href).html := by
  have hdiff : Changes.diff (Snapshot.capture retouchedConfig (.ofConfig retouchedConfig))
      (some (Snapshot.capture headingConfig (.ofConfig headingConfig))) ⟨.markNone, .flag⟩ =
        .empty := by
    decide +kernel
  have hnames : (VariableTable.ofConfig retouchedConfig).HasDistinctNames := by decide +kernel
  have hnamesBefore : (VariableTable.ofConfig headingConfig).HasDistinctNames := by decide +kernel
  have htable : retouchedConfig.intern .ignore = .ok (.ofConfig retouchedConfig) := rfl
  have hbefore : headingConfig.intern .ignore = .ok (.ofConfig headingConfig) := rfl
  exact ⟨hdiff, output_eq_of_no_change htable hbefore hnames hnamesBefore rfl rfl rfl hdiff⟩

end DesignTokens
