import DesignTokens.Proofs.Naming.CustomProperties
import DesignTokens.Proofs.Stylesheet.Written
import DesignTokens.Proofs.StylesheetMeaning

/-!
# What a printed stylesheet means

The text of a sheet means what the config declares, but for one case. In the block for the desktop width the
lines are moved in, also those that a name begins, and a reference to a name with a line feed is then one to a
variable that is declared nowhere.
-/

namespace DesignTokens

/-! ## Names with line feeds -/

theorem Text.ofList_movedIn_ne {stem : String} (h : '\n' ∈ stem.toList) (first second : String) :
    String.ofList (movedIn false (stem ++ "-" ++ first).toList) ≠ stem ++ "-" ++ second := by
  intro heq
  have hend : (stem ++ "-").toList.getLast? = some '-' := by simp [List.getLast?_append]
  have hmem : '\n' ∈ (stem ++ "-").toList := by
    rw [String.toList_append]
    exact List.mem_append_left _ h
  have hnot : ¬ (stem ++ "-").toList <+: movedIn false ((stem ++ "-").toList ++ first.toList) :=
    not_prefix_movedIn (.inr hmem) hend
  rw [← String.toList_inj, String.toList_ofList] at heq
  rw [← String.toList_append, heq] at hnot
  exact hnot ⟨second.toList, String.toList_append.symm⟩

namespace Namer

variable {n : Namer} {p : Property} {text : String}

theorem not_mem_word : '\n' ∉ (p.cssProperty ++ "-" ++ (n.label p text).text).toList :=
  fun hmem => absurd (isName_of_mem_word hmem) (by decide)

/-- Only the brand and the category bring line feeds into a name. -/
theorem mem_name_iff : '\n' ∈ (n.name p text).toList ↔
    '\n' ∈ n.brand.toList ∨ (p.scope ≠ .flat ∧ '\n' ∈ n.category.toList) := by
  have hword : '\n' ∉ (p.cssProperty ++ "-" ++ (n.label p text).text).toList := not_mem_word
  rw [String.toList_append, String.toList_append, List.mem_append, List.mem_append, not_or, not_or] at hword
  by_cases hscope : p.scope = .flat
  · simp [name_of_flat hscope, hscope, hword]
  · simp [name_of_scoped hscope, hscope, hword]

theorem exists_name_eq_brand (n : Namer) (p : Property) (text : String) :
    ∃ rest, n.name p text = "--" ++ n.brand ++ "-" ++ rest := by
  by_cases hscope : p.scope = .flat
  · exact ⟨_, name_of_flat hscope text⟩
  · exact ⟨_, name_of_scoped hscope text⟩

theorem exists_name_eq_category (n : Namer) (h : p.scope ≠ .flat) (text : String) :
    ∃ rest, n.name p text = "--" ++ n.brand ++ "-" ++ n.category ++ "-" ++ rest := by
  refine ⟨p.cssProperty ++ "-" ++ (n.label p text).text, ?_⟩
  rw [name_of_scoped h]
  simp only [String.append_assoc]

/-- A name that is moved in is no name any more. -/
theorem movedIn_name_ne (h : '\n' ∈ (n.name p text).toList) (q : Property) (other : String) :
    String.ofList (Text.movedIn false (n.name p text).toList) ≠ n.name q other := by
  intro heq
  by_cases hbrand : '\n' ∈ n.brand.toList
  · obtain ⟨first, hfirst⟩ := n.exists_name_eq_brand p text
    obtain ⟨second, hsecond⟩ := n.exists_name_eq_brand q other
    rw [hfirst, hsecond] at heq
    exact Text.ofList_movedIn_ne (by simp [hbrand]) first second heq
  · have hp := (mem_name_iff.1 h).resolve_left hbrand
    have hmoved : '\n' ∈ (n.name q other).toList := by
      rw [← heq, String.toList_ofList]
      exact Text.mem_movedIn_iff.2 h
    have hq := (mem_name_iff.1 hmoved).resolve_left hbrand
    obtain ⟨first, hfirst⟩ := n.exists_name_eq_category hp.1 text
    obtain ⟨second, hsecond⟩ := n.exists_name_eq_category hq.1 other
    rw [hfirst, hsecond] at heq
    exact Text.ofList_movedIn_ne (by simp [hp.2]) first second heq

end Namer

/-! ## Sheets as they show -/

/-- A line feed of the brand or of the category stands in a name that is referred to from the desktop width
on. -/
def Config.BreaksReferences (config : Config) : Prop :=
  ('\n' ∈ config.brand.toList ∧ (config.spacing.entries ≠ [] ∨ config.colors.entries ≠ [])) ∨
    (('\n' ∈ config.brand.toList ∨ '\n' ∈ config.category.toList) ∧
      ∃ name, config.declaredAt name .desktop ≠ [])

theorem Layout.shown_eq_self {text : String} (h : '\n' ∉ text.toList) (layout : Layout) (b : Breakpoint) :
    layout.shown b text = text := by
  cases layout with
  | minified => rfl
  | lines =>
      cases b with
      | mobile => rfl
      | desktop => rw [shown, Text.movedIn_of_not_mem h, String.ofList_toList]

theorem Layout.shown_reference (name : String) : Layout.lines.shown .desktop ("var(" ++ name ++ ")") =
    "var(" ++ String.ofList (Text.movedIn false name.toList) ++ ")" := by
  have hclose : Text.movedIn false (name.toList ++ [')']) = Text.movedIn false name.toList ++ [')'] :=
    Text.movedIn_append (by decide) (by decide)
  apply String.toList_injective
  simp [Layout.shown, Text.movedIn, Text.margin, hclose]

theorem Variable.mem_reference_iff {v : Variable} : '\n' ∈ v.reference.toList ↔ '\n' ∈ v.name.toList := by
  simp [Variable.reference]

theorem StyleRule.shown_eq_self {rule : StyleRule}
    (h : ∀ d ∈ rule.declarations, '\n' ∉ d.property.toList ∧ '\n' ∉ d.value.toList) (layout : Layout)
    (b : Breakpoint) : rule.shown layout b = rule := by
  have hdeclarations : rule.declarations.map (fun d =>
      (⟨layout.shown b d.property, layout.shown b d.value⟩ : Declaration)) = rule.declarations.map id := by
    apply List.map_congr_left
    intro d hd
    rw [Layout.shown_eq_self (h d hd).1, Layout.shown_eq_self (h d hd).2]
    rfl
  rw [shown, hdeclarations, List.map_id]

theorem Property.not_mem_cssProperty (p : Property) : '\n' ∉ p.cssProperty.toList := by
  cases p <;> decide

namespace Stylesheet

variable {config : Config}

theorem rootDeclarations_shown (layout : Layout) (config : Config) (table : VariableTable) :
    ((ofConfig config table).shown layout).rootDeclarations = (ofConfig config table).rootDeclarations := by
  have hwide : (ofConfig config table).wide.filter (fun rule => rule.selector = .root) = [] := by
    apply filter_root_eq_nil
    intro rule hrule
    simp only [ofConfig, List.mem_append, List.mem_singleton] at hrule
    rcases hrule with (htypography | hutility) | rfl
    · exact exists_className_of_mem_typography htypography
    · exact exists_className_of_mem_utilities hutility
    · exact ⟨_, rfl⟩
  have hshown : ((ofConfig config table).wide.map (StyleRule.shown layout .desktop)).filter
      (fun rule => rule.selector = .root) = [] := by
    rw [List.filter_map, List.map_eq_nil_iff]
    exact hwide
  simp only [rootDeclarations, shown, StyleRule.shown_mobile, List.map_id, List.filter_append, hwide, hshown]

/-! ## Rules without line feeds -/

theorem map_shown_eq_self {rules : List StyleRule} {layout : Layout} {b : Breakpoint}
    (h : layout = .lines → b = .desktop → ∀ rule ∈ rules, ∀ d ∈ rule.declarations,
      '\n' ∉ d.property.toList ∧ '\n' ∉ d.value.toList) : rules.map (StyleRule.shown layout b) = rules := by
  cases layout with
  | minified => rw [StyleRule.shown_minified, List.map_id]
  | lines =>
      cases b with
      | mobile => rw [StyleRule.shown_mobile, List.map_id]
      | desktop =>
          refine (List.map_congr_left fun rule hrule => ?_).trans (List.map_id rules)
          exact StyleRule.shown_eq_self (h rfl rfl rule hrule) _ _

/-- What the reference to a requested variable holds of line feeds is in the brand or the category. -/
theorem mem_reference_iff {request : Request} :
    '\n' ∈ (Request.variable config request).reference.toList ↔ '\n' ∈ config.brand.toList ∨
      (request.1.property.scope ≠ .flat ∧ '\n' ∈ config.category.toList) :=
  Variable.mem_reference_iff.trans Namer.mem_name_iff

variable {rule : StyleRule} {d : Declaration}

theorem scope_of_mem_declaredAt {name raw : String} {b : Breakpoint} {p : Property}
    (h : (p, raw) ∈ config.declaredAt name b) : p.scope ≠ .flat := by
  unfold Config.declaredAt at h
  cases hspec : config.classes.get? name with
  | none =>
      rw [hspec] at h
      cases h
  | some spec =>
      simp only [hspec, ClassSpec.declaredAt_eq_slots, List.mem_filterMap, Option.map_eq_some_iff,
        Prod.mk.injEq] at h
      obtain ⟨slot, -, value, -, rfl, -⟩ := h
      exact Interning.scope_slot slot

theorem lineFeeds_of_mem_typography {b : Breakpoint} (hrule : rule ∈ typography config (.ofConfig config) b)
    (hd : d ∈ rule.declarations) : '\n' ∉ d.property.toList ∧
      ('\n' ∈ d.value.toList ↔ '\n' ∈ config.brand.toList ∨ '\n' ∈ config.category.toList) := by
  obtain ⟨name, -, rfl⟩ := eq_ruleFor_of_mem_typography hrule
  obtain ⟨⟨p, raw⟩, hdeclared, rfl⟩ := List.mem_map.1 hd
  refine ⟨p.not_mem_cssProperty, ?_⟩
  rw [mem_reference_iff]
  exact or_congr_right (and_iff_right (scope_of_mem_declaredAt hdeclared))

theorem scope_of_mem_all {utilities : List Utility} {p : Property} {values : SortedMap String} {use : UtilityUse}
    (h : use ∈ UtilityUse.all utilities p values) :
    use.utility ∈ utilities ∧ use.property = p ∧ values.entries ≠ [] := by
  obtain ⟨utility, hutility, huse⟩ := List.mem_flatMap.1 h
  obtain ⟨entry, hentry, rfl⟩ := List.mem_map.1 huse
  exact ⟨hutility, rfl, List.ne_nil_of_mem hentry⟩

theorem cases_of_mem_utilityUses {use : UtilityUse} (h : use ∈ config.utilityUses) :
    use.utility ∈ Utility.spacing ++ Utility.color ∧ use.property.scope = .flat ∧
      (config.spacing.entries ≠ [] ∨ config.colors.entries ≠ []) := by
  rcases List.mem_append.1 h with hspacing | hcolor
  · obtain ⟨hutility, hproperty, hentries⟩ := scope_of_mem_all hspacing
    exact ⟨List.mem_append_left _ hutility, by rw [hproperty]; rfl, .inl hentries⟩
  · obtain ⟨hutility, hproperty, hentries⟩ := scope_of_mem_all hcolor
    exact ⟨List.mem_append_right _ hutility, by rw [hproperty]; rfl, .inr hentries⟩

theorem lineFeeds_of_mem_utilities {mark : Option Breakpoint}
    (hrule : rule ∈ utilities config (.ofConfig config) mark) (hd : d ∈ rule.declarations) :
    '\n' ∉ d.property.toList ∧ ('\n' ∈ d.value.toList ↔ '\n' ∈ config.brand.toList) := by
  rw [utilities_eq_map] at hrule
  obtain ⟨use, huse, rfl⟩ := List.mem_map.1 hrule
  obtain ⟨css, hcss, rfl⟩ := List.mem_map.1 hd
  obtain ⟨hutility, hscope, -⟩ := cases_of_mem_utilityUses huse
  have hproperties : ∀ utility ∈ Utility.spacing ++ Utility.color, ∀ css ∈ utility.properties,
      '\n' ∉ css.toList := by decide
  refine ⟨hproperties _ hutility css hcss, ?_⟩
  rw [mem_reference_iff]
  exact or_iff_left fun h => h.1 hscope

theorem shown_typography {layout : Layout} (h : layout = .minified ∨ ¬ config.BreaksReferences)
    (b : Breakpoint) : (typography config (.ofConfig config) b).map (StyleRule.shown layout b) =
      typography config (.ofConfig config) b := by
  apply map_shown_eq_self
  rintro rfl rfl rule hrule d hd
  obtain ⟨hproperty, hvalue⟩ := lineFeeds_of_mem_typography hrule hd
  obtain ⟨name, hdeclared, -⟩ := eq_ruleFor_of_mem_typography hrule
  refine ⟨hproperty, fun hline => h.resolve_left nofun (.inr ⟨hvalue.1 hline, name, hdeclared⟩)⟩

theorem shown_utilities {layout : Layout} (h : layout = .minified ∨ ¬ config.BreaksReferences)
    (b : Breakpoint) : (utilities config (.ofConfig config) b.mark).map (StyleRule.shown layout b) =
      utilities config (.ofConfig config) b.mark := by
  apply map_shown_eq_self
  rintro rfl rfl rule hrule d hd
  obtain ⟨hproperty, hvalue⟩ := lineFeeds_of_mem_utilities hrule hd
  rw [utilities_eq_map] at hrule
  obtain ⟨use, huse, -⟩ := List.mem_map.1 hrule
  have hentries := (cases_of_mem_utilityUses huse).2.2
  exact ⟨hproperty, fun hline => h.resolve_left nofun (.inl ⟨hvalue.1 hline, hentries⟩)⟩

/-! ## References with line feeds -/

theorem head?_of_shown {layout : Layout} {b : Breakpoint} {text : String} {c : Char} (hline : c ≠ '\n')
    (h : (layout.shown b text).toList.head? = some c) : text.toList.head? = some c := by
  cases layout with
  | minified => exact h
  | lines =>
      cases b with
      | mobile => exact h
      | desktop =>
          rw [Layout.shown, String.toList_ofList] at h
          revert h
          fun_cases Text.movedIn false text.toList with
          | case1 | case4 => exact id
          | case2 | case3 => exact fun h => absurd (Option.some.inj h) (Ne.symm hline)

/-- The width of the container is no reference, and shows as none. -/
theorem shown_desktop_ne_reference (hvalid : config.validate = .ok ()) (layout : Layout) (b : Breakpoint)
    (name : String) : layout.shown b config.breakpoints.desktop ≠ "var(" ++ name ++ ")" := by
  intro heq
  have hhead := head?_reference name
  rw [← heq] at hhead
  exact head?_desktop_ne hvalid (head?_of_shown (by decide) hhead)

theorem mem_shown_iff {text : String} :
    '\n' ∈ (Layout.lines.shown .desktop text).toList ↔ '\n' ∈ text.toList := by
  rw [Layout.shown, String.toList_ofList]
  exact Text.mem_movedIn_iff

/-- A reference with a line feed shows as one to another name, which is that of no requested variable. -/
theorem shown_reference_ne {request : Request}
    (hbreak : '\n' ∈ (Request.variable config request).reference.toList) (other : Request) :
    Layout.lines.shown .desktop (Request.variable config request).reference ≠
      "var(" ++ (Request.variable config other).name ++ ")" := by
  intro heq
  rw [Variable.reference, Layout.shown_reference, String.append_left_inj, String.append_right_inj] at heq
  exact Namer.movedIn_name_ne (Variable.mem_reference_iff.1 hbreak) other.1.property other.1.text heq

theorem wide_shown (layout : Layout) (config : Config) (table : VariableTable) :
    ((ofConfig config table).shown layout).wide =
      (typography config table .desktop).map (StyleRule.shown layout .desktop) ++
        (utilities config table Breakpoint.desktop.mark).map (StyleRule.shown layout .desktop) ++
        [(container config [⟨"max-width", config.breakpoints.desktop⟩]).shown layout .desktop] := by
  simp [shown, ofConfig, Breakpoint.mark]

/-- From the desktop width on, a reference with a line feed is to no variable that is declared. -/
theorem ne_reference_of_mem (hvalid : config.validate = .ok ())
    (hrule : rule ∈ ((ofConfig config (.ofConfig config)).shown .lines).wide) (hd : d ∈ rule.declarations)
    (hbreak : '\n' ∈ d.value.toList) {declared : Declaration}
    (hdeclared : declared ∈ ((ofConfig config (.ofConfig config)).shown .lines).rootDeclarations) :
    d.value ≠ "var(" ++ declared.property ++ ")" := by
  rw [rootDeclarations_shown] at hdeclared
  obtain ⟨other, -, hname⟩ := exists_request_of_declared hdeclared
  have hreference : ∀ {rules : List StyleRule}, rule ∈ rules.map (StyleRule.shown .lines .desktop) →
      (∀ original ∈ rules, ∀ d ∈ original.declarations,
        ∃ request ∈ config.requests, d.value = (Request.variable config request).reference) →
      d.value ≠ "var(" ++ declared.property ++ ")" := by
    intro rules hmem hrequests
    obtain ⟨original, horiginal, rfl⟩ := List.mem_map.1 hmem
    obtain ⟨asked, hasked, rfl⟩ := List.mem_map.1 hd
    obtain ⟨request, -, hvalue⟩ := hrequests original horiginal asked hasked
    simp only [hvalue, mem_shown_iff] at hbreak
    simp only [hvalue, ← hname]
    exact shown_reference_ne hbreak other
  rw [wide_shown, List.mem_append, List.mem_append, List.mem_singleton] at hrule
  rcases hrule with (htypography | hutility) | rfl
  · exact hreference htypography fun _ h _ hd => exists_request_of_mem_typography h hd
  · exact hreference hutility fun _ h _ hd => exists_request_of_mem_utilities h hd
  · rw [List.mem_singleton.1 hd]
    exact shown_desktop_ne_reference hvalid .lines .desktop declared.property

/-! ## The meaning of the text -/

/-- Rules without references do not count. -/
theorem references_congr {first second : Stylesheet} (hbase : first.base = second.base) {rules : List StyleRule}
    {last last' : StyleRule} (hfirst : first.wide = rules ++ [last]) (hsecond : second.wide = rules ++ [last'])
    {name : String} (hlast : ∀ d ∈ last.declarations, d.value ≠ "var(" ++ name ++ ")")
    (hlast' : ∀ d ∈ last'.declarations, d.value ≠ "var(" ++ name ++ ")") :
    first.References name ↔ second.References name := by
  have hnone : ∀ {rule : StyleRule}, (∀ d ∈ rule.declarations, d.value ≠ "var(" ++ name ++ ")") →
      ¬ (rule.selector ≠ .root ∧ ∃ d ∈ rule.declarations, d.value = "var(" ++ name ++ ")") := by
    intro rule h ⟨_, d, hd, hvalue⟩
    exact h d hd hvalue
  simp only [References, hbase, hfirst, hsecond, List.mem_append, List.mem_singleton, or_and_right, exists_or,
    exists_eq_left, hnone hlast, hnone hlast']

theorem refers_shown (layout : Layout) (config : Config) (table : VariableTable) :
    Refers config ((ofConfig config table).shown layout) = Refers config (ofConfig config table) := by
  unfold Refers Declares
  rw [rootDeclarations_shown]

theorem faithful_shown (hvalid : config.validate = .ok ())
    (hnames : (VariableTable.ofConfig config).HasDistinctNames) {layout : Layout}
    (h : layout = .minified ∨ ¬ config.BreaksReferences) :
    Faithful config ((ofConfig config (.ofConfig config)).shown layout)
      (typography config (.ofConfig config)) (fun b => utilities config (.ofConfig config) b.mark) := by
  have htree := faithful_ofConfig hvalid hnames
  have hbase : ((ofConfig config (.ofConfig config)).shown layout).base =
      (ofConfig config (.ofConfig config)).base := by
    rw [shown, StyleRule.shown_mobile, List.map_id]
  have hwide := wide_shown layout config (.ofConfig config)
  rw [shown_typography h .desktop, shown_utilities h .desktop] at hwide
  refine ⟨?_, ⟨_, hwide⟩, htree.classes, htree.absent, ?_, ?_, ?_⟩
  · rw [hbase]
    exact htree.base
  · rw [refers_shown]
    exact htree.present
  · rw [refers_shown]
    exact htree.utilities
  · intro name
    have hreferences : ((ofConfig config (.ofConfig config)).shown layout).References name ↔
        (ofConfig config (.ofConfig config)).References name := by
      apply references_congr hbase hwide rfl
      · intro d hd
        rw [List.mem_singleton.1 hd]
        exact shown_desktop_ne_reference hvalid layout .desktop name
      · intro d hd
        rw [List.mem_singleton.1 hd]
        exact shown_desktop_ne_reference hvalid .minified .desktop name
    rw [rootDeclarations_shown, hreferences]
    exact htree.closed name

/-- A declaration with a line feed from the desktop width on refers to nothing. -/
theorem not_refers_of_mem (hvalid : config.validate = .ok ())
    (hrule : rule ∈ ((ofConfig config (.ofConfig config)).shown .lines).wide) (hd : d ∈ rule.declarations)
    (hbreak : '\n' ∈ d.value.toList) (p : Property) (text raw : String) :
    ¬ Refers config ((ofConfig config (.ofConfig config)).shown .lines) p text raw d.value := by
  intro ⟨n, _, hvalue, hdeclares⟩
  have hdeclared : ⟨"--" ++ n, Variable.transformed config p raw⟩ ∈
      ((ofConfig config (.ofConfig config)).shown .lines).rootDeclarations := by
    apply List.mem_of_mem_filter (p := fun d => d.property = "--" ++ n)
    rw [hdeclares]
    exact List.mem_singleton_self _
  apply ne_reference_of_mem hvalid hrule hd hbreak hdeclared
  rw [hvalue, ← String.append_assoc]
  rfl

theorem mem_value_of_mem_map {rules : List StyleRule} {P : Prop}
    (h : ∀ original ∈ rules, ∀ d ∈ original.declarations, '\n' ∈ d.value.toList ↔ P) (hP : P)
    (hrule : rule ∈ rules.map (StyleRule.shown .lines .desktop)) (hd : d ∈ rule.declarations) :
    '\n' ∈ d.value.toList := by
  obtain ⟨original, horiginal, rfl⟩ := List.mem_map.1 hrule
  obtain ⟨asked, hasked, rfl⟩ := List.mem_map.1 hd
  exact mem_shown_iff.2 ((h original horiginal asked hasked).2 hP)

theorem exists_of_forall₂ {α β : Type} {R : α → β → Prop} {first : List α} {second : List β}
    (h : List.Forall₂ R first second) (hne : second ≠ []) : ∃ a ∈ first, ∃ b ∈ second, R a b := by
  cases h with
  | nil => exact absurd rfl hne
  | cons hab _ => exact ⟨_, List.mem_cons_self, _, List.mem_cons_self, hab⟩

theorem utilityUses_ne_nil (h : config.spacing.entries ≠ [] ∨ config.colors.entries ≠ []) :
    config.utilityUses ≠ [] := by
  rcases h with h | h
  · obtain ⟨⟨key, raw⟩, hentry⟩ := List.exists_mem_of_ne_nil _ h
    have huse : ⟨⟨"m", ["margin"]⟩, .spacing, key, raw⟩ ∈ config.utilityUses :=
      List.mem_append_left _ (UtilityUse.mem_all (by decide) (SortedMap.get?_eq_some_iff.2 hentry))
    exact List.ne_nil_of_mem huse
  · obtain ⟨⟨key, raw⟩, hentry⟩ := List.exists_mem_of_ne_nil _ h
    have huse : ⟨⟨"text", ["color"]⟩, .color, key, raw⟩ ∈ config.utilityUses :=
      List.mem_append_right _ (UtilityUse.mem_all (by decide) (SortedMap.get?_eq_some_iff.2 hentry))
    exact List.ne_nil_of_mem huse

theorem not_breaksReferences_of_faithful (hvalid : config.validate = .ok ())
    (h : Faithful config ((ofConfig config (.ofConfig config)).shown .lines)
      (fun b => (typography config (.ofConfig config) b).map (StyleRule.shown .lines b))
      (fun b => (utilities config (.ofConfig config) b.mark).map (StyleRule.shown .lines b))) :
    ¬ config.BreaksReferences := by
  have hwide := wide_shown .lines config (.ofConfig config)
  rintro (⟨hbrand, hentries⟩ | ⟨hline, name, hdeclared⟩)
  · obtain ⟨rule, hrule, use, huse, -, reference, hrefers, hdeclarations⟩ :=
      exists_of_forall₂ (h.utilities .desktop) (utilityUses_ne_nil hentries)
    have hproperties : ∀ utility ∈ Utility.spacing ++ Utility.color, utility.properties ≠ [] := by decide
    obtain ⟨css, hcss⟩ :=
      List.exists_mem_of_ne_nil _ (hproperties _ (cases_of_mem_utilityUses huse).1)
    have hd : ⟨css, reference⟩ ∈ rule.declarations := by
      rw [hdeclarations]
      exact List.mem_map_of_mem hcss
    have hbreak := mem_value_of_mem_map (fun _ h _ hd => (lineFeeds_of_mem_utilities h hd).2) hbrand hrule hd
    have hmem : rule ∈ ((ofConfig config (.ofConfig config)).shown .lines).wide := by
      rw [hwide]
      exact List.mem_append_left _ (List.mem_append_right _ hrule)
    exact not_refers_of_mem hvalid hmem hd hbreak _ _ _ hrefers
  · obtain ⟨rule, hfilter, hdeclarations⟩ := h.present name .desktop hdeclared
    have hrule : rule ∈ (typography config (.ofConfig config) .desktop).map (StyleRule.shown .lines .desktop) := by
      apply List.mem_of_mem_filter (p := fun rule => rule.selector = .className name)
      rw [hfilter]
      exact List.mem_singleton_self _
    obtain ⟨d, hd, declared, -, -, hrefers⟩ := exists_of_forall₂ hdeclarations hdeclared
    have hbreak := mem_value_of_mem_map (fun _ h _ hd => (lineFeeds_of_mem_typography h hd).2) hline hrule hd
    have hmem : rule ∈ ((ofConfig config (.ofConfig config)).shown .lines).wide := by
      rw [hwide]
      exact List.mem_append_left _ (List.mem_append_left _ hrule)
    exact not_refers_of_mem hvalid hmem hd hbreak _ _ _ hrefers

/-- The text of a sheet is the sheet as it shows, written rule by rule. This says what the config declares,
unless lines are moved in and break a name that is referred to; a reference that is broken is to no variable
that is declared. -/
theorem faithful_text_iff {config : Config} {policy : UnknownKeyPolicy} {table : VariableTable}
    (hvalid : config.validate = .ok ()) (htable : config.intern policy = .ok table)
    (hnames : table.HasDistinctNames) (layout : Layout) :
    (ofConfig config table).render layout = ((ofConfig config table).shown layout).write layout ∧
      (Faithful config ((ofConfig config table).shown layout)
          (fun b => (typography config table b).map (StyleRule.shown layout b))
          (fun b => (utilities config table b.mark).map (StyleRule.shown layout b)) ↔
        layout = .minified ∨ ¬ config.BreaksReferences) ∧
      (layout = .lines → ∀ rule ∈ ((ofConfig config table).shown layout).wide, ∀ d ∈ rule.declarations,
        '\n' ∈ d.value.toList → ∀ declared ∈ ((ofConfig config table).shown layout).rootDeclarations,
          d.value ≠ "var(" ++ declared.property ++ ")") := by
  have heq := Config.eq_ofConfig_of_intern htable
  subst heq
  refine ⟨render_eq_write layout _, ?_, ?_⟩
  · constructor
    · intro h
      cases layout with
      | minified => exact .inl rfl
      | lines => exact .inr (not_breaksReferences_of_faithful hvalid h)
    · intro h
      simp only [shown_typography h, shown_utilities h]
      exact faithful_shown hvalid hnames h
  · rintro rfl rule hrule d hd hbreak declared hdeclared
    exact ne_reference_of_mem hvalid hrule hd hbreak hdeclared

/-- Two classes with one weight, and one size at different breakpoints. -/
def sharingConfig : Config where
  brand := "tf"
  category := "typo"
  baseFontSize := 16
  breakpoints := ⟨"375px", "1024px"⟩
  classes := .ofList [
    ("h1", { ClassSpec.empty with
      fontWeight := some "700"
      mobile := some ⟨some "16px", some "1.5", .empty⟩
      desktop := some ⟨some "24px", none, .empty⟩ }),
    ("h2", { ClassSpec.empty with
      fontWeight := some "700"
      desktop := some ⟨some "16px", none, .empty⟩ })]
  fontFamilies := .empty
  spacing := .ofList [("sm", "8px")]
  colors := .ofList [("ink", "#111")]
  build := .default

theorem faithful_text_iff_sharing :
    sharingConfig.validate = .ok () ∧ sharingConfig.intern .ignore = .ok (.ofConfig sharingConfig) ∧
      ∀ layout : Layout,
        (ofConfig sharingConfig (.ofConfig sharingConfig)).render layout =
            ((ofConfig sharingConfig (.ofConfig sharingConfig)).shown layout).write layout ∧
          Faithful sharingConfig ((ofConfig sharingConfig (.ofConfig sharingConfig)).shown layout)
            (fun b => (typography sharingConfig (.ofConfig sharingConfig) b).map (StyleRule.shown layout b))
            (fun b =>
              (utilities sharingConfig (.ofConfig sharingConfig) b.mark).map (StyleRule.shown layout b)) := by
  have hvalid : sharingConfig.validate = .ok () := Config.validate_eq_ok (by decide +kernel)
  have htable : sharingConfig.intern .ignore = .ok (.ofConfig sharingConfig) := rfl
  have hnames : (VariableTable.ofConfig sharingConfig).HasDistinctNames := by decide +kernel
  have hunbroken : ¬ sharingConfig.BreaksReferences := by
    rintro (⟨hbrand, -⟩ | ⟨hline, -⟩)
    · exact absurd hbrand (by decide)
    · exact absurd hline (by decide)
  refine ⟨hvalid, htable, fun layout => ?_⟩
  have htext := faithful_text_iff hvalid htable hnames layout
  exact ⟨htext.1, htext.2.1.2 (.inr hunbroken)⟩

/-- A weight under a brand with a line feed. -/
def brokenConfig : Config where
  brand := "a\nb"
  category := "typo"
  baseFontSize := 16
  breakpoints := ⟨"375px", "1024px"⟩
  classes := .ofList [("h1", { ClassSpec.empty with fontWeight := some "700" })]
  fontFamilies := .empty
  spacing := .empty
  colors := .empty
  build := .default

/-- The rule from the desktop width on refers to a name with two more spaces than the one that is declared. -/
theorem broken_reference :
    brokenConfig.validate = .ok () ∧ brokenConfig.intern .ignore = .ok (.ofConfig brokenConfig) ∧
      (VariableTable.ofConfig brokenConfig).HasDistinctNames ∧
      (ofConfig brokenConfig (.ofConfig brokenConfig)).render .lines =
        "/*! tokenframe | a\nb-typo | generated, do not edit */\n\n" ++
          ":root \x7b\n  --a\nb-typo-font-weight-700: 700;\n\x7d\n\n" ++
          ".h1 \x7b\n  font-weight: var(--a\nb-typo-font-weight-700);\n\x7d\n\n" ++
          ".a\\\nb-container \x7b\n  width: 100%;\n  margin-inline: auto;\n\x7d\n\n" ++
          "@media (width >= 1024px) \x7b\n" ++
          "  .h1 \x7b\n    font-weight: var(--a\n  b-typo-font-weight-700);\n  \x7d\n\n" ++
          "  .a\\\n  b-container \x7b\n    max-width: 1024px;\n  \x7d\n\x7d\n" ∧
      ¬ Faithful brokenConfig ((ofConfig brokenConfig (.ofConfig brokenConfig)).shown .lines)
        (fun b => (typography brokenConfig (.ofConfig brokenConfig) b).map (StyleRule.shown .lines b))
        (fun b => (utilities brokenConfig (.ofConfig brokenConfig) b.mark).map (StyleRule.shown .lines b)) := by
  have hvalid : brokenConfig.validate = .ok () := Config.validate_eq_ok (by decide +kernel)
  have hnames : (VariableTable.ofConfig brokenConfig).HasDistinctNames := by decide +kernel
  refine ⟨hvalid, rfl, hnames, by decide +kernel, fun h => ?_⟩
  apply not_breaksReferences_of_faithful hvalid h
  exact .inr ⟨.inl (by decide), "h1", by decide⟩

end Stylesheet

end DesignTokens
