import DesignTokens.Proofs.Naming.Labels
import DesignTokens.Proofs.Stylesheet.ClassSelectors
import DesignTokens.Proofs.StylesheetMeaning

/-!
# Utility classes

The class of a utility and a key ends in the slug of the key. It tells the utility, but of the keys only
what their slugs keep: two keys of one table with one slug share all their utility classes.
-/

namespace DesignTokens

namespace Utility

/-! ## Names of utilities -/

theorem nodup_names : ((spacing ++ color).map (·.name)).Nodup := by
  decide

theorem not_mem_dash_name {utility : Utility} (h : utility ∈ spacing ++ color) :
    '-' ∉ utility.name.toList := by
  have hall : ∀ u ∈ spacing ++ color, '-' ∉ u.name.toList := by decide
  exact hall utility h

/-- The class of a utility tells it, and the slug of the key. -/
theorem className_eq_iff {utility other : Utility} (h : utility ∈ spacing ++ color)
    (hother : other ∈ spacing ++ color) (brand : String) (mark : Option Breakpoint) {key key' : String} :
    utility.className brand mark key = other.className brand mark key' ↔
      utility = other ∧ Slug.slugify key = Slug.slugify key' := by
  unfold className
  simp only [String.append_assoc, String.append_right_inj]
  rw [← String.append_assoc, ← String.append_assoc, joined_eq_joined_iff (c := '-') (by rfl)]
  constructor
  · rintro (⟨hname, hslug⟩ | ⟨rest, hname, -⟩ | ⟨rest, hname, -⟩)
    · exact ⟨List.inj_on_of_nodup_map nodup_names h hother hname, hslug⟩
    · exact absurd (by simp [hname]) (not_mem_dash_name hother)
    · exact absurd (by simp [hname]) (not_mem_dash_name h)
  · rintro ⟨rfl, hslug⟩
    exact .inl ⟨rfl, hslug⟩

/-- The selector of the rule for a key, as it is written. -/
def selectorText (utility : Utility) (brand : String) (mark : Option Breakpoint) (key : String) : String :=
  (Selector.className (utility.className brand mark key)).text

theorem selectorText_eq_iff {utility other : Utility} (h : utility ∈ spacing ++ color)
    (hother : other ∈ spacing ++ color) (brand : String) (mark : Option Breakpoint) {key key' : String} :
    utility.selectorText brand mark key = other.selectorText brand mark key' ↔
      utility = other ∧ Slug.slugify key = Slug.slugify key' := by
  rw [← className_eq_iff h hother brand mark]
  constructor
  · intro htext
    exact Selector.className.inj (Selector.text_injective htext)
  · intro hname
    rw [selectorText, selectorText, hname]

end Utility

/-! ## The rules of a sheet -/

/-- How the rule for a use of a utility is selected. -/
def UtilityUse.selectorText (use : UtilityUse) (brand : String) (mark : Option Breakpoint) : String :=
  use.utility.selectorText brand mark use.key

theorem UtilityUse.utility_mem {utilities : List Utility} {p : Property} {values : SortedMap String}
    {use : UtilityUse} (h : use ∈ UtilityUse.all utilities p values) : use.utility ∈ utilities := by
  obtain ⟨utility, hutility, huse⟩ := List.mem_flatMap.1 h
  obtain ⟨entry, -, rfl⟩ := List.mem_map.1 huse
  exact hutility

theorem utility_mem_of_mem_utilityUses {config : Config} {use : UtilityUse} (h : use ∈ config.utilityUses) :
    use.utility ∈ Utility.spacing ++ Utility.color := by
  rcases List.mem_append.1 h with hspacing | hcolor
  · exact List.mem_append_left _ (UtilityUse.utility_mem hspacing)
  · exact List.mem_append_right _ (UtilityUse.utility_mem hcolor)

theorem map_selectorText_all (utilities : List Utility) (p : Property) (values : SortedMap String)
    (brand : String) (mark : Option Breakpoint) :
    (UtilityUse.all utilities p values).map (fun use => use.selectorText brand mark) =
      utilities.flatMap (fun utility => values.keys.map (utility.selectorText brand mark)) := by
  simp only [UtilityUse.all, SortedMap.keys, List.map_flatMap, List.map_map]
  rfl

section

variable {utilities : List Utility} (hsubset : utilities ⊆ Utility.spacing ++ Utility.color)

include hsubset

/-- The utilities of one table tell its keys apart as far as the slugs do. -/
theorem nodup_selectorTexts_iff (hnodup : utilities.Nodup) (hne : utilities ≠ []) (p : Property)
    (values : SortedMap String) (brand : String) (mark : Option Breakpoint) :
    ((UtilityUse.all utilities p values).map (fun use => use.selectorText brand mark)).Nodup ↔
      (values.keys.map Slug.slugify).Nodup := by
  have hkeys : ∀ utility ∈ utilities,
      (values.keys.map (utility.selectorText brand mark)).Nodup ↔ (values.keys.map Slug.slugify).Nodup := by
    intro utility hmem
    have htext : ∀ key key', utility.selectorText brand mark key = utility.selectorText brand mark key' ↔
        Slug.slugify key = Slug.slugify key' := by
      intro key key'
      rw [Utility.selectorText_eq_iff (hsubset hmem) (hsubset hmem)]
      simp
    simp only [List.Nodup, List.pairwise_map, ne_eq, htext]
  rw [map_selectorText_all, List.nodup_flatMap]
  constructor
  · rintro ⟨heach, -⟩
    obtain ⟨utility, hmem⟩ := List.exists_mem_of_ne_nil utilities hne
    exact (hkeys utility hmem).1 (heach utility hmem)
  · intro hslugs
    refine ⟨fun utility hmem => (hkeys utility hmem).2 hslugs, ?_⟩
    -- Classes of different utilities differ, whatever the keys.
    refine hnodup.imp_of_mem ?_
    intro utility other hmem hother hdifferent text hfirst hsecond
    obtain ⟨key, -, rfl⟩ := List.mem_map.1 hfirst
    obtain ⟨key', -, heq⟩ := List.mem_map.1 hsecond
    rw [Utility.selectorText_eq_iff (hsubset hother) (hsubset hmem)] at heq
    exact hdifferent heq.1.symm

end

theorem selectors_utilities (config : Config) (mark : Option Breakpoint) :
    (Stylesheet.utilities config (.ofConfig config) mark).map (fun rule => rule.selector.text) =
      config.utilityUses.map (fun use => use.selectorText config.brand mark) := by
  rw [Stylesheet.utilities_eq_map, List.map_map]
  rfl

/-- The selectors of spacings and those of colors are different. -/
theorem nodup_selectors_append_iff (config : Config) (mark : Option Breakpoint) :
    (config.utilityUses.map (fun use => use.selectorText config.brand mark)).Nodup ↔
      ((UtilityUse.all Utility.spacing .spacing config.spacing).map
        (fun use => use.selectorText config.brand mark)).Nodup ∧
      ((UtilityUse.all Utility.color .color config.colors).map
        (fun use => use.selectorText config.brand mark)).Nodup := by
  rw [Config.utilityUses, List.map_append, List.nodup_append]
  constructor
  · rintro ⟨hspacing, hcolor, -⟩
    exact ⟨hspacing, hcolor⟩
  · rintro ⟨hspacing, hcolor⟩
    refine ⟨hspacing, hcolor, ?_⟩
    intro text htext other hother heq
    obtain ⟨use, huse, rfl⟩ := List.mem_map.1 htext
    obtain ⟨use', huse', rfl⟩ := List.mem_map.1 hother
    have hutility := UtilityUse.utility_mem huse
    have hutility' := UtilityUse.utility_mem huse'
    have hsame := ((Utility.selectorText_eq_iff (List.mem_append_left _ hutility)
      (List.mem_append_right _ hutility') config.brand mark).1 heq).1
    have hdisjoint : ∀ utility ∈ Utility.spacing, utility ∉ Utility.color := by decide
    exact hdisjoint _ hutility (hsame ▸ hutility')

/-- In each part of a sheet the rules of utilities have different selectors exactly if the keys of each
table have different slugs; two uses share a selector if they are of one utility and of keys with one
slug. -/
theorem utility_selectors_nodup_iff {config : Config} {policy : UnknownKeyPolicy} {table : VariableTable}
    (h : config.intern policy = .ok table) (b : Breakpoint) :
    (((Stylesheet.utilities config table b.mark).map (fun rule => rule.selector.text)).Nodup ↔
      (config.spacing.keys.map Slug.slugify).Nodup ∧ (config.colors.keys.map Slug.slugify).Nodup) ∧
    ∀ use ∈ config.utilityUses, ∀ other ∈ config.utilityUses,
      use.selectorText config.brand b.mark = other.selectorText config.brand b.mark ↔
        use.utility = other.utility ∧ Slug.slugify use.key = Slug.slugify other.key := by
  have htable := Config.eq_ofConfig_of_intern h
  subst htable
  constructor
  · rw [selectors_utilities, nodup_selectors_append_iff,
      nodup_selectorTexts_iff (List.subset_append_left _ _) (by decide) (by decide),
      nodup_selectorTexts_iff (List.subset_append_right _ _) (by decide) (by decide)]
  · intro use huse other hother
    exact Utility.selectorText_eq_iff (utility_mem_of_mem_utilityUses huse)
      (utility_mem_of_mem_utilityUses hother) config.brand b.mark

/-- A spacing and a color of one key, and a color in camel case. -/
def paletteConfig : Config where
  brand := "tf"
  category := "typo"
  baseFontSize := 16
  breakpoints := ⟨"375px", "1024px"⟩
  classes := .empty
  fontFamilies := .empty
  spacing := .ofList [("gray-100", "24px")]
  colors := .ofList [("brandPrimary", "#05f"), ("gray-100", "#eee")]
  build := .default

theorem utility_selectors_nodup_iff_palette :
    paletteConfig.intern .ignore = .ok (.ofConfig paletteConfig) ∧
      ((Stylesheet.utilities paletteConfig (.ofConfig paletteConfig) (some .desktop)).map
        (fun rule => rule.selector.text)).Nodup := by
  have htable : paletteConfig.intern .ignore = .ok (.ofConfig paletteConfig) := rfl
  exact ⟨htable, (utility_selectors_nodup_iff htable .desktop).1.2 (by decide +kernel)⟩

/-- The color in camel case again, in kebab case. -/
def mergingConfig : Config :=
  { paletteConfig with colors := .ofList [("brand-primary", "#0af"), ("brandPrimary", "#05f")] }

/-- Two colors with variables of their own share their utility classes. -/
theorem merged_utilities :
    mergingConfig.validate = .ok () ∧
      ∃ use ∈ mergingConfig.utilityUses, ∃ other ∈ mergingConfig.utilityUses,
        use.key ≠ other.key ∧ use.selectorText "tf" none = other.selectorText "tf" none ∧
          mergingConfig.namer.name use.property use.key ≠
            mergingConfig.namer.name other.property other.key := by
  refine ⟨Config.validate_eq_ok (by decide +kernel), ?_⟩
  decide +kernel

end DesignTokens
