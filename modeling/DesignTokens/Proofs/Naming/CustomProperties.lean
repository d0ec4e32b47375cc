import DesignTokens.Proofs.Css.Identifiers
import DesignTokens.Proofs.Naming.Properties

/-!
# Names as custom properties

CSS lets a custom property be named by two dashes and characters of names. Labels are made of such
characters, whatever the values, keys and aliases; the brand and the category stand in names as they are,
and decide whether a name is one that CSS can read.
-/

namespace DesignTokens

/-- Two dashes and characters of names. -/
def Css.IsCustomProperty (text : String) : Prop :=
  ∃ rest, text = "--" ++ rest ∧ ∀ c ∈ rest.toList, Css.isName c

/-! ## Labels -/

theorem Css.isName_of_isPlainChar {c : Char} (h : Fragment.isPlainChar c) : Css.isName c := by
  simp only [Fragment.isPlainChar, Bool.or_eq_true, decide_eq_true_eq] at h
  simp only [Css.isName, Css.isNameStart_eq, Bool.or_eq_true, decide_eq_true_eq]
  rcases h with (hlower | hdigit) | hdash
  · exact .inl (.inl (.inl (.inl (.inr hlower))))
  · exact .inl (.inr hdigit)
  · exact .inr hdash

theorem Css.isName_of_isHexDigit {c : Char} (h : Fragment.isHexDigit c) : Css.isName c := by
  apply Css.isName_of_isPlainChar
  simp only [Fragment.isHexDigit, Bool.or_eq_true, Bool.and_eq_true, decide_eq_true_eq] at h
  simp only [Fragment.isPlainChar, Bool.or_eq_true, decide_eq_true_eq]
  rcases h with hdigit | ⟨hfirst, hlast⟩
  · exact .inl (.inr hdigit)
  · have hz : c ≤ 'z' := Char.le_trans hlast (by decide)
    exact .inl (.inl (Bool.and_eq_true_iff.2 ⟨decide_eq_true hfirst, decide_eq_true hz⟩))

/-- A label holds only characters of names, marked or not. -/
theorem Label.isName_of_mem_text {label : Label} {c : Char} (h : c ∈ label.text.toList) : Css.isName c := by
  cases howned : label.owned with
  | true =>
      rw [Label.text_of_owned howned] at h
      exact Css.isName_of_isPlainChar (label.plain c h)
  | false =>
      rw [Label.text_of_not_owned howned, Fragment.toList_marked, List.mem_append, List.mem_cons] at h
      rcases h with hfragment | rfl | hmark
      · exact Css.isName_of_isPlainChar (label.plain c hfragment)
      · decide
      · exact Css.isName_of_isHexDigit (Fragment.isHexDigit_of_mem_mark hmark)

/-! ## Names -/

theorem Css.isCustomProperty_iff {text : String} :
    Css.IsCustomProperty ("--" ++ text) ↔ ∀ c ∈ text.toList, Css.isName c := by
  constructor
  · rintro ⟨rest, heq, hrest⟩
    rw [String.append_right_inj] at heq
    exact heq ▸ hrest
  · intro h
    exact ⟨text, rfl, h⟩

theorem Css.forall_isName_dash_append {text : String} :
    (∀ c ∈ ("-" ++ text).toList, Css.isName c) ↔ ∀ c ∈ text.toList, Css.isName c := by
  rw [String.toList_append, List.forall_mem_append]
  exact and_iff_right (List.all_eq_true.1 (by decide))

namespace Namer

variable {n : Namer} {p : Property} {text : String}

/-- What follows the brand, and the category if the name has one. -/
theorem isName_of_mem_word {c : Char} (h : c ∈ (p.cssProperty ++ "-" ++ (n.label p text).text).toList) :
    Css.isName c := by
  rw [String.append_assoc, String.toList_append, List.mem_append] at h
  rcases h with hword | hlabel
  · have hall : p.cssProperty.toList.all Css.isName := by
      cases p <;> decide
    exact List.all_eq_true.1 hall c hword
  · exact Css.forall_isName_dash_append.2 (fun c => Label.isName_of_mem_text) c hlabel

/-- Only the brand and the category can hold anything that is not for names. -/
theorem isCustomProperty_name_iff : Css.IsCustomProperty (n.name p text) ↔
    (∀ c ∈ n.brand.toList, Css.isName c) ∧
      (p.scope ≠ .flat → ∀ c ∈ n.category.toList, Css.isName c) := by
  have hword : ∀ c ∈ (p.cssProperty ++ "-" ++ (n.label p text).text).toList, Css.isName c :=
    fun c => isName_of_mem_word
  by_cases hscope : p.scope = .flat
  · rw [name_of_flat hscope, String.append_assoc, String.append_assoc, Css.isCustomProperty_iff,
      String.toList_append, List.forall_mem_append, Css.forall_isName_dash_append]
    exact and_congr_right (fun _ => ⟨fun _ hscoped => absurd hscope hscoped, fun _ => hword⟩)
  · rw [name_of_scoped hscope, String.append_assoc, String.append_assoc, Css.isCustomProperty_iff,
      String.toList_append, List.forall_mem_append, Css.forall_isName_dash_append, String.append_assoc,
      String.toList_append, List.forall_mem_append, Css.forall_isName_dash_append]
    exact and_congr_right (fun _ => ⟨fun hall _ => hall.1, fun hcategory => ⟨hcategory hscope, hword⟩⟩)

end Namer

/-! ## Tables -/

namespace VariableTable

/-- The name of a variable is that of a custom property, whatever is declared, if and only if the brand and,
but for flat tables, the category are made of characters of names. -/
theorem customProperty_iff {config : Config} {policy : UnknownKeyPolicy} {table : VariableTable}
    (h : config.intern policy = .ok table) {v : Variable} (hv : v ∈ table.entries.toList) :
    Css.IsCustomProperty v.name ↔ (∀ c ∈ config.brand.toList, Css.isName c) ∧
      (v.property.scope ≠ .flat → ∀ c ∈ config.category.toList, Css.isName c) := by
  have htable := Config.eq_ofConfig_of_intern h
  subst htable
  obtain ⟨text, hname, -, -⟩ := exists_text hv
  rw [hname]
  exact Namer.isCustomProperty_name_iff

/-- A key of a flat table with a blank and a brace. -/
def bracedConfig : Config where
  brand := "tf"
  category := "typo"
  baseFontSize := 16
  breakpoints := ⟨"375px", "1024px"⟩
  classes := .empty
  fontFamilies := .empty
  spacing := .ofList [("a \x7b", "8px")]
  colors := .empty
  build := .default

theorem customProperty_iff_braced :
    bracedConfig.intern .ignore = .ok (.ofConfig bracedConfig) ∧
      ∃ v ∈ (ofConfig bracedConfig).entries.toList,
        v.name = bracedConfig.namer.name .spacing "a \x7b" ∧ Css.IsCustomProperty v.name := by
  have htable : bracedConfig.intern .ignore = .ok (.ofConfig bracedConfig) := rfl
  have hentry : ∃ v ∈ (ofConfig bracedConfig).entries.toList,
      v.name = bracedConfig.namer.name .spacing "a \x7b" := by decide +kernel
  obtain ⟨v, hv, hname⟩ := hentry
  have hbrand : bracedConfig.brand.toList.all Css.isName := by decide
  have hcategory : bracedConfig.category.toList.all Css.isName := by decide
  exact ⟨htable, v, hv, hname, (customProperty_iff htable hv).2
    ⟨List.all_eq_true.1 hbrand, fun _ => List.all_eq_true.1 hcategory⟩⟩

/-- A brand of two words. -/
def spacedConfig : Config :=
  { bracedConfig with brand := "my brand", spacing := .ofList [("sm", "8px")] }

theorem broken_customProperty :
    spacedConfig.validate = .ok () ∧ ∃ table, spacedConfig.intern .ignore = .ok table ∧
      ∃ v ∈ table.entries.toList, ¬ Css.IsCustomProperty v.name := by
  have hentry : ∃ v ∈ (ofConfig spacedConfig).entries.toList,
      v.name = "--" ++ "my brand-spacing-sm" := by decide +kernel
  obtain ⟨v, hv, hname⟩ := hentry
  refine ⟨Config.validate_eq_ok (by decide +kernel), .ofConfig spacedConfig, rfl, v, hv, ?_⟩
  rw [hname, Css.isCustomProperty_iff]
  intro hall
  exact absurd (hall ' ' (by decide)) (by decide)

end VariableTable

end DesignTokens
