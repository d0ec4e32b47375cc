import DesignTokens.Proofs.InternedTable
import DesignTokens.Proofs.Naming.Labels
import DesignTokens.Proofs.StylesheetMeaning

/-!
# Names of different properties

The names of class properties go on with the category, those of flat tables with the word of the
table. Nothing keeps a category from reading like such a word, and then a key may complete the name of
another property's value. These are the only names that two properties share.
-/

namespace DesignTokens

/-! ## The words of properties -/

namespace Property

theorem nodup_wordHeads : (all.map (fun p => (p.cssProperty ++ "-").toList.take 6)).Nodup := by
  decide +kernel

theorem take_word_append (p : Property) (label : String) :
    (p.cssProperty ++ "-" ++ label).toList.take 6 = (p.cssProperty ++ "-").toList.take 6 := by
  have hlength : 6 ≤ (p.cssProperty ++ "-").toList.length := by
    cases p <;> decide
  rw [String.toList_append, List.take_append_of_le_length hlength]

/-- The word before a label tells the property. -/
theorem eq_of_word_eq {p q : Property} {label label' : String}
    (h : p.cssProperty ++ "-" ++ label = q.cssProperty ++ "-" ++ label') : p = q := by
  have hheads : (p.cssProperty ++ "-").toList.take 6 = (q.cssProperty ++ "-").toList.take 6 := by
    rw [← take_word_append p label, h, take_word_append]
  exact List.inj_on_of_nodup_map nodup_wordHeads (mem_all p) (mem_all q) hheads

theorem not_mem_dash {q : Property} (h : q.scope = .flat) : '-' ∉ q.cssProperty.toList := by
  cases q with
  | spacing | color => decide
  | _ => cases h

end Property

/-! ## Shared names -/

namespace Namer

variable {n : Namer} {p q : Property} {raw key : String}

/-- A class property's value and a key of a table get one name: the category ends, or goes on, after the
word of the table, and the key's label holds all that follows. -/
def Clash (n : Namer) (p : Property) (raw : String) (q : Property) (key : String) : Prop :=
  p.scope ≠ .flat ∧ q.scope = .flat ∧
    ((n.category = q.cssProperty ∧
        (n.label q key).text = p.cssProperty ++ "-" ++ (n.label p raw).text) ∨
      ∃ rest, n.category = q.cssProperty ++ "-" ++ rest ∧
        (n.label q key).text = rest ++ "-" ++ (p.cssProperty ++ "-" ++ (n.label p raw).text))

/-- The category is the word of a flat table, or goes on after it with a dash. -/
def BeginsFlat (n : Namer) : Prop :=
  ∃ q : Property, q.scope = .flat ∧
    (n.category = q.cssProperty ∨ ∃ rest, n.category = q.cssProperty ++ "-" ++ rest)

theorem Clash.beginsFlat (h : n.Clash p raw q key) : n.BeginsFlat := by
  obtain ⟨-, hq, ⟨hcategory, -⟩ | ⟨rest, hcategory, -⟩⟩ := h
  · exact ⟨q, hq, .inl hcategory⟩
  · exact ⟨q, hq, .inr ⟨rest, hcategory⟩⟩

theorem name_of_flat (h : q.scope = .flat) (key : String) :
    n.name q key = "--" ++ n.brand ++ "-" ++ (q.cssProperty ++ "-" ++ (n.label q key).text) := by
  rw [name_eq, stem, if_pos h]
  simp only [String.append_assoc]

theorem name_of_scoped (h : p.scope ≠ .flat) (raw : String) : n.name p raw =
    "--" ++ n.brand ++ "-" ++ (n.category ++ "-" ++ (p.cssProperty ++ "-" ++ (n.label p raw).text)) := by
  rw [name_eq, stem, if_neg h]
  simp only [String.append_assoc]

theorem name_eq_iff_clash (hp : p.scope ≠ .flat) (hq : q.scope = .flat) :
    n.name p raw = n.name q key ↔ n.Clash p raw q key := by
  rw [name_of_scoped hp, name_of_flat hq, String.append_right_inj, joined_eq_joined_iff (c := '-') (by rfl)]
  constructor
  · rintro (⟨hcategory, hlabel⟩ | ⟨rest, hword, -⟩ | ⟨rest, hcategory, hlabel⟩)
    · exact ⟨hp, hq, .inl ⟨hcategory, hlabel.symm⟩⟩
    · refine absurd ?_ (Property.not_mem_dash hq)
      simp [hword]
    · exact ⟨hp, hq, .inr ⟨rest, hcategory, hlabel⟩⟩
  · rintro ⟨-, -, ⟨hcategory, hlabel⟩ | ⟨rest, hcategory, hlabel⟩⟩
    · exact .inl ⟨hcategory, hlabel.symm⟩
    · exact .inr (.inr ⟨rest, hcategory, hlabel⟩)

/-- Two properties share a name by a clash of one with the other only. -/
theorem name_eq_iff_of_ne (hne : p ≠ q) {text text' : String} :
    n.name p text = n.name q text' ↔ n.Clash p text q text' ∨ n.Clash q text' p text := by
  by_cases hp : p.scope = .flat
  · by_cases hq : q.scope = .flat
    · rw [name_of_flat hp, name_of_flat hq, String.append_right_inj]
      constructor
      · exact fun h => absurd (Property.eq_of_word_eq h) hne
      · rintro (h | h)
        · exact absurd hp h.1
        · exact absurd hq h.1
    · rw [eq_comm, name_eq_iff_clash hq hp]
      exact ⟨.inr, fun h => h.resolve_left (fun hclash => hclash.1 hp)⟩
  · by_cases hq : q.scope = .flat
    · rw [name_eq_iff_clash hp hq]
      exact ⟨.inl, fun h => h.resolve_right (fun hclash => hclash.1 hq)⟩
    · rw [name_of_scoped hp, name_of_scoped hq, String.append_right_inj, String.append_right_inj]
      constructor
      · exact fun h => absurd (Property.eq_of_word_eq h) hne
      · rintro (h | h)
        · exact absurd h.2.1 hq
        · exact absurd h.2.1 hp

end Namer

/-! ## Tables -/

namespace VariableTable

/-- Variables of different properties have different names. -/
def PropertiesApart (table : VariableTable) : Prop :=
  ∀ v ∈ table.entries.toList, ∀ w ∈ table.entries.toList, v.property ≠ w.property → v.name ≠ w.name

/-- No variable gives way to one of another property. -/
structure KeepsProperties (config : Config) (table : VariableTable) : Prop where
  /-- What the root declares under the name of a variable are variables of its property. -/
  declared : ∀ v ∈ table.entries.toList,
    (Stylesheet.ofConfig config table).rootDeclarations.filter (fun d => d.property = v.name) =
      ((table.ofProperty v.property).filter (fun w => w.name = v.name)).map (fun w => ⟨w.name, w.value⟩)
  /-- The value under the name of a variable is that of a variable of its property. -/
  kept : ∀ v ∈ table.entries.toList, ∃ w ∈ table.ofProperty v.property,
    w.name = v.name ∧ table.valuesByName.get? v.name = some w.value

variable {config : Config} {policy : UnknownKeyPolicy} {table : VariableTable} {v : Variable}

theorem scope_of_get? {q : Property} {key raw : String} (h : (config.tableOf q).get? key = some raw) :
    q.scope = .flat := by
  cases q with
  | spacing | color => rfl
  | _ => cases h

/-- The name of a variable is made from a raw value that some class declares, or from a key. -/
theorem exists_text (hv : v ∈ (ofConfig config).entries.toList) :
    ∃ text, v.name = config.namer.name v.property text ∧
      (v.property.scope ≠ .flat → text ∈ config.rawsOf v.property) ∧
      (v.property.scope = .flat → text ∈ (config.tableOf v.property).keys) := by
  rcases mem_entries_ofConfig.1 hv with ⟨p, raw, hraw, rfl⟩ | ⟨q, key, raw, hkey, rfl⟩
  · refine ⟨raw, rfl, fun _ => hraw, fun hflat => ?_⟩
    have hscope : p.scope = .flat := hflat
    rw [Interning.rawsOf_eq_nil hscope] at hraw
    cases hraw
  · have hflat : q.scope = .flat := scope_of_get? hkey
    exact ⟨key, rfl, fun hscope => absurd hflat hscope, fun _ => SortedMap.mem_keys.2 ⟨raw, hkey⟩⟩

theorem propertiesApart_ofConfig : (ofConfig config).PropertiesApart ↔
    ∀ p, ∀ raw ∈ config.rawsOf p, ∀ q, ∀ key ∈ (config.tableOf q).keys,
      ¬ config.namer.Clash p raw q key := by
  constructor
  · intro hapart p raw hraw q key hkey hclash
    obtain ⟨value, hvalue⟩ := SortedMap.mem_keys.1 hkey
    have hne : p ≠ q := by
      rintro rfl
      exact hclash.1 hclash.2.1
    have hv := mem_entries_ofConfig.2 (.inl ⟨p, raw, hraw, rfl⟩)
    have hw := mem_entries_ofConfig.2 (.inr ⟨q, key, value, hvalue, rfl⟩)
    exact hapart _ hv _ hw hne ((Namer.name_eq_iff_clash hclash.1 hclash.2.1).2 hclash)
  · intro hfree v hv w hw hne hname
    obtain ⟨text, htext, hraw, hkey⟩ := exists_text hv
    obtain ⟨text', htext', hraw', hkey'⟩ := exists_text hw
    rw [htext, htext', Namer.name_eq_iff_of_ne hne] at hname
    rcases hname with hclash | hclash
    · exact hfree _ _ (hraw hclash.1) _ _ (hkey' hclash.2.1) hclash
    · exact hfree _ _ (hraw' hclash.1) _ _ (hkey hclash.2.1) hclash

/-- Some variable of each name has its value kept. -/
theorem exists_get?_valuesByName (hv : v ∈ table.entries.toList) :
    ∃ w ∈ table.entries.toList, w.name = v.name ∧ table.valuesByName.get? v.name = some w.value := by
  cases hget : table.valuesByName.get? v.name with
  | none => exact absurd hget (get?_valuesByName_ne_none hv)
  | some value =>
      obtain ⟨w, hw, hname, rfl⟩ := exists_of_get?_valuesByName hget
      exact ⟨w, hw, hname, rfl⟩

theorem PropertiesApart.property_eq (h : table.PropertiesApart) {w : Variable}
    (hv : v ∈ table.entries.toList) (hw : w ∈ table.entries.toList) (hname : w.name = v.name) :
    w.property = v.property := by
  by_contra hne
  exact h w hw v hv hne hname

theorem PropertiesApart.filter_byProperty (h : table.PropertiesApart) (hv : v ∈ table.entries.toList) :
    table.byProperty.filter (fun w => w.name = v.name) =
      (table.ofProperty v.property).filter (fun w => w.name = v.name) := by
  have hother : ∀ p, p ≠ v.property → (table.ofProperty p).filter (fun w => w.name = v.name) = [] := by
    intro p hne
    rw [List.filter_eq_nil_iff]
    intro w hw hname
    obtain ⟨hentry, rfl⟩ := mem_ofProperty.1 hw
    exact hne (h.property_eq hv hentry (of_decide_eq_true hname))
  -- Of the lists of the eight properties all but one are empty under this name.
  cases hp : v.property <;> rw [hp] at hother <;> simp [byProperty, Property.all, hother]

theorem PropertiesApart.keepsProperties (h : table.PropertiesApart) (config : Config) :
    table.KeepsProperties config where
  declared := by
    intro v hv
    rw [Stylesheet.rootDeclarations_ofConfig, List.filter_map, ← h.filter_byProperty hv]
    rfl
  kept := by
    intro v hv
    obtain ⟨w, hw, hname, hvalue⟩ := exists_get?_valuesByName hv
    exact ⟨w, mem_ofProperty.2 ⟨hw, h.property_eq hv hw hname⟩, hname, hvalue⟩

/-- Properties share names exactly by clashes of a declared value with a key, which need a category that
begins like the names of a table. Without them every variable stays on the root and among the values. -/
theorem propertiesApart_iff (h : config.intern policy = .ok table) :
    (table.PropertiesApart ↔ ∀ p, ∀ raw ∈ config.rawsOf p, ∀ q, ∀ key ∈ (config.tableOf q).keys,
      ¬ config.namer.Clash p raw q key) ∧
    (¬ config.namer.BeginsFlat → table.PropertiesApart) ∧
    (table.PropertiesApart → table.KeepsProperties config) := by
  have htable := Config.eq_ofConfig_of_intern h
  subst htable
  refine ⟨propertiesApart_ofConfig, ?_, fun hapart => hapart.keepsProperties config⟩
  intro hbegins
  exact propertiesApart_ofConfig.2 (fun _ _ _ _ _ _ hclash => hbegins hclash.beginsFlat)

theorem propertiesApart_iff_repeating :
    ¬ repeatingConfig.namer.BeginsFlat ∧ (ofConfig repeatingConfig).PropertiesApart ∧
      (ofConfig repeatingConfig).KeepsProperties repeatingConfig := by
  have hbegins : ¬ repeatingConfig.namer.BeginsFlat := by
    rintro ⟨q, hq, hword⟩
    have hcategory : repeatingConfig.namer.category = "typo" := rfl
    rw [hcategory] at hword
    cases q with
    | spacing | color =>
        rcases hword with hword | ⟨rest, hword⟩
        · exact absurd hword (by decide)
        · have hhead := congrArg (fun text => text.toList.head?) hword
          simp [Property.cssProperty, Property.rule] at hhead
    | _ => cases hq
  have htable : repeatingConfig.intern .ignore = .ok (.ofConfig repeatingConfig) := rfl
  obtain ⟨-, hapart, hkeeps⟩ := propertiesApart_iff htable
  exact ⟨hbegins, hapart hbegins, hkeeps (hapart hbegins)⟩

/-- The category is the word of spacings, and a spacing is named like a weight. -/
def clashingConfig : Config where
  brand := "tf"
  category := "spacing"
  baseFontSize := 16
  breakpoints := ⟨"375px", "1024px"⟩
  classes := .ofList [("h1", { ClassSpec.empty with fontWeight := some "700" })]
  fontFamilies := .empty
  spacing := .ofList [("fontWeight-700", "8px")]
  colors := .empty
  build := .default

theorem clashing_properties :
    clashingConfig.validate = .ok () ∧ ∃ table, clashingConfig.intern .ignore = .ok table ∧
      (∃ v ∈ table.entries.toList, ∃ w ∈ table.entries.toList, v.property ≠ w.property ∧ v.name = w.name) ∧
      table.valuesByName.keys.length < table.size := by
  have hok : clashingConfig.validate.isOk = true := by decide +kernel
  have hvalid : clashingConfig.validate = .ok () := by
    cases h : clashingConfig.validate with
    | error fault =>
        rw [h] at hok
        cases hok
    | ok _ => rfl
  refine ⟨hvalid, .ofConfig clashingConfig, rfl, ?_, by decide +kernel⟩
  decide +kernel

end VariableTable

end DesignTokens
