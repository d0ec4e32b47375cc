import DesignTokens.Proofs.Changes.Keys
import DesignTokens.Proofs.Naming.Properties

/-!
# Edits of one class

Between configs that differ in one class only, what is reported are the properties of that class that
changed, and the variables of the values that it is the first to declare. All other variables are made
from the same texts as before, in whatever order the tables list them.
-/

namespace DesignTokens

/-! ## What variables are made from -/

namespace Config

/-- The texts that variables are named after: the declared values and the keys of the tables. -/
def texts (config : Config) : List (Property × String) :=
  config.declarations ++ config.spacing.keys.map (fun key => (.spacing, key)) ++
    config.colors.keys.map (fun key => (.color, key))

/-- The config has a variable that is named after the text and holds the raw value. -/
def Asks (config : Config) (p : Property) (text raw : String) : Prop :=
  ((p, raw) ∈ config.declarations ∧ raw = text) ∨ (config.tableOf p).get? text = some raw

variable {config other : Config} {p q : Property} {text raw : String}

theorem mem_declarations : (p, raw) ∈ config.declarations ↔ raw ∈ config.rawsOf p := by
  simp [Interning.rawsOf_eq, Interning.rawAt?]

theorem mem_texts : (p, text) ∈ config.texts ↔ ∃ raw, config.Asks p text raw := by
  have hkeys : (∃ raw, (config.tableOf p).get? text = some raw) ↔
      (text ∈ config.spacing.keys ∧ p = .spacing) ∨ (text ∈ config.colors.keys ∧ p = .color) := by
    rw [← SortedMap.mem_keys]
    cases p <;> simp [tableOf, SortedMap.keys, SortedMap.empty]
  simp only [Asks, exists_or, exists_eq_right, hkeys, texts, List.mem_append, List.mem_map, Prod.mk.injEq,
    or_assoc, exists_eq_right_right, eq_comm (b := p)]

/-- What a slot can hold is no key of a table. -/
theorem mem_texts_slot {slot : Slot} : (slot.property, raw) ∈ config.texts ↔
    (slot.property, raw) ∈ config.declarations := by
  have hempty : config.tableOf slot.property = .empty := by cases slot <;> rfl
  simp [mem_texts, Asks, hempty]

theorem mem_texts_of_slotValue? {name : String} {slot : Slot}
    (h : Changes.slotValue? config.classes name slot = some raw) : (slot.property, raw) ∈ config.texts := by
  obtain ⟨spec, hspec, hvalue⟩ := Option.bind_eq_some_iff.1 h
  rw [mem_texts_slot, mem_declarations]
  exact Interning.mem_rawsOf.2 ⟨name, spec, slot, hspec, hvalue, rfl⟩

theorem mem_entries_iff {v : Variable} : v ∈ (VariableTable.ofConfig config).entries.toList ↔
    ∃ p text raw, config.Asks p text raw ∧ config.variableFor p text raw = v := by
  rw [VariableTable.mem_entries_ofConfig]
  constructor
  · rintro (⟨p, raw, hraw, rfl⟩ | ⟨q, key, raw, hkey, rfl⟩)
    · exact ⟨p, raw, raw, .inl ⟨mem_declarations.2 hraw, rfl⟩, rfl⟩
    · exact ⟨q, key, raw, .inr hkey, rfl⟩
  · rintro ⟨p, text, raw, ⟨hraw, rfl⟩ | hkey, rfl⟩
    · exact .inl ⟨p, raw, mem_declarations.1 hraw, rfl⟩
    · exact .inr ⟨p, text, raw, hkey, rfl⟩

/-- With the same tables a text stands for the same raw value. -/
theorem Asks.raw_eq (htables : ∀ p, config.tableOf p = other.tableOf p) {raw' : String}
    (h : config.Asks p text raw) (h' : other.Asks p text raw') : raw = raw' := by
  have hapart : ∀ {config other : Config} {found value : String}, (p, found) ∈ config.declarations →
      (other.tableOf p).get? text ≠ some value := by
    intro config other found value hfound hkey
    rw [mem_declarations, Interning.rawsOf_eq_nil (VariableTable.scope_of_get? hkey)] at hfound
    cases hfound
  rcases h with ⟨hdeclared, rfl⟩ | hkey
  · rcases h' with ⟨-, rfl⟩ | hkey'
    · rfl
    · exact absurd hkey' (hapart hdeclared)
  · rcases h' with ⟨hdeclared', -⟩ | hkey'
    · exact absurd hkey (hapart hdeclared')
    · rw [htables, hkey'] at hkey
      exact (Option.some.inj hkey).symm

end Config

/-! ## Variables of one config -/

/-- Texts that get the same name are the same, with their properties. -/
def Namer.Separates (n : Namer) (texts : List (Property × String)) : Prop :=
  ∀ a ∈ texts, ∀ b ∈ texts, n.name a.1 a.2 = n.name b.1 b.2 → a = b

instance (n : Namer) (texts : List (Property × String)) : Decidable (n.Separates texts) :=
  inferInstanceAs (Decidable (∀ a ∈ texts, ∀ b ∈ texts, n.name a.1 a.2 = n.name b.1 b.2 → a = b))

namespace Config

variable {config : Config} {texts : List (Property × String)} {p : Property} {text raw : String}

theorem Asks.of_name_eq (hnames : config.namer.Separates texts) (htexts : ∀ a ∈ config.texts, a ∈ texts)
    (hmem : (p, text) ∈ texts) {v : Variable} (hv : v ∈ (VariableTable.ofConfig config).entries.toList)
    (hname : v.name = config.namer.name p text) :
    ∃ raw, config.Asks p text raw ∧ config.variableFor p text raw = v := by
  obtain ⟨q, other, raw, hasks, rfl⟩ := mem_entries_iff.1 hv
  have hown : (q, other) ∈ texts := htexts _ (mem_texts.2 ⟨raw, hasks⟩)
  have heq := hnames (q, other) hown (p, text) hmem hname
  cases heq
  exact ⟨raw, hasks, rfl⟩

theorem Asks.get?_valuesByName (hnames : config.namer.Separates texts)
    (htexts : ∀ a ∈ config.texts, a ∈ texts) (h : config.Asks p text raw) :
    (VariableTable.ofConfig config).valuesByName.get? (config.namer.name p text) =
      some (Variable.transformed config p raw) := by
  have hv : config.variableFor p text raw ∈ (VariableTable.ofConfig config).entries.toList :=
    mem_entries_iff.2 ⟨p, text, raw, h, rfl⟩
  obtain ⟨w, hw, hname, hvalue⟩ := VariableTable.exists_get?_valuesByName hv
  obtain ⟨raw', hasks, rfl⟩ := of_name_eq hnames htexts (htexts _ (mem_texts.2 ⟨raw, h⟩)) hw hname
  rw [h.raw_eq (fun _ => rfl) hasks]
  exact hvalue

theorem get?_valuesByName_eq_none (hnames : config.namer.Separates texts)
    (htexts : ∀ a ∈ config.texts, a ∈ texts) (hmem : (p, text) ∈ texts) (h : (p, text) ∉ config.texts) :
    (VariableTable.ofConfig config).valuesByName.get? (config.namer.name p text) = none := by
  cases hget : (VariableTable.ofConfig config).valuesByName.get? (config.namer.name p text) with
  | none => rfl
  | some value =>
      obtain ⟨v, hv, hname, -⟩ := VariableTable.exists_of_get?_valuesByName hget
      obtain ⟨raw, hasks, -⟩ := Asks.of_name_eq hnames htexts hmem hv hname
      exact absurd (mem_texts.2 ⟨raw, hasks⟩) h

end Config

namespace Changes

/-- No name of a variable reads like the key of a slot. -/
theorem slotKey_ne_variableKey (n : Namer) (name : String) (slot : Slot) (p : Property) (text : String) :
    slotKey name slot ≠ variableKey (n.name p text) := by
  intro heq
  have hnamed : (Leaf.value (n.name p text)).IsNamed n := ⟨p, text, rfl⟩
  rw [slotKey_eq] at heq
  rcases (Leaf.slot_key_eq_key_iff hnamed).1 heq with heq | hconfused
  · cases heq
  · exact hconfused

end Changes

/-! ## Edits -/

/-- The configs differ at most in one class, which is there now. -/
structure EditsClass (edited : String) (current previous : Config) : Prop where
  brand : current.brand = previous.brand
  category : current.category = previous.category
  baseFontSize : current.baseFontSize = previous.baseFontSize
  breakpoints : current.breakpoints = previous.breakpoints
  fontFamilies : current.fontFamilies = previous.fontFamilies
  spacing : current.spacing = previous.spacing
  colors : current.colors = previous.colors
  others : ∀ name, name ≠ edited → current.classes.get? name = previous.classes.get? name
  present : current.classes.contains edited = true

/-- The keys of what changes with the class: its properties whose values differ, and the variables of its
values that no class declared before. -/
def EditKey (edited : String) (current previous : Config) (key : String) : Prop :=
  (∃ slot, Changes.slotValue? current.classes edited slot ≠
      Changes.slotValue? previous.classes edited slot ∧ Changes.slotKey edited slot = key) ∨
    ∃ slot raw, Changes.slotValue? current.classes edited slot = some raw ∧
      (slot.property, raw) ∉ previous.declarations ∧
      Changes.variableKey (current.namer.name slot.property raw) = key

theorem not_editKey_of_ne {edited name : String} {current previous : Config} (hname : name ≠ edited)
    (slot : Slot) : ¬ EditKey edited current previous (Changes.slotKey name slot) := by
  rintro (⟨own, -, hkey⟩ | ⟨own, raw, -, -, hkey⟩)
  · rw [Changes.slotKey_eq, Changes.slotKey_eq] at hkey
    cases Leaf.slot_key_eq_slot_key hkey
    exact hname rfl
  · exact Changes.slotKey_ne_variableKey _ _ _ _ _ hkey.symm

namespace EditsClass

variable {edited : String} {current previous : Config} (h : EditsClass edited current previous)
include h

theorem namer_eq : current.namer = previous.namer := by
  rw [Config.namer, Config.namer, h.brand, h.category, h.fontFamilies]

theorem tableOf_eq (p : Property) : current.tableOf p = previous.tableOf p := by
  cases p with
  | spacing => exact h.spacing
  | color => exact h.colors
  | _ => rfl

theorem transformed_eq (p : Property) (raw : String) :
    Variable.transformed current p raw = Variable.transformed previous p raw := by
  rw [Variable.transformed, Variable.transformed, h.baseFontSize]

theorem slotValue?_eq {name : String} (hname : name ≠ edited) (slot : Slot) :
    Changes.slotValue? current.classes name slot = Changes.slotValue? previous.classes name slot := by
  rw [Changes.slotValue?, Changes.slotValue?, h.others name hname]

/-- Just the edited class can declare what nothing declared before. -/
theorem exists_slot_of_new {p : Property} {text raw : String} (hasks : current.Asks p text raw)
    (hnew : (p, text) ∉ previous.texts) :
    ∃ slot, slot.property = p ∧ Changes.slotValue? current.classes edited slot = some text := by
  have hnone : ∀ raw, ¬ previous.Asks p text raw := fun raw hasks => hnew (Config.mem_texts.2 ⟨raw, hasks⟩)
  rcases hasks with ⟨hdeclared, rfl⟩ | hkey
  · obtain ⟨name, spec, slot, hspec, hvalue, rfl⟩ := Interning.mem_rawsOf.1 (Config.mem_declarations.1 hdeclared)
    have hslot : Changes.slotValue? current.classes name slot = some raw := by
      rw [Changes.slotValue?, hspec]
      exact hvalue
    by_cases hname : name = edited
    · exact ⟨slot, rfl, hname ▸ hslot⟩
    · rw [h.others name hname] at hspec
      have hbefore := Interning.mem_rawsOf.2 ⟨name, spec, slot, hspec, hvalue, rfl⟩
      exact absurd (.inl ⟨Config.mem_declarations.2 hbefore, rfl⟩) (hnone raw)
  · rw [h.tableOf_eq] at hkey
    exact absurd (.inr hkey) (hnone raw)

/-- The value of a variable is reported if its text is new. -/
theorem differs_value_iff (hnames : current.namer.Separates (current.texts ++ previous.texts))
    {onRemovedClass : RemovedClassPolicy} {name : String} :
    Changes.Differs onRemovedClass (.capture current (.ofConfig current))
        (.capture previous (.ofConfig previous)) (.value name) ↔
      ∃ p text, (p, text) ∈ current.texts ∧ (p, text) ∉ previous.texts ∧ current.namer.name p text = name := by
  have hcurrent : ∀ a ∈ current.texts, a ∈ current.texts ++ previous.texts :=
    fun _ => List.mem_append_left _
  have hprevious : ∀ a ∈ previous.texts, a ∈ current.texts ++ previous.texts :=
    fun _ => List.mem_append_right _
  have hnames' : previous.namer.Separates (current.texts ++ previous.texts) := h.namer_eq ▸ hnames
  constructor
  · rintro ⟨hne, hin⟩
    obtain ⟨value, hvalue⟩ := Option.isSome_iff_exists.1 hin
    obtain ⟨v, hv, rfl, -⟩ := VariableTable.exists_of_get?_valuesByName hvalue
    obtain ⟨p, text, raw, hasks, rfl⟩ := Config.mem_entries_iff.1 hv
    refine ⟨p, text, Config.mem_texts.2 ⟨raw, hasks⟩, ?_, rfl⟩
    intro hold
    obtain ⟨raw', hasks'⟩ := Config.mem_texts.1 hold
    apply hne
    have hnow := hasks.get?_valuesByName hnames hcurrent
    have hbefore := hasks'.get?_valuesByName hnames' hprevious
    rw [← hasks.raw_eq h.tableOf_eq hasks', ← h.transformed_eq, ← h.namer_eq] at hbefore
    exact hnow.trans hbefore.symm
  · rintro ⟨p, text, hmem, hnew, rfl⟩
    obtain ⟨raw, hasks⟩ := Config.mem_texts.1 hmem
    have hnow := hasks.get?_valuesByName hnames hcurrent
    have hbefore := Config.get?_valuesByName_eq_none hnames' hprevious (hcurrent _ hmem) hnew
    rw [← h.namer_eq] at hbefore
    refine ⟨?_, Option.isSome_iff_exists.2 ⟨_, hnow⟩⟩
    intro hsame
    exact Option.some_ne_none _ (hnow.symm.trans (hsame.trans hbefore))

theorem differs_iff (hnames : current.namer.Separates (current.texts ++ previous.texts))
    {onRemovedClass : RemovedClassPolicy} {leaf : Leaf} :
    Changes.Differs onRemovedClass (.capture current (.ofConfig current))
        (.capture previous (.ofConfig previous)) leaf ↔
      (∃ slot, Changes.slotValue? current.classes edited slot ≠
          Changes.slotValue? previous.classes edited slot ∧ .slot edited slot = leaf) ∨
        ∃ slot raw, Changes.slotValue? current.classes edited slot = some raw ∧
          (slot.property, raw) ∉ previous.declarations ∧
          .value (current.namer.name slot.property raw) = leaf := by
  cases leaf with
  | width b => simp [Changes.Differs, Snapshot.text?, Snapshot.capture, h.breakpoints]
  | entry map name =>
      have hmap : (Snapshot.capture current (.ofConfig current)).mapOf map =
          (Snapshot.capture previous (.ofConfig previous)).mapOf map := by
        cases map with
        | fontFamilies => exact h.fontFamilies
        | spacing => exact h.spacing
        | colors => exact h.colors
      simp [Changes.Differs, Snapshot.text?, hmap]
  | slot name slot =>
      simp only [Changes.Differs, Snapshot.text?, Snapshot.capture, Changes.slotValue?_withoutUnknown,
        Leaf.slot.injEq, reduceCtorEq, and_false, exists_false, or_false]
      constructor
      · rintro ⟨hne, -⟩
        have hname : name = edited := by
          by_contra hother
          exact hne (h.slotValue?_eq hother slot)
        subst hname
        exact ⟨slot, hne, rfl, rfl⟩
      · rintro ⟨slot, hne, rfl, rfl⟩
        refine ⟨hne, .inl ?_⟩
        rw [SortedMap.contains, SortedMap.get?_map, Option.isSome_map]
        exact h.present
  | value name =>
      rw [h.differs_value_iff hnames]
      simp only [Leaf.value.injEq, reduceCtorEq, and_false, exists_false, false_or]
      constructor
      · rintro ⟨p, text, hmem, hnew, hname⟩
        obtain ⟨raw, hasks⟩ := Config.mem_texts.1 hmem
        obtain ⟨slot, rfl, hvalue⟩ := h.exists_slot_of_new hasks hnew
        exact ⟨slot, text, hvalue, fun hold => hnew (Config.mem_texts_slot.2 hold), hname⟩
      · rintro ⟨slot, raw, hvalue, hnew, hname⟩
        exact ⟨slot.property, raw, Config.mem_texts_of_slotValue? hvalue,
          fun hold => hnew (Config.mem_texts_slot.1 hold), hname⟩

theorem mem_diff_iff (hnames : current.namer.Separates (current.texts ++ previous.texts))
    {policy : ChangePolicy} {key : String} :
    key ∈ Changes.diff (.capture current (.ofConfig current)) (some (.capture previous (.ofConfig previous)))
        policy ↔ EditKey edited current previous key := by
  simp only [Changes.mem_diff_iff, h.differs_iff hnames, EditKey, Changes.slotKey_eq]
  constructor
  · rintro ⟨leaf, ⟨slot, hne, rfl⟩ | ⟨slot, raw, hvalue, hnew, rfl⟩, hkey⟩
    · exact .inl ⟨slot, hne, hkey⟩
    · exact .inr ⟨slot, raw, hvalue, hnew, hkey⟩
  · rintro (⟨slot, hne, hkey⟩ | ⟨slot, raw, hvalue, hnew, hkey⟩)
    · exact ⟨_, .inl ⟨slot, hne, rfl⟩, hkey⟩
    · exact ⟨_, .inr ⟨slot, raw, hvalue, hnew, rfl⟩, hkey⟩

theorem not_editKey_of_mem (hnames : current.namer.Separates (current.texts ++ previous.texts))
    {v : Variable} (hv : v ∈ (VariableTable.ofConfig previous).entries.toList) :
    ¬ EditKey edited current previous (Changes.variableKey v.name) := by
  obtain ⟨p, text, old, hasks, rfl⟩ := Config.mem_entries_iff.1 hv
  rintro (⟨slot, -, hkey⟩ | ⟨slot, raw, hvalue, hnew, hkey⟩)
  · exact Changes.slotKey_ne_variableKey _ _ _ _ _ hkey
  · -- The new value and the text of the old variable have one name, so they are the same.
    have hold : (p, text) ∈ previous.texts := Config.mem_texts.2 ⟨old, hasks⟩
    have hname : current.namer.name slot.property raw = current.namer.name p text := by
      rw [Changes.variableKey, Changes.variableKey, String.append_right_inj] at hkey
      rw [hkey, h.namer_eq]
      rfl
    have hvalue' : (slot.property, raw) ∈ current.texts := Config.mem_texts_of_slotValue? hvalue
    have heq := hnames _ (List.mem_append_left _ hvalue') _ (List.mem_append_right _ hold) hname
    cases heq
    exact hnew (Config.mem_texts_slot.1 hold)

/-- An edit of one class reports the properties of that class that changed, and the variables of the values
that no class declared before. It reports no other class, and no variable that was there. -/
theorem changes_local (hnames : current.namer.Separates (current.texts ++ previous.texts))
    {unknownKeys unknownKeysBefore : UnknownKeyPolicy} {table tableBefore : VariableTable}
    (htable : current.intern unknownKeys = .ok table)
    (hbefore : previous.intern unknownKeysBefore = .ok tableBefore) (policy : ChangePolicy) :
    (∀ key, key ∈ Changes.diff (.capture current table) (some (.capture previous tableBefore)) policy ↔
      EditKey edited current previous key) ∧
    (∀ name, name ≠ edited → ∀ slot, Changes.slotKey name slot ∉
      Changes.diff (.capture current table) (some (.capture previous tableBefore)) policy) ∧
    ∀ v ∈ tableBefore.entries.toList, Changes.variableKey v.name ∉
      Changes.diff (.capture current table) (some (.capture previous tableBefore)) policy := by
  obtain rfl := Config.eq_ofConfig_of_intern htable
  obtain rfl := Config.eq_ofConfig_of_intern hbefore
  refine ⟨fun key => h.mem_diff_iff hnames, ?_, ?_⟩
  · intro name hname slot hmem
    exact not_editKey_of_ne hname slot ((h.mem_diff_iff hnames).1 hmem)
  · intro v hv hmem
    exact h.not_editKey_of_mem hnames hv ((h.mem_diff_iff hnames).1 hmem)

end EditsClass

/-- A title beside a class whose weight is 700. -/
def titledConfig (title : ClassSpec) : Config where
  brand := "tf"
  category := "typo"
  baseFontSize := 16
  breakpoints := ⟨"375px", "1024px"⟩
  classes := .ofList [("h1", title), ("h2", { ClassSpec.empty with fontWeight := some "700" })]
  fontFamilies := .empty
  spacing := .ofList [("sm", "8px")]
  colors := .empty
  build := .default

def lightTitle : ClassSpec :=
  { ClassSpec.empty with fontWeight := some "400", mobile := some ⟨some "32px", none, .empty⟩ }

/-- The weight is that of the other class now, and the letter spacing is new. -/
def boldTitle : ClassSpec :=
  { lightTitle with fontWeight := some "700", letterSpacing := some "0.02em" }

theorem EditsClass.of_titles (title other : ClassSpec) :
    EditsClass "h1" (titledConfig title) (titledConfig other) where
  brand := rfl
  category := rfl
  baseFontSize := rfl
  breakpoints := rfl
  fontFamilies := rfl
  spacing := rfl
  colors := rfl
  others := by
    intro name hname
    simp [titledConfig, SortedMap.get?_ofList, SortedMap.lookup_cons_eq, hname]
  present := by
    simp [titledConfig, SortedMap.contains, SortedMap.get?_ofList, SortedMap.lookup_cons_eq]

/-- What changes from the light to the bold title. -/
def titleChanges : ChangeSet :=
  Changes.diff (.capture (titledConfig boldTitle) (.ofConfig (titledConfig boldTitle)))
    (some (.capture (titledConfig lightTitle) (.ofConfig (titledConfig lightTitle)))) ⟨.markNone, .flag⟩

theorem EditsClass.changes_local_title :
    EditsClass "h1" (titledConfig boldTitle) (titledConfig lightTitle) ∧
      (titledConfig boldTitle).namer.Separates
        ((titledConfig boldTitle).texts ++ (titledConfig lightTitle).texts) ∧
      titleChanges.elements =
        ["h1.fontWeight", "h1.letterSpacing", "variable.--tf-typo-letter-spacing-0-02"] ∧
      ∀ v ∈ (VariableTable.ofConfig (titledConfig lightTitle)).entries.toList,
        Changes.variableKey v.name ∉ titleChanges := by
  have hedits := EditsClass.of_titles boldTitle lightTitle
  have hnames : (titledConfig boldTitle).namer.Separates
      ((titledConfig boldTitle).texts ++ (titledConfig lightTitle).texts) := by decide +kernel
  have htable : ∀ title, (titledConfig title).intern .ignore = .ok (.ofConfig (titledConfig title)) :=
    fun _ => rfl
  obtain ⟨-, -, hvariables⟩ :=
    hedits.changes_local hnames (htable boldTitle) (htable lightTitle) ⟨.markNone, .flag⟩
  exact ⟨hedits, hnames, by decide +kernel, hvariables⟩

end DesignTokens
