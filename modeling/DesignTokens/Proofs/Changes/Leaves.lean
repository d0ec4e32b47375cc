import DesignTokens.Proofs.Changes
import DesignTokens.Proofs.InternedTable
import DesignTokens.Proofs.Validation

/-!
# Changed leaves

A change set is a set of dotted keys. What it stands for is a set of leaves, the places of a snapshot
that hold one text each: a key is reported exactly if it is the key of a leaf whose text is not what
it was. Only the slots of removed classes depend on the policy, and variables that are gone do not count.
-/

namespace DesignTokens

/-! ## Leaves -/

/-- The maps of a config from keys to raw values. -/
inductive ValueMap where
  | fontFamilies
  | spacing
  | colors
deriving DecidableEq

namespace ValueMap

/-- The first part of the keys of the map's entries. -/
def word : ValueMap → String
  | .fontFamilies => "fontFamilyMap"
  | .spacing => "spacingMap"
  | .colors => "colors"

end ValueMap

/-- The dotted path of a slot within its class. -/
def Slot.path : Slot → String
  | .fontFamily => "fontFamily"
  | .fontWeight => "fontWeight"
  | .letterSpacing => "letterSpacing"
  | .textTransform => "textTransform"
  | .fontSize b => b.name ++ ".fontSize"
  | .lineHeight b => b.name ++ ".lineHeight"

/-- A place of a snapshot where one text may stand. -/
inductive Leaf where
  | width (b : Breakpoint)
  | entry (map : ValueMap) (key : String)
  | slot (className : String) (slot : Slot)
  /-- The value of a variable. -/
  | value (name : String)
deriving DecidableEq

/-- The dotted key under which a change of the leaf is reported. -/
def Leaf.key : Leaf → String
  | .width b => "breakpoints." ++ b.name
  | .entry map name => map.word ++ "." ++ name
  | .slot className place => className ++ "." ++ place.path
  | .value name => "variable." ++ name

namespace Snapshot

def mapOf (snapshot : Snapshot) : ValueMap → SortedMap String
  | .fontFamilies => snapshot.fontFamilies
  | .spacing => snapshot.spacing
  | .colors => snapshot.colors

/-- The text in a leaf. A class that is not there declares nothing, like a tier that is not there. -/
def text? (snapshot : Snapshot) : Leaf → Option String
  | .width b => some (snapshot.breakpoints.at b)
  | .entry map key => (snapshot.mapOf map).get? key
  | .slot className slot => Changes.slotValue? snapshot.classes className slot
  | .value name => snapshot.values.get? name

/-- Snapshots that differ at most in unknown keys and in classes and tiers that declare nothing. -/
def SameTexts (snapshot other : Snapshot) : Prop :=
  ∀ leaf, snapshot.text? leaf = other.text? leaf

theorem sameTexts_withoutUnknown (snapshot : Snapshot) :
    ({ snapshot with classes := snapshot.classes.map ClassSpec.withoutUnknown } : Snapshot).SameTexts
      snapshot := by
  intro leaf
  cases leaf with
  | entry map name => cases map <;> rfl
  | slot name slot => exact Changes.slotValue?_withoutUnknown snapshot.classes name slot
  | _ => rfl

end Snapshot

namespace Config

def mapOf (config : Config) : ValueMap → SortedMap String
  | .fontFamilies => config.fontFamilies
  | .spacing => config.spacing
  | .colors => config.colors

/-- The leaves that a config with its table fills. -/
def Declares (config : Config) (table : VariableTable) : Leaf → Prop
  | .width _ => True
  | .entry map key => key ∈ (config.mapOf map).keys
  | .slot className slot => ∃ spec raw, config.classes.get? className = some spec ∧
      spec.value? slot = some raw
  | .value name => ∃ v ∈ table.entries.toList, v.name = name

end Config

namespace Changes

/-- The leaves in which a difference is reported: the slots of a class that is gone only if removed
classes are flagged, and no variable that is gone. -/
def Counts (onRemovedClass : RemovedClassPolicy) (current : Snapshot) : Leaf → Prop
  | .width _ => True
  | .entry _ _ => True
  | .slot className _ => current.classes.contains className = true ∨ onRemovedClass = .flag
  | .value name => current.values.contains name = true

/-- The leaf is reported as changed. -/
def Differs (onRemovedClass : RemovedClassPolicy) (current previous : Snapshot) (leaf : Leaf) : Prop :=
  current.text? leaf ≠ previous.text? leaf ∧ Counts onRemovedClass current leaf

/-! ## The keys of each part -/

theorem slotKey_eq (className : String) (slot : Slot) :
    slotKey className slot = (Leaf.slot className slot).key := by
  have hpath : ∀ b : Breakpoint, ∀ word : String,
      className ++ "." ++ b.name ++ "." ++ word = className ++ "." ++ (b.name ++ ("." ++ word)) := by
    intro b word
    simp only [String.append_assoc]
  cases slot with
  | fontSize b => exact hpath b "fontSize"
  | lineHeight b => exact hpath b "lineHeight"
  | _ => rfl

theorem mem_ofWidths {key : String} {current previous : Widths} : key ∈ ofWidths current previous ↔
    ∃ b, current.at b ≠ previous.at b ∧ (Leaf.width b).key = key := by
  simp only [ofWidths, List.mem_map, List.mem_filter, decide_eq_true_eq]
  constructor
  · rintro ⟨b, ⟨-, hne⟩, rfl⟩
    exact ⟨b, hne, rfl⟩
  · rintro ⟨b, hne, rfl⟩
    have hall : b ∈ Breakpoint.all := by cases b <;> decide
    exact ⟨b, ⟨hall, hne⟩, rfl⟩

theorem mem_ofMap {key : String} {map : ValueMap} {current previous : SortedMap String} :
    key ∈ ofMap map.word current previous ↔
      ∃ entry, current.get? entry ≠ previous.get? entry ∧ (Leaf.entry map entry).key = key := by
  simp only [ofMap, List.mem_map, List.mem_filter, decide_eq_true_eq]
  constructor
  · rintro ⟨entry, ⟨-, hne⟩, rfl⟩
    exact ⟨entry, hne, rfl⟩
  · rintro ⟨entry, hne, rfl⟩
    -- A key that neither map has is answered alike by both.
    by_cases hmem : entry ∈ current.keys ++ previous.keys
    · exact ⟨entry, ⟨hmem, hne⟩, rfl⟩
    · simp only [List.mem_append, not_or, ← SortedMap.get?_eq_none_iff] at hmem
      rw [hmem.1, hmem.2] at hne
      exact absurd rfl hne

theorem mem_ofClass {key className : String} {current previous : ClassSpec} :
    key ∈ ofClass className current previous ↔
      ∃ slot, current.value? slot ≠ previous.value? slot ∧ (Leaf.slot className slot).key = key := by
  simp only [ofClass, List.mem_map, List.mem_filter, decide_eq_true_eq, slotKey_eq]
  constructor
  · rintro ⟨slot, ⟨-, hne⟩, rfl⟩
    exact ⟨slot, hne, rfl⟩
  · rintro ⟨slot, hne, rfl⟩
    exact ⟨slot, ⟨Slot.mem_all slot, hne⟩, rfl⟩

theorem mem_ofClasses {key : String} {current previous : SortedMap ClassSpec} :
    key ∈ ofClasses current previous ↔ ∃ name slot, current.contains name = true ∧
      slotValue? current name slot ≠ slotValue? previous name slot ∧ (Leaf.slot name slot).key = key := by
  simp only [ofClasses, List.mem_flatMap, mem_ofClass, value?_getD_empty]
  constructor
  · rintro ⟨⟨name, spec⟩, hmem, slot, hne, rfl⟩
    have hspec := SortedMap.get?_eq_some_iff.2 hmem
    refine ⟨name, slot, by simp [SortedMap.contains, hspec], ?_, rfl⟩
    rwa [slotValue?, hspec]
  · rintro ⟨name, slot, hin, hne, rfl⟩
    obtain ⟨spec, hspec⟩ := Option.isSome_iff_exists.1 hin
    refine ⟨(name, spec), SortedMap.get?_eq_some_iff.1 hspec, slot, ?_, rfl⟩
    rwa [slotValue?, hspec] at hne

theorem mem_ofRemovedClasses {key : String} {current previous : SortedMap ClassSpec} :
    key ∈ ofRemovedClasses current previous ↔ ∃ name slot, current.contains name = false ∧
      slotValue? current name slot ≠ slotValue? previous name slot ∧ (Leaf.slot name slot).key = key := by
  have habsent : ∀ {name : String}, current.contains name = false → ∀ slot,
      slotValue? current name slot = none := by
    intro name hnot slot
    rw [slotValue?, Option.isSome_eq_false_iff.1 hnot |> Option.isNone_iff_eq_none.1, Option.bind_none]
  simp only [ofRemovedClasses, List.mem_flatMap, mem_ofClass, List.mem_filter, Bool.not_eq_true',
    ClassSpec.value?_empty]
  constructor
  · rintro ⟨⟨name, spec⟩, ⟨hmem, hnot⟩, slot, hne, rfl⟩
    refine ⟨name, slot, hnot, ?_, rfl⟩
    rwa [habsent hnot, slotValue?, SortedMap.get?_eq_some_iff.2 hmem]
  · rintro ⟨name, slot, hnot, hne, rfl⟩
    rw [habsent hnot, slotValue?] at hne
    cases hspec : previous.get? name with
    | none => exact absurd (by rw [hspec, Option.bind_none]) hne
    | some spec =>
        rw [hspec] at hne
        exact ⟨(name, spec), ⟨SortedMap.get?_eq_some_iff.1 hspec, hnot⟩, slot, hne, rfl⟩

theorem mem_ofVariables {key : String} {current previous : SortedMap String} :
    key ∈ ofVariables current previous ↔ ∃ name, current.contains name = true ∧
      current.get? name ≠ previous.get? name ∧ (Leaf.value name).key = key := by
  simp only [ofVariables, List.mem_map, List.mem_filter, decide_eq_true_eq]
  constructor
  · rintro ⟨⟨name, value⟩, ⟨hmem, hne⟩, rfl⟩
    have hvalue := SortedMap.get?_eq_some_iff.2 hmem
    refine ⟨name, by simp [SortedMap.contains, hvalue], ?_, rfl⟩
    rw [hvalue]
    exact fun heq => hne heq.symm
  · rintro ⟨name, hin, hne, rfl⟩
    obtain ⟨value, hvalue⟩ := Option.isSome_iff_exists.1 hin
    rw [hvalue] at hne
    exact ⟨(name, value), ⟨SortedMap.get?_eq_some_iff.1 hvalue, fun heq => hne heq.symm⟩, rfl⟩

/-! ## Whole comparisons -/

theorem mem_keys_iff {key : String} {current previous : Snapshot} {onRemovedClass : RemovedClassPolicy} :
    key ∈ keys current previous onRemovedClass ↔
      key ∈ ofWidths current.breakpoints previous.breakpoints ∨
        (∃ map : ValueMap, key ∈ ofMap map.word (current.mapOf map) (previous.mapOf map)) ∨
        key ∈ ofClasses current.classes previous.classes ∨
        (onRemovedClass = .flag ∧ key ∈ ofRemovedClasses current.classes previous.classes) ∨
        key ∈ ofVariables current.values previous.values := by
  have hmaps : (∃ map : ValueMap, key ∈ ofMap map.word (current.mapOf map) (previous.mapOf map)) ↔
      key ∈ ofMap fontFamilyMap current.fontFamilies previous.fontFamilies ∨
        key ∈ ofMap Property.spacing.configKey current.spacing previous.spacing ∨
        key ∈ ofMap Property.color.configKey current.colors previous.colors := by
    constructor
    · rintro ⟨map, hmem⟩
      cases map with
      | fontFamilies => exact .inl hmem
      | spacing => exact .inr (.inl hmem)
      | colors => exact .inr (.inr hmem)
    · rintro (hmem | hmem | hmem)
      · exact ⟨.fontFamilies, hmem⟩
      · exact ⟨.spacing, hmem⟩
      · exact ⟨.colors, hmem⟩
  have hremoved : key ∈ (if onRemovedClass = .flag then
        ofRemovedClasses current.classes previous.classes else []) ↔
      onRemovedClass = .flag ∧ key ∈ ofRemovedClasses current.classes previous.classes := by
    split <;> simp_all
  simp only [keys, List.mem_append, hmaps, hremoved, or_assoc]

theorem mem_compare_iff {key : String} {current previous : Snapshot}
    {onRemovedClass : RemovedClassPolicy} : key ∈ compare current previous onRemovedClass ↔
      ∃ leaf, Differs onRemovedClass current previous leaf ∧ leaf.key = key := by
  rw [compare, SortedSet.mem_ofList, mem_keys_iff]
  simp only [mem_ofWidths, mem_ofMap, mem_ofClasses, mem_ofRemovedClasses, mem_ofVariables]
  constructor
  · rintro (⟨b, hne, hkey⟩ | ⟨map, name, hne, hkey⟩ | ⟨name, slot, hin, hne, hkey⟩ |
      ⟨hflag, name, slot, -, hne, hkey⟩ | ⟨name, hin, hne, hkey⟩)
    · exact ⟨.width b, ⟨fun heq => hne (Option.some.inj heq), trivial⟩, hkey⟩
    · exact ⟨.entry map name, ⟨hne, trivial⟩, hkey⟩
    · exact ⟨.slot name slot, ⟨hne, .inl hin⟩, hkey⟩
    · exact ⟨.slot name slot, ⟨hne, .inr hflag⟩, hkey⟩
    · exact ⟨.value name, ⟨hne, hin⟩, hkey⟩
  · rintro ⟨leaf, ⟨hne, hcounts⟩, hkey⟩
    cases leaf with
    | width b => exact .inl ⟨b, fun heq => hne (congrArg some heq), hkey⟩
    | entry map name => exact .inr (.inl ⟨map, name, hne, hkey⟩)
    | slot name slot =>
        cases hin : current.classes.contains name with
        | true => exact .inr (.inr (.inl ⟨name, slot, hin, hne, hkey⟩))
        | false =>
            have hflag := hcounts.resolve_left (by simp [hin])
            exact .inr (.inr (.inr (.inl ⟨hflag, name, slot, hin, hne, hkey⟩)))
    | value name => exact .inr (.inr (.inr (.inr ⟨name, hcounts, hne, hkey⟩)))

theorem mem_diff_iff {key : String} {current previous : Snapshot} {policy : ChangePolicy} :
    key ∈ diff current (some previous) policy ↔
      ∃ leaf, Differs policy.onRemovedClass current previous leaf ∧ leaf.key = key :=
  mem_compare_iff

/-- The reported changes depend on the texts of the leaves, and on the classes that there are now. -/
theorem diff_congr {current other previous before : Snapshot} (hcurrent : current.SameTexts other)
    (hprevious : previous.SameTexts before) {policy : ChangePolicy}
    (hclasses : policy.onRemovedClass = .flag ∨
      ∀ name, current.classes.contains name = other.classes.contains name) :
    diff current (some previous) policy = diff other (some before) policy := by
  have hcounts : ∀ leaf, Counts policy.onRemovedClass current leaf ↔
      Counts policy.onRemovedClass other leaf := by
    intro leaf
    cases leaf with
    | width b => exact Iff.rfl
    | entry map name => exact Iff.rfl
    | slot name slot =>
        rcases hclasses with hflag | hsame
        · simp [Counts, hflag]
        · simp [Counts, hsame name]
    | value name =>
        have hvalue : current.values.get? name = other.values.get? name := hcurrent (.value name)
        simp [Counts, SortedMap.contains, hvalue]
  apply SortedSet.ext_mem
  intro key
  simp only [mem_diff_iff, Differs, hcurrent _, hprevious _, hcounts]

end Changes

/-! ## First runs -/

/-- A width that is accepted is not empty. -/
theorem Config.ne_empty_of_pixels {config : Config} {b : Breakpoint} {width : Float}
    (h : config.pixels b = .ok width) : config.breakpoints.at b ≠ "" := by
  intro hempty
  have hnone : Length.parse? "" = none := by decide +kernel
  rw [Config.pixels, hempty, hnone] at h
  cases h

/-- The captured snapshot of a config has a text in exactly the leaves that the config fills. -/
theorem Config.declares_iff {config : Config} {table : VariableTable} {leaf : Leaf} :
    config.Declares table leaf ↔ (Snapshot.capture config table).text? leaf ≠ none := by
  cases leaf with
  | width b => simp [Declares, Snapshot.text?]
  | entry map name =>
      have hmap : (Snapshot.capture config table).mapOf map = config.mapOf map := by cases map <;> rfl
      rw [Declares, Snapshot.text?, hmap, ne_eq, SortedMap.get?_eq_none_iff, Decidable.not_not]
  | slot name slot =>
      rw [Snapshot.text?, Snapshot.capture, Changes.slotValue?_withoutUnknown, Declares]
      constructor
      · rintro ⟨spec, raw, hspec, hvalue⟩
        simp [Changes.slotValue?, hspec, hvalue]
      · intro h
        obtain ⟨raw, hraw⟩ := Option.ne_none_iff_exists'.1 h
        obtain ⟨spec, hspec, hvalue⟩ := Option.bind_eq_some_iff.1 hraw
        exact ⟨spec, raw, hspec, hvalue⟩
  | value name =>
      rw [Declares, Snapshot.text?, Snapshot.capture]
      constructor
      · rintro ⟨v, hv, rfl⟩
        exact VariableTable.get?_valuesByName_ne_none hv
      · intro h
        obtain ⟨value, hvalue⟩ := Option.ne_none_iff_exists'.1 h
        obtain ⟨v, hv, hname, -⟩ := VariableTable.exists_of_get?_valuesByName hvalue
        exact ⟨v, hv, hname⟩

namespace Changes

theorem contains_of_slotValue? {classes : SortedMap ClassSpec} {name : String} {slot : Slot}
    (h : slotValue? classes name slot ≠ none) : classes.contains name = true := by
  obtain ⟨raw, hraw⟩ := Option.ne_none_iff_exists'.1 h
  obtain ⟨spec, hspec, -⟩ := Option.bind_eq_some_iff.1 hraw
  simp [SortedMap.contains, hspec]

/-- Everything that a valid config fills differs from an empty snapshot. -/
theorem differs_empty_iff {config : Config} (hvalid : config.validate = .ok ()) (table : VariableTable)
    (onRemovedClass : RemovedClassPolicy) (leaf : Leaf) :
    Differs onRemovedClass (Snapshot.capture config table) .empty leaf ↔ config.Declares table leaf := by
  rw [Config.declares_iff]
  cases leaf with
  | width b =>
      obtain ⟨width, hwidth⟩ := (Config.accepted_of_validate hvalid).pixels b
      have hfilled : (Snapshot.capture config table).text? (.width b) ≠ Snapshot.empty.text? (.width b) := by
        intro heq
        have hempty : Snapshot.empty.breakpoints.at b = "" := by cases b <;> rfl
        exact Config.ne_empty_of_pixels hwidth ((Option.some.inj heq).trans hempty)
      exact ⟨fun _ => Option.some_ne_none _, fun _ => ⟨hfilled, trivial⟩⟩
  | entry map name =>
      have hnone : Snapshot.empty.text? (.entry map name) = none := by cases map <;> rfl
      rw [Differs, hnone]
      exact ⟨fun h => h.1, fun h => ⟨h, trivial⟩⟩
  | slot name slot => exact ⟨fun h => h.1, fun h => ⟨h, .inl (contains_of_slotValue? h)⟩⟩
  | value name => exact ⟨fun h => h.1, fun h => ⟨h, Option.isSome_iff_ne_none.2 h⟩⟩

/-- A set of changes holds exactly the keys of the leaves that differ. A first run reports nothing, or all
that a valid config fills. Unknown keys, and classes and tiers that declare nothing, make no difference. -/
theorem diff_exact :
    (∀ current previous policy key, key ∈ diff current (some previous) policy ↔
      ∃ leaf, Differs policy.onRemovedClass current previous leaf ∧ leaf.key = key) ∧
    (∀ current policy, policy.onFirstRun = .markNone → diff current none policy = .empty) ∧
    (∀ config table policy key, config.validate = .ok () → policy.onFirstRun = .markAll →
      (key ∈ diff (Snapshot.capture config table) none policy ↔
        ∃ leaf, config.Declares table leaf ∧ leaf.key = key)) ∧
    ∀ (current other previous before : Snapshot) (policy : ChangePolicy),
      current.SameTexts other → previous.SameTexts before →
      (policy.onRemovedClass = .flag ∨
        ∀ name, current.classes.contains name = other.classes.contains name) →
      diff current (some previous) policy = diff other (some before) policy := by
  refine ⟨fun _ _ _ _ => mem_diff_iff, ?_, ?_, ?_⟩
  · intro current policy hmark
    simp only [diff, hmark]
  · intro config table policy key hvalid hmark
    simp only [diff, hmark, mem_compare_iff, differs_empty_iff hvalid]
  · intro current other previous before policy hcurrent hprevious hclasses
    exact diff_congr hcurrent hprevious hclasses

/-- A class with an unknown key and a tier that declares nothing. -/
def titleConfig : Config where
  brand := "hg"
  category := "typo"
  baseFontSize := 16
  breakpoints := ⟨"375px", "1024px"⟩
  classes := .ofList [("h1", { ClassSpec.empty with
    fontWeight := some "700"
    mobile := some ⟨some "32px", none, .empty⟩
    desktop := some .empty
    unknown := .ofList [("colour", .null)] })]
  fontFamilies := .empty
  spacing := .ofList [("lg", "24px")]
  colors := .empty
  build := .default

/-- The snapshot as it would be stored with unknown keys kept. -/
def titleSnapshot : Snapshot :=
  { Snapshot.capture titleConfig (.ofConfig titleConfig) with classes := titleConfig.classes }

theorem diff_exact_title :
    (diff (Snapshot.capture titleConfig (.ofConfig titleConfig)) none ⟨.markAll, .ignore⟩).elements =
        ["breakpoints.desktop", "breakpoints.mobile", "h1.fontWeight", "h1.mobile.fontSize",
          "spacingMap.lg", "variable.--hg-spacing-lg", "variable.--hg-typo-font-size-32",
          "variable.--hg-typo-font-weight-700"] ∧
      (∀ key, key ∈ diff (Snapshot.capture titleConfig (.ofConfig titleConfig)) none
          ⟨.markAll, .ignore⟩ ↔
        ∃ leaf, titleConfig.Declares (.ofConfig titleConfig) leaf ∧ leaf.key = key) ∧
      diff titleSnapshot none ⟨.markNone, .flag⟩ = .empty ∧
      diff (Snapshot.capture titleConfig (.ofConfig titleConfig)) (some titleSnapshot)
        ⟨.markNone, .flag⟩ = .empty := by
  have hvalid : titleConfig.validate = .ok () := Config.validate_eq_ok (by decide +kernel)
  obtain ⟨-, hnone, hall, hsame⟩ := diff_exact
  have hunchanged := hsame _ titleSnapshot titleSnapshot titleSnapshot ⟨.markNone, .flag⟩
    titleSnapshot.sameTexts_withoutUnknown (fun _ => rfl) (.inl rfl)
  rw [diff_self] at hunchanged
  exact ⟨by decide +kernel, fun key => hall _ _ _ key hvalid rfl, hnone _ _ rfl, hunchanged⟩

end Changes

end DesignTokens
