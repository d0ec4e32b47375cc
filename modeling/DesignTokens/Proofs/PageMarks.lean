import Mathlib.Data.List.Forall2
import DesignTokens.Proofs.Changes.Keys
import DesignTokens.Proofs.Naming.Properties
import DesignTokens.Proofs.PageText

/-!
# Marks on the reference page

A cell of the page is marked where its key is among the reported changes. Keys of different leaves are
different, but for slots of a class that is named like a map: a row of that map is then marked for a
change of the class, and the other way round. No other cell is marked for a change that is not its own.
-/

namespace DesignTokens

namespace Page

/-! ## Reading a page -/

/-- The cell is marked in the text of the page. -/
def Cell.HasMark (cell : Cell) : Prop :=
  "<td class=\"changed\">".toList <+: cell.html.toList

/-- The row shows this content under a heading, with a mark exactly if there is a change. -/
def Shows (row : List (String × Cell)) (heading : String) (content : Content) (changed : Prop) : Prop :=
  ∃ cell, row.lookup heading = some cell ∧ cell.content = content ∧ (cell.HasMark ↔ changed)

/-- The class, property and variable of each binding at a breakpoint. -/
def bindingsAt (config : Config) (table : VariableTable) (b : Breakpoint) :
    List (String × Property × Variable) :=
  (config.rules table b).flatMap (fun rule => rule.bindings.map (fun binding => (rule.className, binding)))

/-- The page has a row for each breakpoint, binding and entry, in order, and marks the cell of the raw
value exactly where the leaf that it stands for counts as changed. -/
structure Marks (config : Config) (table : VariableTable) (changed : Leaf → Prop) (page : Page) : Prop where
  breakpoints : List.Forall₂ (fun b row =>
      row.lookup "Breakpoint" = some (.plain (.text b.name)) ∧
        Shows row "Min width" (.text (config.breakpoints.at b)) (changed (.width b)))
    Breakpoint.all (page.rows "breakpoints")
  typography : ∀ b : Breakpoint, List.Forall₂ (fun binding row =>
      row.lookup "Class" = some (.plain (.classSample binding.1)) ∧
        row.lookup "Property" = some (.plain (.text binding.2.1.cssProperty)) ∧
        ∃ slot, Slot.at? binding.2.1 b = some slot ∧
          Changes.slotValue? config.classes binding.1 slot = some binding.2.2.raw ∧
          Shows row "Raw" (.text binding.2.2.raw) (changed (.slot binding.1 slot)))
    (bindingsAt config table b) (page.rows ("typography-" ++ b.name))
  fontFamilies : List.Forall₂ (fun entry row =>
      row.lookup "Alias" = some (.plain (.text entry.1)) ∧
        Shows row "Value" (.fontSample entry.2) (changed (.entry .fontFamilies entry.1)))
    config.fontFamilies.entries (page.rows "font-families")
  spacing : List.Forall₂ (fun entry row =>
      row.lookup "Key" = some (.plain (.text entry.1)) ∧
        Shows row "Raw" (.text entry.2) (changed (.entry .spacing entry.1)))
    config.spacing.entries (page.rows "spacing")
  colors : List.Forall₂ (fun entry row =>
      row.lookup "Key" = some (.plain (.text entry.1)) ∧
        Shows row "Raw" (.text entry.2) (changed (.entry .colors entry.1)))
    config.colors.entries (page.rows "colors")

theorem hasMark_iff {cell : Cell} : cell.HasMark ↔ cell.isChanged = true := by
  unfold Cell.HasMark Cell.html
  cases cell.isChanged with
  | true => simp
  | false => simp [List.cons_prefix_cons]

/-! ## Sections of a page -/

theorem exists_slot_of_mem_bindings {table : VariableTable} {name : String} {b : Breakpoint} {p : Property}
    {v : Variable} (h : (p, v) ∈ table.bindings name b) :
    ∃ slot, Slot.at? p b = some slot ∧ table.inSlot? name slot = some v := by
  obtain ⟨slot, hslot, hbound⟩ := List.mem_filterMap.1 h
  obtain ⟨q, -, hat⟩ := List.mem_filterMap.1 hslot
  obtain ⟨found, hfound, heq⟩ := Option.map_eq_some_iff.1 hbound
  cases heq
  rw [← Slot.property_of_at? hat] at hat
  exact ⟨slot, hat, hfound⟩

theorem bindings_of_mem_rules {config : Config} {table : VariableTable} {b : Breakpoint} {rule : Rule}
    (h : rule ∈ config.rules table b) :
    rule.breakpoint = b ∧ rule.bindings = table.bindings rule.className b := by
  obtain ⟨name, -, hrule⟩ := List.mem_filterMap.1 h
  rw [VariableTable.eq_of_rule? hrule]
  exact ⟨rfl, rfl⟩

/-- A binding is of a value that the class declares in the slot for that breakpoint. -/
theorem exists_slot_of_mem_bindingsAt {config : Config} {b : Breakpoint}
    {bound : String × Property × Variable} (h : bound ∈ bindingsAt config (.ofConfig config) b) :
    ∃ slot, Slot.at? bound.2.1 b = some slot ∧
      Changes.slotValue? config.classes bound.1 slot = some bound.2.2.raw := by
  obtain ⟨rule, hrule, hbound⟩ := List.mem_flatMap.1 h
  obtain ⟨⟨p, v⟩, hbinding, rfl⟩ := List.mem_map.1 hbound
  rw [(bindings_of_mem_rules hrule).2] at hbinding
  obtain ⟨slot, hat, hv⟩ := exists_slot_of_mem_bindings hbinding
  rw [Interning.inSlot?_ofConfig] at hv
  obtain ⟨spec, hspec, hvalue⟩ := Option.bind_eq_some_iff.1 hv
  obtain ⟨raw, hraw, rfl⟩ := Option.map_eq_some_iff.1 hvalue
  refine ⟨slot, hat, ?_⟩
  rw [Changes.slotValue?, hspec]
  exact hraw

section

variable (config : Config) (table : VariableTable) (changes : ChangeSet)

theorem rows_typographySection (b : Breakpoint) :
    (typographySection config table changes b).rows = (bindingsAt config table b).map (fun bound =>
      ("Class" :: "Property" :: variableColumns).zip
        (typographyRow changes ⟨bound.1, b, []⟩ bound.2)) := by
  have hrows : (typographySection config table changes b).rows =
      (config.rules table b).flatMap (fun rule => rule.bindings.map (fun binding =>
        ("Class" :: "Property" :: variableColumns).zip (typographyRow changes rule binding))) := by
    unfold typographySection Section.rows
    cases config.rules table b with
    | nil => rfl
    | cons rule rest => simp [List.map_flatMap, Function.comp_def]
  rw [hrows, bindingsAt, List.map_flatMap]
  apply List.flatMap_congr
  intro rule hrule
  simp [typographyRow, (bindings_of_mem_rules hrule).1]

/-- The table of each section is found under the section's own id. -/
theorem rows_ofConfig (href id : String) : (ofConfig config table changes href).rows id =
    (if id = "breakpoints" then (breakpointSection config changes).rows else []) ++
      (if id = "typography-mobile" then (typographySection config table changes .mobile).rows else []) ++
      (if id = "typography-desktop" then (typographySection config table changes .desktop).rows else []) ++
      (if id = "font-families" then (fontFamilySections config changes).flatMap Section.rows else []) ++
      (if id = "spacing" then (spacingSection config table changes).rows else []) ++
      (if id = "colors" then (colorSection config table changes).rows else []) := by
  have hfamilies : (fontFamilySections config changes).flatMap
      (fun s => if id = s.id then s.rows else []) =
        if id = "font-families" then (fontFamilySections config changes).flatMap Section.rows else [] := by
    unfold fontFamilySections
    split <;> simp
  have hchanges : (changeSection changes).rows = [] := by
    unfold changeSection
    cases changes.isEmpty <;> rfl
  have hids : (breakpointSection config changes).id = "breakpoints" ∧
      (typographySection config table changes .mobile).id = "typography-mobile" ∧
      (typographySection config table changes .desktop).id = "typography-desktop" ∧
      (spacingSection config table changes).id = "spacing" ∧
      (colorSection config table changes).id = "colors" := ⟨rfl, rfl, rfl, rfl, rfl⟩
  simp only [rows, ofConfig, Breakpoint.all, List.map_cons, List.map_nil, List.flatMap_append,
    List.flatMap_cons, List.flatMap_nil, hfamilies, hchanges, hids, eq_comm (b := id), ite_self,
    List.nil_append, List.append_nil, List.append_assoc]

theorem rows_breakpoints (href : String) : (ofConfig config table changes href).rows "breakpoints" =
    Breakpoint.all.map (fun b => ["Breakpoint", "Min width"].zip
      [.plain (.text b.name),
        ⟨.text (config.breakpoints.at b), changes.contains (Leaf.width b).key⟩]) := by
  have hsection : (ofConfig config table changes href).rows "breakpoints" =
      (breakpointSection config changes).rows := by
    simp [rows_ofConfig]
  rw [hsection]
  exact List.map_map

theorem rows_typography (href : String) (b : Breakpoint) :
    (ofConfig config table changes href).rows ("typography-" ++ b.name) =
      (bindingsAt config table b).map (fun bound => ("Class" :: "Property" :: variableColumns).zip
        (typographyRow changes ⟨bound.1, b, []⟩ bound.2)) := by
  have hsection : (ofConfig config table changes href).rows ("typography-" ++ b.name) =
      (typographySection config table changes b).rows := by
    cases b <;> simp [rows_ofConfig, Breakpoint.name]
  rw [hsection, rows_typographySection]

theorem rows_fontFamilies (href : String) : (ofConfig config table changes href).rows "font-families" =
    config.fontFamilies.entries.map (fun entry => ["Alias", "Value"].zip
      [.plain (.text entry.1), ⟨.fontSample entry.2,
        changes.contains (Leaf.entry .fontFamilies entry.1).key⟩]) := by
  have hsection : (ofConfig config table changes href).rows "font-families" =
      (fontFamilySections config changes).flatMap Section.rows := by
    simp [rows_ofConfig]
  rw [hsection]
  unfold fontFamilySections
  split
  · rename_i hempty
    rw [List.isEmpty_iff.1 hempty]
    rfl
  · rw [List.flatMap_singleton]
    exact List.map_map

theorem rows_spacing (href : String) : (ofConfig config (.ofConfig config) changes href).rows "spacing" =
    config.spacing.entries.map (fun entry => ("Key" :: variableColumns).zip
      (.plain (.text entry.1) :: variableCells (config.variableFor .spacing entry.1 entry.2)
        (changes.contains (Leaf.entry .spacing entry.1).key) changes)) := by
  have hsection : (ofConfig config (.ofConfig config) changes href).rows "spacing" =
      (spacingSection config (.ofConfig config) changes).rows := by
    simp [rows_ofConfig]
  rw [hsection]
  unfold spacingSection
  split
  · rename_i hempty
    rw [List.isEmpty_iff.1 hempty]
    rfl
  · have hrequests : ∀ request ∈ config.spacing.requests .spacing, request ∈ config.requests :=
      fun _ => Interning.mem_requests_of_spacing
    simp only [Section.rows, Interning.flat_ofConfig hrequests, List.map_map]
    rfl

theorem rows_colors (href : String) : (ofConfig config (.ofConfig config) changes href).rows "colors" =
    config.colors.entries.map (fun entry => ("Swatch" :: "Key" :: variableColumns).zip
      (⟨.swatch (config.variableFor .color entry.1 entry.2).reference,
          changes.contains (Leaf.entry .colors entry.1).key⟩ ::
        .plain (.text entry.1) :: variableCells (config.variableFor .color entry.1 entry.2)
          (changes.contains (Leaf.entry .colors entry.1).key) changes)) := by
  have hsection : (ofConfig config (.ofConfig config) changes href).rows "colors" =
      (colorSection config (.ofConfig config) changes).rows := by
    simp [rows_ofConfig]
  rw [hsection]
  unfold colorSection
  split
  · rename_i hempty
    rw [List.isEmpty_iff.1 hempty]
    rfl
  · have hrequests : ∀ request ∈ config.colors.requests .color, request ∈ config.requests :=
      fun _ => Interning.mem_requests_of_colors
    simp only [Section.rows, Interning.flat_ofConfig hrequests, List.map_map]
    rfl

end

/-! ## The text of the page -/

theorem id_of_mem_sections {config : Config} {table : VariableTable} {changes : ChangeSet} {href : String}
    {s : Section} (h : s ∈ (ofConfig config table changes href).sections) :
    s.id ∈ ["changes", "breakpoints", "typography-mobile", "typography-desktop", "font-families", "spacing",
      "colors"] := by
  have hchanges : (changeSection changes).id = "changes" := rfl
  have hbreakpoints : (breakpointSection config changes).id = "breakpoints" := rfl
  have hmobile : (typographySection config table changes .mobile).id = "typography-mobile" := rfl
  have hdesktop : (typographySection config table changes .desktop).id = "typography-desktop" := rfl
  have hspacing : (spacingSection config table changes).id = "spacing" := rfl
  have hcolors : (colorSection config table changes).id = "colors" := rfl
  simp only [ofConfig, Breakpoint.all, List.map_cons, List.map_nil, List.mem_append, List.mem_cons,
    List.not_mem_nil, or_false] at h
  rcases h with (((rfl | rfl) | rfl | rfl) | hfamilies) | rfl | rfl
  case inl.inr =>
    unfold fontFamilySections at hfamilies
    split at hfamilies
    · cases hfamilies
    · rw [List.mem_singleton.1 hfamilies]
      simp
  all_goals simp [*]

/-- The rows in the text of the page are those of its tables. -/
theorem readRows_ofConfig (config : Config) (table : VariableTable) (changes : ChangeSet) (href id : String) :
    Html.readRows id (ofConfig config table changes href).html =
      ((ofConfig config table changes href).rows id).map (List.map reading) := by
  apply readRows_html
  intro s hs
  have hplain : ∀ id ∈ ["changes", "breakpoints", "typography-mobile", "typography-desktop", "font-families",
      "spacing", "colors"], Html.Avoids ['<', '>'] id := by decide
  exact hplain s.id (id_of_mem_sections hs)

/-! ## Marks of a set of changes -/

/-- A cell that is marked by the changes is shown so. -/
theorem shows_of_lookup {row : List (String × Cell)} {heading : String} {content : Content}
    {isChanged : Bool} {changed : Prop} (hlookup : row.lookup heading = some ⟨content, isChanged⟩)
    (h : isChanged = true ↔ changed) : Shows row heading content changed :=
  ⟨⟨content, isChanged⟩, hlookup, rfl, hasMark_iff.trans h⟩

/-- The marks tell what the changes hold about the leaves that the config fills. -/
theorem marks_of_contains {config : Config} {changes : ChangeSet} {changed : Leaf → Prop}
    (h : ∀ leaf, config.Declares (.ofConfig config) leaf →
      (changes.contains leaf.key = true ↔ changed leaf)) (href : String) :
    Marks config (.ofConfig config) changed (ofConfig config (.ofConfig config) changes href) where
  breakpoints := by
    rw [rows_breakpoints, List.forall₂_map_right_iff, List.forall₂_same]
    intro b _
    exact ⟨by simp, shows_of_lookup (by simp [SortedMap.lookup_cons_eq]) (h (.width b) trivial)⟩
  typography := by
    intro b
    rw [rows_typography, List.forall₂_map_right_iff, List.forall₂_same]
    intro bound hbound
    obtain ⟨slot, hat, hvalue⟩ := exists_slot_of_mem_bindingsAt hbound
    obtain ⟨spec, hspec⟩ := Option.bind_eq_some_iff.1 hvalue
    have hkey : bindingKey bound.1 b bound.2.1 = (Leaf.slot bound.1 slot).key := by
      rw [bindingKey, hat]
      exact Changes.slotKey_eq bound.1 slot
    have hchanged := h (.slot bound.1 slot) ⟨spec, _, hspec⟩
    rw [← hkey] at hchanged
    refine ⟨by simp [typographyRow], by simp [SortedMap.lookup_cons_eq, typographyRow], slot, hat, hvalue,
      shows_of_lookup ?_ hchanged⟩
    simp [SortedMap.lookup_cons_eq, typographyRow, variableColumns, variableCells]
  fontFamilies := by
    rw [rows_fontFamilies, List.forall₂_map_right_iff, List.forall₂_same]
    intro entry hentry
    have hchanged := h (.entry .fontFamilies entry.1) (List.mem_map_of_mem hentry)
    exact ⟨by simp, shows_of_lookup (by simp [SortedMap.lookup_cons_eq]) hchanged⟩
  spacing := by
    rw [rows_spacing, List.forall₂_map_right_iff, List.forall₂_same]
    intro entry hentry
    have hchanged := h (.entry .spacing entry.1) (List.mem_map_of_mem hentry)
    refine ⟨by simp, shows_of_lookup ?_ hchanged⟩
    simp [SortedMap.lookup_cons_eq, variableColumns, variableCells, Config.variableFor]
  colors := by
    rw [rows_colors, List.forall₂_map_right_iff, List.forall₂_same]
    intro entry hentry
    have hchanged := h (.entry .colors entry.1) (List.mem_map_of_mem hentry)
    refine ⟨by simp [SortedMap.lookup_cons_eq], shows_of_lookup ?_ hchanged⟩
    simp [SortedMap.lookup_cons_eq, variableColumns, variableCells, Config.variableFor]

/-! ## Marks of other leaves -/

section

variable {config : Config} {previous : Snapshot} {onRemovedClass : RemovedClassPolicy} {leaf : Leaf}

/-- The name is the word of a map, or goes on after it with a dot. -/
def NamedLikeMap (name : String) : Prop :=
  ∃ map : ValueMap, name = map.word ∨ ∃ rest, name = map.word ++ "." ++ rest

theorem isNamed_of_declares (h : config.Declares (.ofConfig config) leaf) : leaf.IsNamed config.namer := by
  cases leaf with
  | value name =>
      obtain ⟨v, hv, rfl⟩ := h
      obtain ⟨text, hname, -⟩ := VariableTable.exists_text hv
      exact ⟨v.property, text, hname⟩
  | _ => trivial

theorem isNamed_of_differs
    (h : Changes.Differs onRemovedClass (.capture config (.ofConfig config)) previous leaf) :
    leaf.IsNamed config.namer := by
  cases leaf with
  | value name => exact isNamed_of_declares (Config.declares_iff.2 (Option.isSome_iff_ne_none.1 h.2))
  | _ => trivial

/-- Among the leaves that a config fills, those that differ are those whose text is another one. -/
theorem differs_iff_of_declares (h : config.Declares (.ofConfig config) leaf) :
    Changes.Differs onRemovedClass (.capture config (.ofConfig config)) previous leaf ↔
      (Snapshot.capture config (.ofConfig config)).text? leaf ≠ previous.text? leaf := by
  have hcounts : Changes.Counts onRemovedClass (.capture config (.ofConfig config)) leaf := by
    have hfilled := Config.declares_iff.1 h
    cases leaf with
    | slot name slot => exact .inl (Changes.contains_of_slotValue? hfilled)
    | value name => exact Option.isSome_iff_ne_none.2 hfilled
    | _ => trivial
  exact ⟨fun hdiffers => hdiffers.1, fun hne => ⟨hne, hcounts⟩⟩

/-- The key of a leaf is reported for the leaf's own change, or for that of a leaf confused with it. -/
theorem contains_key_iff {policy : ChangePolicy} (h : config.Declares (.ofConfig config) leaf) :
    (Changes.diff (.capture config (.ofConfig config)) (some previous) policy).contains leaf.key = true ↔
      (Snapshot.capture config (.ofConfig config)).text? leaf ≠ previous.text? leaf ∨
        ∃ other, leaf.Confused other ∧
          Changes.Differs policy.onRemovedClass (.capture config (.ofConfig config)) previous other := by
  have hmem : (Changes.diff (.capture config (.ofConfig config)) (some previous) policy).contains leaf.key =
      true ↔ leaf.key ∈ Changes.diff (.capture config (.ofConfig config)) (some previous) policy :=
    List.contains_iff_mem
  have hown : Changes.Differs policy.onRemovedClass (.capture config (.ofConfig config)) previous leaf ↔
      (Snapshot.capture config (.ofConfig config)).text? leaf ≠ previous.text? leaf :=
    differs_iff_of_declares h
  rw [hmem, Changes.mem_diff_iff, ← hown]
  constructor
  · rintro ⟨other, hdiffers, hkey⟩
    rcases (Leaf.key_eq_key_iff (isNamed_of_declares h) (isNamed_of_differs hdiffers)).1 hkey.symm with
      rfl | hconfused
    · exact .inl hdiffers
    · exact .inr ⟨other, hconfused, hdiffers⟩
  · rintro (hdiffers | ⟨other, hconfused, hdiffers⟩)
    · exact ⟨leaf, hdiffers, rfl⟩
    · have hkey := (Leaf.key_eq_key_iff (isNamed_of_declares h) (isNamed_of_differs hdiffers)).2 (.inr hconfused)
      exact ⟨other, hdiffers, hkey.symm⟩

theorem namedLikeMap_of_imitates {name key : String} {slot : Slot} {map : ValueMap}
    (h : Leaf.Imitates name slot map key) : NamedLikeMap name := by
  rcases h with ⟨hname, -⟩ | ⟨more, hname, -⟩
  · exact ⟨map, .inl hname⟩
  · exact ⟨map, .inr ⟨more, hname⟩⟩

/-- The class of a slot that is filled, or is not as it was, is there or was there. -/
theorem mem_keys_of_slot {name : String} {slot : Slot}
    (h : (Snapshot.capture config (.ofConfig config)).text? (.slot name slot) ≠ none ∨
      (Snapshot.capture config (.ofConfig config)).text? (.slot name slot) ≠
        previous.text? (.slot name slot)) :
    name ∈ config.classes.keys ++ previous.classes.keys := by
  by_contra hnot
  simp only [List.mem_append, not_or, ← SortedMap.get?_eq_none_iff] at hnot
  have hcurrent : (Snapshot.capture config (.ofConfig config)).text? (.slot name slot) = none := by
    rw [Snapshot.text?, Snapshot.capture, Changes.slotValue?_withoutUnknown, Changes.slotValue?, hnot.1,
      Option.bind_none]
  have hprevious : previous.text? (.slot name slot) = none := by
    rw [Snapshot.text?, Changes.slotValue?, hnot.2, Option.bind_none]
  rcases h with hfilled | hne
  · exact hfilled hcurrent
  · exact hne (hcurrent.trans hprevious.symm)

/-- A changed leaf is confused with one on the page only where a class is named like a map. -/
theorem not_confused_of_differs
    (hnames : ∀ name ∈ config.classes.keys ++ previous.classes.keys, ¬ NamedLikeMap name)
    (h : config.Declares (.ofConfig config) leaf) {other : Leaf}
    (hdiffers : Changes.Differs onRemovedClass (.capture config (.ofConfig config)) previous other) :
    ¬ leaf.Confused other := by
  intro hconfused
  cases leaf with
  | entry map key =>
      cases other with
      | slot name slot =>
          exact hnames name (mem_keys_of_slot (.inr hdiffers.1)) (namedLikeMap_of_imitates hconfused)
      | _ => exact hconfused
  | slot name slot =>
      cases other with
      | entry map key =>
          have hfilled := Config.declares_iff.1 h
          exact hnames name (mem_keys_of_slot (.inl hfilled)) (namedLikeMap_of_imitates hconfused)
      | _ => exact hconfused
  | _ => cases other <;> exact hconfused

end

/-- The page marks the cells whose leaf has another text than before, and beyond these just the cells of
leaves that are confused with a changed one. Where no class is named like a map there are none of these. The
text of the page has the same rows, with the same marks. -/
theorem marks_ofConfig {config : Config} {unknownKeys : UnknownKeyPolicy} {table : VariableTable}
    (h : config.intern unknownKeys = .ok table) (previous : Snapshot) (policy : ChangePolicy) (href : String) :
    Marks config table
      (fun leaf => (Snapshot.capture config table).text? leaf ≠ previous.text? leaf ∨
        ∃ other, leaf.Confused other ∧
          Changes.Differs policy.onRemovedClass (.capture config table) previous other)
      (ofConfig config table (Changes.diff (.capture config table) (some previous) policy) href) ∧
    ((∀ name ∈ config.classes.keys ++ previous.classes.keys, ¬ NamedLikeMap name) →
      Marks config table (fun leaf => (Snapshot.capture config table).text? leaf ≠ previous.text? leaf)
        (ofConfig config table (Changes.diff (.capture config table) (some previous) policy) href)) ∧
    ∀ id, Html.readRows id
        (ofConfig config table (Changes.diff (.capture config table) (some previous) policy) href).html =
      ((ofConfig config table (Changes.diff (.capture config table) (some previous) policy) href).rows id).map
        (List.map reading) := by
  have htable := Config.eq_ofConfig_of_intern h
  subst htable
  refine ⟨marks_of_contains (fun _ hdeclared => contains_key_iff hdeclared) href, ?_,
    readRows_ofConfig config _ _ href⟩
  intro hnames
  apply marks_of_contains
  intro leaf hdeclared
  rw [contains_key_iff hdeclared]
  constructor
  · rintro (hne | ⟨other, hconfused, hdiffers⟩)
    · exact hne
    · exact absurd hconfused (not_confused_of_differs hnames hdeclared hdiffers)
  · exact .inl

/-- The snapshot from before the spacing was declared. -/
def unspacedSnapshot : Snapshot :=
  { Changes.titleSnapshot with spacing := .empty }

theorem marks_ofConfig_title :
    (∀ name ∈ Changes.titleConfig.classes.keys ++ unspacedSnapshot.classes.keys, ¬ NamedLikeMap name) ∧
      (Changes.diff (.capture Changes.titleConfig (.ofConfig Changes.titleConfig))
        (some unspacedSnapshot) ⟨.markNone, .flag⟩).elements = ["spacingMap.lg"] ∧
      Marks Changes.titleConfig (.ofConfig Changes.titleConfig)
        (fun leaf => (Snapshot.capture Changes.titleConfig (.ofConfig Changes.titleConfig)).text? leaf ≠
          unspacedSnapshot.text? leaf)
        (ofConfig Changes.titleConfig (.ofConfig Changes.titleConfig)
          (Changes.diff (.capture Changes.titleConfig (.ofConfig Changes.titleConfig))
            (some unspacedSnapshot) ⟨.markNone, .flag⟩) "tokens.css") := by
  have hnames : ∀ name ∈ Changes.titleConfig.classes.keys ++ unspacedSnapshot.classes.keys,
      ¬ NamedLikeMap name := by
    have hkeys : Changes.titleConfig.classes.keys ++ unspacedSnapshot.classes.keys = ["h1", "h1"] := by
      decide +kernel
    rw [hkeys]
    rintro name hmem ⟨map, hname⟩
    obtain rfl : name = "h1" := by simpa using hmem
    rcases hname with hname | ⟨rest, hname⟩
    · cases map <;> exact absurd hname (by decide)
    · have hhead := congrArg (fun text => text.toList.head?) hname
      cases map <;> simp [ValueMap.word] at hhead
  have htable : Changes.titleConfig.intern .ignore = .ok (.ofConfig Changes.titleConfig) := rfl
  exact ⟨hnames, by decide +kernel,
    (marks_ofConfig htable unspacedSnapshot ⟨.markNone, .flag⟩ "tokens.css").2.1 hnames⟩

/-- A class that is named like the map of spacings, with a spacing that is named like a property. -/
def imitatingConfig (weight : String) : Config where
  brand := "tf"
  category := "typo"
  baseFontSize := 16
  breakpoints := ⟨"375px", "1024px"⟩
  classes := .ofList [("spacingMap", { ClassSpec.empty with fontWeight := some weight })]
  fontFamilies := .empty
  spacing := .ofList [("fontWeight", "8px")]
  colors := .empty
  build := .default

/-- The spacing is as it was, but its cell is marked, as the weight of the class has changed. -/
theorem imitated_mark : (imitatingConfig "800").validate = .ok () ∧
    ∃ current previous, (imitatingConfig "800").intern .ignore = .ok current ∧
      (imitatingConfig "700").intern .ignore = .ok previous ∧
      (Snapshot.capture (imitatingConfig "800") current).text? (.entry .spacing "fontWeight") =
        (Snapshot.capture (imitatingConfig "700") previous).text? (.entry .spacing "fontWeight") ∧
      ∃ row ∈ (ofConfig (imitatingConfig "800") current
          (Changes.diff (.capture (imitatingConfig "800") current)
            (some (.capture (imitatingConfig "700") previous)) ⟨.markNone, .ignore⟩) "tokens.css").rows "spacing",
        row.lookup "Key" = some (.plain (.text "fontWeight")) ∧
          ∃ cell, row.lookup "Raw" = some cell ∧ cell.HasMark := by
  have hvalid : (imitatingConfig "800").validate = .ok () := Config.validate_eq_ok (by decide +kernel)
  have hmark : (Changes.diff (.capture (imitatingConfig "800") (.ofConfig (imitatingConfig "800")))
      (some (.capture (imitatingConfig "700") (.ofConfig (imitatingConfig "700"))))
      ⟨.markNone, .ignore⟩).contains (Leaf.entry .spacing "fontWeight").key = true := by
    decide +kernel
  have htext : ∀ weight table,
      (Snapshot.capture (imitatingConfig weight) table).text? (.entry .spacing "fontWeight") = some "8px" :=
    fun _ _ => rfl
  have hentry : ("fontWeight", "8px") ∈ (imitatingConfig "800").spacing.entries := by decide +kernel
  refine ⟨hvalid, .ofConfig _, .ofConfig _, rfl, rfl, (htext _ _).trans (htext _ _).symm, ?_⟩
  rw [rows_spacing]
  refine ⟨_, List.mem_map_of_mem hentry, by simp, ⟨.text "8px", true⟩, ?_, hasMark_iff.2 rfl⟩
  simp [SortedMap.lookup_cons_eq, variableColumns, variableCells, Config.variableFor, hmark]

end Page

end DesignTokens
