import DesignTokens.Proofs.Interning
import DesignTokens.Proofs.PageMarks

/-!
# Markup of the reference page

The markup of a page is that of the page with all its texts removed, which depends on the number of rules,
entries and changes and on the marks alone.
-/

namespace DesignTokens

/-! ## Maps of one length -/

theorem SortedMap.isEmpty_congr {α β : Type} {values : SortedMap α} {others : SortedMap β}
    (h : values.keys.length = others.keys.length) : values.isEmpty = others.isEmpty := by
  simp only [SortedMap.keys, List.length_map] at h
  rw [SortedMap.isEmpty, SortedMap.isEmpty, Bool.eq_iff_iff, List.isEmpty_iff_length_eq_zero,
    List.isEmpty_iff_length_eq_zero, h]

theorem VariableTable.length_flat {table : VariableTable} {p : Property} {values : SortedMap String}
    (h : ∀ key ∈ values.keys, table.find? (.entry p key) ≠ none) :
    (table.flat p values).length = values.keys.length := by
  unfold VariableTable.flat
  rw [List.length_filterMap_eq_countP, List.countP_eq_length]
  intro key hkey
  rw [Option.isSome_map, Option.isSome_iff_ne_none]
  exact h key hkey

namespace Html

/-! ## Markup of a text -/

/-- The angle brackets and double quotes of a text. -/
def markup (text : String) : String :=
  String.ofList (text.toList.filter (fun c => c = '<' || c = '>' || c = '"'))

theorem markup_append (a b : String) : markup (a ++ b) = markup a ++ markup b := by
  simp [markup]

theorem markup_escape (text : String) : markup (escape text) = "" := by
  have hnone : (escape text).toList.filter (fun c => c = '<' || c = '>' || c = '"') = [] := by
    rw [List.filter_eq_nil_iff]
    intro c hc
    have hplain := not_isDelimiter_of_mem_escape hc
    simp only [IsDelimiter, not_or] at hplain
    simp [hplain]
  rw [markup, hnone, String.ofList_nil]

theorem markup_join_congr {α : Type} {f g : α → String} {items : List α}
    (h : ∀ item ∈ items, markup (f item) = markup (g item)) :
    markup (String.join (items.map f)) = markup (String.join (items.map g)) := by
  induction items with
  | nil => rfl
  | cons item rest ih =>
      simp only [List.map_cons, String.join_cons, markup_append, h item List.mem_cons_self,
        ih (fun other hmem => h other (List.mem_cons_of_mem _ hmem))]

end Html

namespace Page

/-! ## Pages without their texts -/

def Content.blank : Content → Content
  | .text _ => .text ""
  | .code _ => .code ""
  | .classSample _ => .classSample ""
  | .fontSample _ => .fontSample ""
  | .swatch _ => .swatch ""

def Cell.blank (cell : Cell) : Cell :=
  { cell with content := cell.content.blank }

def Cell.blankUnmarked (cell : Cell) : Cell :=
  .plain cell.content.blank

/-- The body without its texts, with each cell replaced. -/
def Body.blank (f : Cell → Cell) : Body → Body
  | .note _ => .note ""
  | .table t => .table ⟨t.columns.map (fun _ => ""), t.rows.map (List.map f)⟩
  | .changes keys => .changes (keys.map (fun _ => ""))

def Section.blank (f : Cell → Cell) (s : Section) : Section :=
  ⟨s.id, "", s.body.blank f⟩

def blank (page : Page) : Page :=
  ⟨"", "", page.sections.map (Section.blank Cell.blank)⟩

open Html (markup markup_append markup_escape markup_join_congr)

theorem markup_content (content : Content) : markup content.html = markup content.blank.html := by
  unfold Content.html Content.blank
  cases content <;> simp only [markup_append, markup_escape]

theorem markup_cell (cell : Cell) : markup cell.html = markup cell.blank.html := by
  unfold Cell.html
  rw [markup_append, markup_append, markup_content]
  simp only [markup_append]
  rfl

theorem markup_row (row : List Cell) : markup (rowHtml row) = markup (rowHtml (row.map Cell.blank)) := by
  have hcells := markup_join_congr (fun cell (_ : cell ∈ row) => markup_cell cell)
  unfold rowHtml
  simp only [markup_append, List.map_map, hcells]
  rfl

theorem markup_body (body : Body) : markup body.html = markup (body.blank Cell.blank).html := by
  unfold Body.html Body.blank
  cases body with
  | note text => simp only [markup_append, markup_escape]
  | table t =>
      have hcolumns :
          markup (String.join (t.columns.map (fun column => "<th>" ++ Html.escape column ++ "</th>"))) =
            markup (String.join (t.columns.map (fun _ => "<th>" ++ Html.escape "" ++ "</th>"))) :=
        markup_join_congr (fun _ _ => by simp only [markup_append, markup_escape])
      have hrows := markup_join_congr (fun row (_ : row ∈ t.rows) => markup_row row)
      unfold Table.html
      simp only [markup_append, List.map_map, hcolumns, hrows]
      rfl
  | changes keys =>
      have hitems : markup (String.join (keys.map changeItem)) =
          markup (String.join (keys.map (fun _ => changeItem ""))) :=
        markup_join_congr (fun _ _ => by simp only [changeItem, markup_append, markup_escape])
      unfold changeCount
      simp only [markup_append, List.map_map, List.length_map, hitems]
      rfl

theorem markup_section (s : Section) : markup s.html = markup (s.blank Cell.blank).html := by
  unfold Section.html Section.blank
  simp only [markup_append, markup_escape, markup_body s.body]

/-- No text of a page adds to its markup. -/
theorem markup_blank (page : Page) : markup page.html = markup page.blank.html := by
  have hsections := markup_join_congr (fun s (_ : s ∈ page.sections) => markup_section s)
  unfold html blank
  simp only [markup_append, markup_escape, List.map_map, hsections]
  rfl

/-! ## Marks -/

def Section.cells (s : Section) : List (List Cell) :=
  match s.body with
  | .table t => t.rows
  | _ => []

/-- A cell by the places of its section, its row and itself. -/
def cell? (page : Page) (k i j : Nat) : Option Cell :=
  (page.sections[k]?.bind (·.cells[i]?)).bind (·[j]?)

theorem Cell.blank_eq {cell other : Cell} (h : cell.blankUnmarked = other.blankUnmarked)
    (hmark : cell.HasMark ↔ other.HasMark) : cell.blank = other.blank := by
  rw [hasMark_iff, hasMark_iff, ← Bool.eq_iff_iff] at hmark
  have hcontent : cell.content.blank = other.content.blank := congrArg Cell.content h
  rw [blank, blank, hcontent, hmark]

theorem map_blank_eq {rows others : List (List Cell)}
    (h : rows.map (List.map Cell.blankUnmarked) = others.map (List.map Cell.blankUnmarked))
    (hmarks : ∀ (i j : Nat) cell other, rows[i]?.bind (·[j]?) = some cell →
      others[i]?.bind (·[j]?) = some other → (cell.HasMark ↔ other.HasMark)) :
    rows.map (List.map Cell.blank) = others.map (List.map Cell.blank) := by
  obtain ⟨hlength, hrows⟩ := map_eq_map_iff_getElem?.1 h
  refine map_eq_map_iff_getElem?.2 ⟨hlength, fun i row otherRow hrow hother => ?_⟩
  obtain ⟨hwidth, hcells⟩ := map_eq_map_iff_getElem?.1 (hrows i row otherRow hrow hother)
  refine map_eq_map_iff_getElem?.2 ⟨hwidth, fun j cell otherCell hcell hotherCell => ?_⟩
  refine Cell.blank_eq (hcells j cell otherCell hcell hotherCell) (hmarks i j cell otherCell ?_ ?_)
  · rw [hrow, Option.bind_some, hcell]
  · rw [hother, Option.bind_some, hotherCell]

theorem Section.blank_eq {s other : Section}
    (h : s.blank Cell.blankUnmarked = other.blank Cell.blankUnmarked)
    (hmarks : ∀ (i j : Nat) cell cell', s.cells[i]?.bind (·[j]?) = some cell →
      other.cells[i]?.bind (·[j]?) = some cell' → (cell.HasMark ↔ cell'.HasMark)) :
    s.blank Cell.blank = other.blank Cell.blank := by
  obtain ⟨id, heading, body⟩ := s
  obtain ⟨otherId, otherHeading, otherBody⟩ := other
  simp only [Section.blank, Section.mk.injEq, true_and] at h ⊢
  refine ⟨h.1, ?_⟩
  cases body with
  | note text => cases otherBody <;> simp_all [Body.blank]
  | changes keys => cases otherBody <;> simp_all [Body.blank]
  | table t =>
      cases otherBody with
      | table t' =>
          simp only [Body.blank, Body.table.injEq, Table.mk.injEq] at h ⊢
          exact ⟨h.2.1, map_blank_eq h.2.2 hmarks⟩
      | _ => simp [Body.blank] at h

/-- Pages that agree but for texts and marks agree but for texts where they have the same marks. -/
theorem blank_eq {page other : Page}
    (h : page.sections.map (Section.blank Cell.blankUnmarked) =
      other.sections.map (Section.blank Cell.blankUnmarked))
    (hmarks : ∀ k i j cell cell', page.cell? k i j = some cell → other.cell? k i j = some cell' →
      (cell.HasMark ↔ cell'.HasMark)) :
    page.blank = other.blank := by
  have hsections : page.sections.map (Section.blank Cell.blank) =
      other.sections.map (Section.blank Cell.blank) := by
    obtain ⟨hlength, hplaces⟩ := map_eq_map_iff_getElem?.1 h
    refine map_eq_map_iff_getElem?.2 ⟨hlength, fun k s otherSection hs hother => ?_⟩
    refine Section.blank_eq (hplaces k s otherSection hs hother)
      (fun i j cell cell' hcell hcell' => hmarks k i j cell cell' ?_ ?_)
    · rw [cell?, hs, Option.bind_some, hcell]
    · rw [cell?, hother, Option.bind_some, hcell']
  rw [blank, blank, hsections]

/-! ## Inputs of one shape -/

/-- What a page is made from. -/
structure Source where
  config : Config
  table : VariableTable
  changes : ChangeSet
  href : String

namespace Source

def page (source : Source) : Page :=
  .ofConfig source.config source.table source.changes source.href

/-- Each key of a flat table has its variable. -/
structure IsCovered (source : Source) : Prop where
  spacing : ∀ key ∈ source.config.spacing.keys, source.table.find? (.entry .spacing key) ≠ none
  colors : ∀ key ∈ source.config.colors.keys, source.table.find? (.entry .color key) ≠ none

/-- The kinds of the bindings of each rule at a breakpoint. -/
def kinds (source : Source) (b : Breakpoint) : List (List Property) :=
  (source.config.rules source.table b).map (fun rule => rule.bindings.map (·.1))

/-- The sources have as many rules, entries and changes, and their pages have the same marks. -/
structure SameShape (source other : Source) : Prop where
  rules : ∀ b, source.kinds b = other.kinds b
  fontFamilies : source.config.fontFamilies.keys.length = other.config.fontFamilies.keys.length
  spacing : source.config.spacing.keys.length = other.config.spacing.keys.length
  colors : source.config.colors.keys.length = other.config.colors.keys.length
  changes : source.changes.size = other.changes.size
  marks : ∀ k i j cell cell', source.page.cell? k i j = some cell → other.page.cell? k i j = some cell' →
    (cell.HasMark ↔ cell'.HasMark)

end Source

theorem Body.blank_table {α β : Type} {columns : List String} {row : α → List Cell} {otherRow : β → List Cell}
    {items : List α} {others : List β} {f : Cell → Cell} (h : items.length = others.length)
    (hrow : ∀ item other, (row item).map f = (otherRow other).map f) :
    (Body.table ⟨columns, items.map row⟩).blank f = (Body.table ⟨columns, others.map otherRow⟩).blank f := by
  have hrows : (items.map row).map (List.map f) = (others.map otherRow).map (List.map f) := by
    rw [List.map_map, List.map_map]
    exact map_eq_map_iff_getElem?.2 ⟨h, fun _ item other _ _ => hrow item other⟩
  simp only [Body.blank, hrows]

/-- The rows of rules depend on the number of their bindings alone. -/
theorem map_typographyRow (changes : ChangeSet) (rules : List Rule) :
    (rules.flatMap (fun rule => rule.bindings.map (typographyRow changes rule))).map (List.map Cell.blankUnmarked) =
      (rules.map (fun rule => rule.bindings.map (·.1))).flatMap (fun kinds =>
        kinds.map (fun _ => [.plain (.classSample ""), .plain (.text ""), .plain (.code ""),
          .plain (.text ""), .plain (.text "")])) := by
  simp only [List.map_flatMap, List.flatMap_map, List.map_map]
  rfl

section

variable {source other : Source} (h : source.SameShape other)

include h

theorem blank_changeSection :
    (changeSection source.changes).blank Cell.blankUnmarked =
      (changeSection other.changes).blank Cell.blankUnmarked := by
  have hlength : source.changes.elements.length = other.changes.elements.length := h.changes
  have hempty : source.changes.isEmpty = other.changes.isEmpty := by
    rw [SortedSet.isEmpty, SortedSet.isEmpty, Bool.eq_iff_iff, List.isEmpty_iff_length_eq_zero,
      List.isEmpty_iff_length_eq_zero, hlength]
  unfold changeSection
  rw [hempty]
  split
  · rfl
  · exact congrArg (fun keys => Section.mk "changes" "" (.changes keys))
      (map_eq_map_iff_getElem?.2 ⟨hlength, fun _ _ _ _ _ => rfl⟩)

theorem blank_typographySection (b : Breakpoint) :
    (typographySection source.config source.table source.changes b).blank Cell.blankUnmarked =
      (typographySection other.config other.table other.changes b).blank Cell.blankUnmarked := by
  have hrules := h.rules b
  unfold Source.kinds at hrules
  have hsource := map_typographyRow source.changes (source.config.rules source.table b)
  have hother := map_typographyRow other.changes (other.config.rules other.table b)
  unfold typographySection
  cases hs : source.config.rules source.table b with
  | nil =>
      rw [hs, List.map_nil, eq_comm, List.map_eq_nil_iff] at hrules
      rw [hrules]
      rfl
  | cons rule rest =>
      cases ho : other.config.rules other.table b with
      | nil => simp [hs, ho] at hrules
      | cons otherRule otherRest =>
          rw [hs] at hsource hrules
          rw [ho] at hother hrules
          simp only [Section.blank, Body.blank, hsource, hother, hrules]

theorem blank_fontFamilySections :
    (fontFamilySections source.config source.changes).map (Section.blank Cell.blankUnmarked) =
      (fontFamilySections other.config other.changes).map (Section.blank Cell.blankUnmarked) := by
  have hlength : source.config.fontFamilies.entries.length = other.config.fontFamilies.entries.length := by
    simpa only [SortedMap.keys, List.length_map] using h.fontFamilies
  unfold fontFamilySections
  rw [SortedMap.isEmpty_congr h.fontFamilies]
  split
  · rfl
  · exact congrArg (fun body => [Section.mk "font-families" "" body])
      (Body.blank_table hlength (fun _ _ => rfl))

theorem blank_spacingSection (hcovered : source.IsCovered) (hother : other.IsCovered) :
    (spacingSection source.config source.table source.changes).blank Cell.blankUnmarked =
      (spacingSection other.config other.table other.changes).blank Cell.blankUnmarked := by
  have hlength : (source.table.flat .spacing source.config.spacing).length =
      (other.table.flat .spacing other.config.spacing).length := by
    rw [VariableTable.length_flat hcovered.spacing, VariableTable.length_flat hother.spacing, h.spacing]
  unfold spacingSection
  rw [SortedMap.isEmpty_congr h.spacing]
  split
  · rfl
  · exact congrArg (Section.mk "spacing" "") (Body.blank_table hlength (fun _ _ => rfl))

theorem blank_colorSection (hcovered : source.IsCovered) (hother : other.IsCovered) :
    (colorSection source.config source.table source.changes).blank Cell.blankUnmarked =
      (colorSection other.config other.table other.changes).blank Cell.blankUnmarked := by
  have hlength : (source.table.flat .color source.config.colors).length =
      (other.table.flat .color other.config.colors).length := by
    rw [VariableTable.length_flat hcovered.colors, VariableTable.length_flat hother.colors, h.colors]
  unfold colorSection
  rw [SortedMap.isEmpty_congr h.colors]
  split
  · rfl
  · exact congrArg (Section.mk "colors" "") (Body.blank_table hlength (fun _ _ => rfl))

theorem blank_page (hcovered : source.IsCovered) (hother : other.IsCovered) :
    source.page.blank = other.page.blank := by
  refine blank_eq ?_ h.marks
  have hbreakpoints : (breakpointSection source.config source.changes).blank Cell.blankUnmarked =
      (breakpointSection other.config other.changes).blank Cell.blankUnmarked := rfl
  simp only [Source.page, ofConfig, Breakpoint.all, List.map_append, List.map_cons, List.map_nil,
    blank_changeSection h, hbreakpoints, blank_typographySection h, blank_fontFamilySections h,
    blank_spacingSection h hcovered hother, blank_colorSection h hcovered hother]

end

theorem find?_ne_none_of_mem_keys {config : Config} {p : Property} {values : SortedMap String}
    (h : ∀ request ∈ values.requests p, request ∈ config.requests) :
    ∀ key ∈ values.keys, (VariableTable.ofConfig config).find? (.entry p key) ≠ none := by
  intro key hkey
  obtain ⟨entry, hentry, rfl⟩ := List.mem_map.1 hkey
  rw [Interning.find?_ofConfig (h _ (List.mem_map_of_mem hentry))]
  exact Option.some_ne_none _

/-- The table that is interned from a config covers it. -/
theorem Source.isCovered_of_intern {config : Config} {policy : UnknownKeyPolicy} {table : VariableTable}
    (h : config.intern policy = .ok table) (changes : ChangeSet) (href : String) :
    Source.IsCovered ⟨config, table, changes, href⟩ := by
  obtain rfl := Config.eq_ofConfig_of_intern h
  exact {
    spacing := find?_ne_none_of_mem_keys (fun _ => Interning.mem_requests_of_spacing)
    colors := find?_ne_none_of_mem_keys (fun _ => Interning.mem_requests_of_colors) }

/-- Text never becomes markup: escapes are undone and hold no delimiter, and pages of one shape have the same
markup, whatever their texts are. -/
theorem text_never_markup :
    (∀ text, Html.unescape (Html.escape text) = text) ∧
    (∀ text, ∀ c ∈ (Html.escape text).toList, c ≠ '<' ∧ c ≠ '>' ∧ c ≠ '"' ∧ c ≠ '\'') ∧
    (∀ config policy table changes href, Config.intern config policy = .ok table →
      Source.IsCovered ⟨config, table, changes, href⟩) ∧
    ∀ source other : Source, source.IsCovered → other.IsCovered → source.SameShape other →
      Html.markup source.page.html = Html.markup other.page.html := by
  refine ⟨Html.unescape_escape, ?_, ?_, ?_⟩
  · intro text c hc
    have hplain := Html.not_isDelimiter_of_mem_escape hc
    simpa only [Html.IsDelimiter, not_or] using hplain
  · intro config policy table changes href h
    exact Source.isCovered_of_intern h changes href
  · intro source other hcovered hother h
    rw [markup_blank source.page, markup_blank other.page, blank_page h hcovered hother]

/-- Marks are the same where the sections have them at the same places. -/
theorem hasMark_iff_of_cells {page other : Page}
    (h : page.sections.map (fun s => s.cells.map (List.map Cell.isChanged)) =
      other.sections.map (fun s => s.cells.map (List.map Cell.isChanged)))
    {k i j : Nat} {cell cell' : Cell} (hcell : page.cell? k i j = some cell)
    (hcell' : other.cell? k i j = some cell') : cell.HasMark ↔ cell'.HasMark := by
  have hmark : ∀ shown : Page, (shown.cell? k i j).map Cell.isChanged =
      ((shown.sections.map (fun s => s.cells.map (List.map Cell.isChanged)))[k]?.bind (·[i]?)).bind (·[j]?) := by
    intro shown
    unfold cell?
    rw [List.getElem?_map]
    cases shown.sections[k]? with
    | none => rfl
    | some s =>
        simp only [Option.bind_some, Option.map_some, List.getElem?_map]
        cases s.cells[i]? with
        | none => rfl
        | some row => simp only [Option.bind_some, Option.map_some, List.getElem?_map]
  have hsame := hmark page
  rw [h, ← hmark other, hcell, hcell', Option.map_some, Option.map_some, Option.some_inj] at hsame
  rw [hasMark_iff, hasMark_iff, hsame]

def plainConfig : Config where
  brand := "tf"
  category := "typo"
  baseFontSize := 16
  breakpoints := ⟨"375px", "1024px"⟩
  classes := .ofList [("h1", { ClassSpec.empty with fontWeight := some "700" })]
  fontFamilies := .ofList [("sans", "Inter")]
  spacing := .empty
  colors := .ofList [("ink", "#111")]
  build := .default

/-- The plain tokens with markup in their texts. -/
def taggedConfig : Config :=
  { plainConfig with
    brand := "\"><script>"
    breakpoints := ⟨"<b>", "</b>"⟩
    classes := .ofList [("</td>", { ClassSpec.empty with fontWeight := some "400" })]
    fontFamilies := .ofList [("'&'", "\"><i")]
    colors := .ofList [("sky", "</span><b>")] }

def plainSource : Source :=
  ⟨plainConfig, .ofConfig plainConfig, .ofList ["colors.ink", "h9"], "tokens.css"⟩

def taggedSource : Source :=
  ⟨taggedConfig, .ofConfig taggedConfig, .ofList ["<gone>", "colors.sky"], "\"x\">"⟩

theorem text_never_markup_tagged :
    plainSource.IsCovered ∧ taggedSource.IsCovered ∧ plainSource.SameShape taggedSource ∧
      Html.markup plainSource.page.html = Html.markup taggedSource.page.html := by
  have hplain : plainConfig.intern .ignore = .ok (.ofConfig plainConfig) := rfl
  have htagged : taggedConfig.intern .ignore = .ok (.ofConfig taggedConfig) := rfl
  have hcovered : plainSource.IsCovered := Source.isCovered_of_intern hplain _ _
  have hother : taggedSource.IsCovered := Source.isCovered_of_intern htagged _ _
  have hshape : plainSource.SameShape taggedSource := {
    rules := by
      intro b
      cases b <;> decide +kernel
    fontFamilies := by decide +kernel
    spacing := by decide +kernel
    colors := by decide +kernel
    changes := by decide +kernel
    marks := fun _ _ _ _ _ hcell hcell' => hasMark_iff_of_cells (by decide +kernel) hcell hcell' }
  exact ⟨hcovered, hother, hshape, text_never_markup.2.2.2 _ _ hcovered hother hshape⟩

end Page

end DesignTokens
