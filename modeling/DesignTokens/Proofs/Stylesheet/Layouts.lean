import DesignTokens.Stylesheet.Printer

/-!
# Layouts

Printed in lines or minified, a sheet is one text up to layout: blanks, line ends, and the semicolons
before a closing brace. In both the header, the selectors and the declarations stand in their order,
also where their texts hold line breaks, semicolons or braces.
-/

namespace DesignTokens

namespace Layout

/-- A space or a character of line ends. -/
def isBlank (c : Char) : Bool :=
  c = ' ' || c = '\r' || c = '\n'

/-- A text without the runs of semicolons that stand directly before a closing brace. -/
def dropSemicolons : List Char → List Char
  | [] => []
  | c :: rest =>
      if c = ';' ∧ (rest.dropWhile (· = ';')).head? = some '\x7d' then dropSemicolons rest
      else c :: dropSemicolons rest

/-- What a text holds apart from layout. -/
def strip (text : String) : String :=
  String.ofList (dropSemicolons (text.toList.filter (fun c => !isBlank c)))

/-- Two texts hold the same, whatever follows. -/
def Alike (first second : String) : Prop :=
  ∀ rest, strip (first ++ rest) = strip (second ++ rest)

end Layout

/-! ## What a sheet holds -/

/-- The selector and the declarations of a rule, every declaration closed by a semicolon. -/
def StyleRule.content (rule : StyleRule) : String :=
  rule.selector.text ++ "\x7b" ++
    String.join (rule.declarations.map (fun d => d.property ++ ":" ++ d.value ++ ";")) ++ "\x7d"

/-- The header and the rules of a sheet in their order. -/
def Stylesheet.content (sheet : Stylesheet) : String :=
  sheet.header ++ String.join (sheet.base.map StyleRule.content) ++
    "@media(width>=" ++ sheet.minWidth ++ ")\x7b" ++
    String.join (sheet.wide.map StyleRule.content) ++ "\x7d"

namespace Layout

/-! ## Runs of semicolons -/

/-- The first character that is kept tells whether a run ends before a brace. -/
theorem head?_dropSemicolons (text : List Char) :
    (dropSemicolons text).head? = some '\x7d' ↔
      (text.dropWhile (· = ';')).head? = some '\x7d' := by
  induction text with
  | nil => rfl
  | cons c rest ih =>
      by_cases hc : c = ';'
      · rw [List.dropWhile_cons_of_pos (by simpa using hc), dropSemicolons]
        by_cases hbrace : (rest.dropWhile (· = ';')).head? = some '\x7d'
        · rw [if_pos ⟨hc, hbrace⟩, ih]
        · rw [if_neg (fun h => hbrace h.2)]
          simp [hbrace, hc]
      · rw [List.dropWhile_cons_of_neg (by simpa using hc), dropSemicolons, if_neg (fun h => hc h.1)]
        simp

/-- What is kept of a text depends on what is kept of its end, not on the end itself. -/
theorem dropSemicolons_append_congr (first : List Char) {second other : List Char}
    (h : dropSemicolons second = dropSemicolons other) :
    dropSemicolons (first ++ second) = dropSemicolons (first ++ other) := by
  induction first with
  | nil => exact h
  | cons c rest ih =>
      have hbrace : ((rest ++ second).dropWhile (· = ';')).head? = some '\x7d' ↔
          ((rest ++ other).dropWhile (· = ';')).head? = some '\x7d' := by
        rw [← head?_dropSemicolons, ih, head?_dropSemicolons]
      simp only [List.cons_append, dropSemicolons, hbrace, ih]

/-! ## Texts that hold the same -/

variable {first second third fourth : String}

theorem strip_append_congr (first : String) (h : strip second = strip third) :
    strip (first ++ second) = strip (first ++ third) := by
  unfold strip at h ⊢
  rw [String.ofList_inj] at h
  rw [String.toList_append, String.toList_append, List.filter_append, List.filter_append,
    dropSemicolons_append_congr _ h]

namespace Alike

theorem refl (text : String) : Alike text text :=
  fun _ => rfl

theorem trans (h : Alike first second) (h' : Alike second third) : Alike first third :=
  fun rest => (h rest).trans (h' rest)

theorem append (h : Alike first second) (h' : Alike third fourth) :
    Alike (first ++ third) (second ++ fourth) := by
  intro rest
  calc strip (first ++ third ++ rest)
      = strip (first ++ (third ++ rest)) := by rw [String.append_assoc]
    _ = strip (second ++ (third ++ rest)) := h (third ++ rest)
    _ = strip (second ++ (fourth ++ rest)) := strip_append_congr second (h' rest)
    _ = strip (second ++ fourth ++ rest) := by rw [String.append_assoc]

/-- Texts with the same characters apart from blanks hold the same. -/
theorem of_filter (h : first.toList.filter (fun c => !isBlank c) =
    second.toList.filter (fun c => !isBlank c)) : Alike first second := by
  intro rest
  simp only [strip, String.toList_append, List.filter_append, h]

theorem join {α : Type} {f g : α → String} (items : List α) (h : ∀ item, Alike (f item) (g item)) :
    Alike (String.join (items.map f)) (String.join (items.map g)) := by
  induction items with
  | nil => exact .refl _
  | cons item rest ih =>
      simp only [List.map_cons, String.join_cons]
      exact (h item).append ih

/-- A separator of blanks holds nothing. -/
theorem intercalate (separator : String) (hblank : separator.toList.all isBlank)
    (items : List String) : Alike (separator.intercalate items) (String.join items) := by
  have hseparator : Alike separator "" := of_filter (by simpa using hblank)
  induction items with
  | nil =>
      rw [String.intercalate_nil]
      exact .refl _
  | cons item rest ih =>
      cases rest with
      | nil =>
          rw [String.intercalate_singleton, String.join_cons, String.join_nil, String.append_empty]
          exact .refl _
      | cons next others =>
          rw [String.intercalate_cons_cons, String.join_cons, String.append_assoc]
          have hrest := hseparator.append ih
          rw [String.empty_append] at hrest
          exact (refl item).append hrest

/-- The last of several declarations needs no semicolon before the brace. -/
theorem closing (items : List String) :
    Alike (";".intercalate items ++ "\x7d") (String.join (items.map (· ++ ";")) ++ "\x7d") := by
  induction items with
  | nil => exact .refl _
  | cons item rest ih =>
      cases rest with
      | nil =>
          have hbrace : Alike "\x7d" ";\x7d" := by
            intro after
            simp [strip, isBlank, dropSemicolons]
          have hlast := (refl item).append hbrace
          simpa [String.append_assoc] using hlast
      | cons next others =>
          have hmore := (refl (item ++ ";")).append ih
          simpa only [String.intercalate_cons_cons, List.map_cons, String.join_cons,
            String.append_assoc] using hmore

end Alike

/-! ## Indentation -/

theorem filter_cons_congr (c : Char) {text other : List Char}
    (h : text.filter (fun c => !isBlank c) = other.filter (fun c => !isBlank c)) :
    (c :: text).filter (fun c => !isBlank c) = (c :: other).filter (fun c => !isBlank c) := by
  rw [List.filter_cons, List.filter_cons, h]

/-- Of a text its lines lack nothing but line ends. -/
theorem filter_flatten_lines (text : List Char) :
    (Stylesheet.lines text).flatten.filter (fun c => !isBlank c) = text.filter (fun c => !isBlank c) := by
  induction text using Stylesheet.lines.induct with
  | case1 => rfl
  | case2 rest ih => exact ih
  | case3 rest ih => exact ih
  | case4 c rest hpair hbreak hlines ih =>
      rw [hlines] at ih
      rw [Stylesheet.lines, hlines]
      · exact filter_cons_congr c ih
      · exact hpair
      · exact hbreak
  | case5 c rest hpair hbreak first others hlines ih =>
      rw [hlines] at ih
      rw [Stylesheet.lines, hlines]
      · exact filter_cons_congr c ih
      · exact hpair
      · exact hbreak

theorem filter_indentLine (line : List Char) :
    (Stylesheet.indentLine line).filter (fun c => !isBlank c) = line.filter (fun c => !isBlank c) := by
  cases line with
  | nil => rfl
  | cons c rest => rfl

/-- Indentation changes nothing but blanks, also where it cuts a text at a line break of its own. -/
theorem alike_indent (text : String) : Alike (Stylesheet.indent text) text := by
  have hlines : Alike (Stylesheet.indent text) (String.join
      ((Stylesheet.lines text.toList).map (fun line => String.ofList (Stylesheet.indentLine line)))) :=
    .intercalate "\n" (by decide) _
  refine hlines.trans (.of_filter ?_)
  rw [String.toList_join, List.flatMap_map, ← filter_flatten_lines text.toList, List.filter_flatMap,
    List.filter_flatten, ← List.flatMap_def]
  congr 1
  funext line
  rw [String.toList_ofList, filter_indentLine]

/-! ## The printed sheet -/

theorem alike_rule (layout : Layout) (rule : StyleRule) : Alike (rule.render layout) rule.content := by
  cases layout with
  | minified =>
      have hbody := Alike.closing (rule.declarations.map (fun d => d.property ++ ":" ++ d.value))
      rw [List.map_map] at hbody
      have hrule := (Alike.refl (rule.selector.text ++ "\x7b")).append hbody
      rw [← String.append_assoc, ← String.append_assoc] at hrule
      exact hrule
  | lines =>
      have hopen : Alike " \x7b\n" "\x7b" := .of_filter rfl
      have hclose : Alike "\n\x7d" "\x7d" := .of_filter rfl
      have hdeclaration : ∀ d : Declaration,
          Alike ("  " ++ d.property ++ ": " ++ d.value ++ ";") (d.property ++ ":" ++ d.value ++ ";") := by
        intro d
        exact .of_filter (by simp [isBlank, List.filter_append])
      have hbody := (Alike.intercalate "\n" (by decide) _).trans
        (.join rule.declarations hdeclaration)
      exact (((Alike.refl rule.selector.text).append hopen).append hbody).append hclose

theorem alike_join (layout : Layout) (blocks : List String) :
    Alike (Stylesheet.join layout blocks) (String.join blocks) := by
  cases layout with
  | minified => exact .refl _
  | lines => exact .intercalate _ (by decide) blocks

theorem alike_media (layout : Layout) (query body : String) :
    Alike (Stylesheet.media layout query body) ("@media " ++ query ++ "\x7b" ++ body ++ "\x7d") := by
  cases layout with
  | minified => exact .refl _
  | lines =>
      have hopen : Alike " \x7b\n" "\x7b" := .of_filter rfl
      have hclose : Alike "\n\x7d" "\x7d" := .of_filter rfl
      exact (((Alike.refl ("@media " ++ query)).append hopen).append (alike_indent body)).append hclose

theorem alike_rules (layout : Layout) (rules : List StyleRule) :
    Alike (Stylesheet.join layout (rules.map (StyleRule.render layout)))
      (String.join (rules.map StyleRule.content)) :=
  (alike_join layout _).trans (.join rules (alike_rule layout))

/-- The line end after the last block apart, a sheet is its blocks. -/
theorem alike_blocks (layout : Layout) (sheet : Stylesheet) :
    Alike (sheet.render layout) (Stylesheet.join layout
      (sheet.header :: sheet.base.map (StyleRule.render layout) ++
        [Stylesheet.media layout ("(width >= " ++ sheet.minWidth ++ ")")
          (Stylesheet.join layout (sheet.wide.map (StyleRule.render layout)))])) := by
  cases layout with
  | minified => exact .refl _
  | lines =>
      have hend : Alike "\n" "" := .of_filter rfl
      have hblocks := (Alike.refl (Stylesheet.join .lines
        (sheet.header :: sheet.base.map (StyleRule.render .lines) ++
          [Stylesheet.media .lines ("(width >= " ++ sheet.minWidth ++ ")")
            (Stylesheet.join .lines (sheet.wide.map (StyleRule.render .lines)))]))).append hend
      rw [String.append_empty] at hblocks
      exact hblocks

theorem alike_render (layout : Layout) (sheet : Stylesheet) :
    Alike (sheet.render layout) sheet.content := by
  have hquery : Alike ("@media " ++ ("(width >= " ++ sheet.minWidth ++ ")") ++ "\x7b")
      ("@media(width>=" ++ sheet.minWidth ++ ")\x7b") :=
    .of_filter (by simp [isBlank])
  have hwide := (alike_media layout ("(width >= " ++ sheet.minWidth ++ ")") _).trans
    ((hquery.append (alike_rules layout sheet.wide)).append (.refl "\x7d"))
  refine (alike_blocks layout sheet).trans ((alike_join layout _).trans ?_)
  rw [String.join_append, String.join_cons, String.join_cons, String.join_nil, String.append_empty]
  have hbase := (Alike.refl sheet.header).append (.join sheet.base (alike_rule layout))
  simpa only [Stylesheet.content, String.append_assoc] using hbase.append hwide

/-- Apart from layout the two forms of a sheet are one text, and each holds the header, selectors and
declarations of the sheet in their order. -/
theorem strip_render (config : Config) (table : VariableTable) :
    strip ((Stylesheet.ofConfig config table).render .minified) =
        strip ((Stylesheet.ofConfig config table).render .lines) ∧
      ∀ layout : Layout, strip ((Stylesheet.ofConfig config table).render layout) =
        strip (Stylesheet.ofConfig config table).content := by
  have hcontent : ∀ layout : Layout, strip ((Stylesheet.ofConfig config table).render layout) =
      strip (Stylesheet.ofConfig config table).content := by
    intro layout
    have halike := alike_render layout (Stylesheet.ofConfig config table) ""
    rwa [String.append_empty, String.append_empty] at halike
  refine ⟨?_, hcontent⟩
  rw [hcontent .minified, hcontent .lines]

end Layout

end DesignTokens
