import DesignTokens.Proofs.Html.Tags
import DesignTokens.Text.Digits

/-!
# The text of the reference page

Who takes the text of a page apart at its tags finds the tables that the page is made of, with all rows and
cells in order, their marks and their words.
-/

namespace DesignTokens

namespace Html

/-! ## Reading a page -/

/-- The words within a block. -/
def words (block : Tag × List Tag) : String :=
  unescape (block.1.text ++ String.join (block.2.map (·.text)))

/-- The mark and the words of a cell. -/
def readCell (block : Tag × List Tag) : Bool × String :=
  (block.1.attributes = " class=\"changed\"", words block)

/-- The rows of a table after its first one, each cell with its heading. -/
def readTable (tags : List Tag) : List (List (String × Bool × String)) :=
  match blocks "tr" tags with
  | [] => []
  | first :: rows =>
      rows.map (fun row => ((blocks "th" first.2).map words).zip ((blocks "td" row.2).map readCell))

/-- The rows that stand in the section with this id. -/
def readRows (id text : String) : List (List (String × Bool × String)) :=
  ((blocks "section" (tags text)).filter (fun block => block.1.attributes = " id=\"" ++ id ++ "\"")).flatMap
    (fun block => readTable block.2)

end Html

namespace Page

open Html (Tag Written blocks words readCell readTable readRows)

/-- The rows of a section's table, each cell with its heading. -/
def Section.rows (s : Section) : List (List (String × Cell)) :=
  match s.body with
  | .table table => table.rows.map (fun row => table.columns.zip row)
  | _ => []

/-- The rows of the section with this id; there are none where it has no table. -/
def rows (page : Page) (id : String) : List (List (String × Cell)) :=
  page.sections.flatMap (fun s => if s.id = id then s.rows else [])

def Content.words : Content → String
  | .text s => s
  | .code s => s
  | .classSample className => className
  | .fontSample family => family
  | .swatch _ => ""

/-- A cell as it is read: its heading, its mark and its words. -/
def reading (cell : String × Cell) : String × Bool × String :=
  (cell.1, cell.2.isChanged, cell.2.content.words)

/-! ## Cells -/

namespace Content

/-- What is written for a content: text at first, and tags with more of it. -/
def tags : Content → String × List Tag
  | .text s => (Html.escape s, [])
  | .code s => ("", [⟨"code", "", Html.escape s⟩, ⟨"/code", "", ""⟩])
  | .classSample className =>
      ("", [⟨"span", " class=\"" ++ Html.escape className ++ "\"", Html.escape className⟩, ⟨"/span", "", ""⟩])
  | .fontSample family =>
      ("", [⟨"span", " style=\"font-family:" ++ Html.escape family ++ "\"", Html.escape family⟩,
        ⟨"/span", "", ""⟩])
  | .swatch reference =>
      ("", [⟨"span", " class=\"swatch\" style=\"background:" ++ Html.escape reference ++ "\"", ""⟩,
        ⟨"/span", "", ""⟩])

theorem html_eq (content : Content) :
    content.html = content.tags.1 ++ String.join (content.tags.2.map Tag.html) := by
  have hjoin : ∀ opening closing : Tag,
      "" ++ String.join ([opening, closing].map Tag.html) = opening.html ++ closing.html := by
    intro opening closing
    rw [String.empty_append, List.map_cons, String.join_cons, List.map_cons, String.join_cons, List.map_nil,
      String.join_nil, String.append_empty]
  cases content with
  | text s => exact String.append_empty.symm
  | code s =>
      rw [tags, hjoin]
      rfl
  | classSample className =>
      rw [tags, hjoin, Tag.html_quoted]
      rfl
  | fontSample family =>
      rw [tags, hjoin, Tag.html_quoted]
      rfl
  | swatch reference =>
      rw [tags, hjoin, Tag.html_quoted, String.append_empty, String.append_assoc]
      rfl

theorem isPlain_of_mem {content : Content} : ∀ tag ∈ content.tags.2, tag.IsPlain := by
  have hspan : Html.Avoids ['<', '>', ' '] "span" := by decide
  have hclose : ∀ tag ∈ [(⟨"/span", "", ""⟩ : Tag)], tag.IsPlain :=
    List.forall_mem_singleton.2 (Tag.isPlain_of_text (by decide) (by decide))
  cases content with
  | text s => exact nofun
  | code s =>
      exact List.forall_mem_cons.2 ⟨Tag.isPlain_of_text (by decide) (Html.avoids_open_escape s),
        List.forall_mem_singleton.2 (Tag.isPlain_of_text (by decide) (by decide))⟩
  | classSample className =>
      exact List.forall_mem_cons.2 ⟨Tag.isPlain_of_quoted hspan (by decide) rfl (Html.avoids_escape className)
        (Html.avoids_open_escape className), hclose⟩
  | fontSample family =>
      exact List.forall_mem_cons.2 ⟨Tag.isPlain_of_quoted hspan (by decide) rfl (Html.avoids_escape family)
        (Html.avoids_open_escape family), hclose⟩
  | swatch reference =>
      exact List.forall_mem_cons.2 ⟨Tag.isPlain_of_quoted hspan (by decide) rfl (Html.avoids_escape reference)
        (by decide), hclose⟩

def elements : List String :=
  ["code", "/code", "span", "/span"]

theorem element_of_mem {content : Content} : ∀ tag ∈ content.tags.2, tag.element ∈ elements := by
  cases content with
  | text s => exact nofun
  | _ => exact List.forall_mem_cons.2 ⟨by simp [elements], List.forall_mem_singleton.2 (by simp [elements])⟩

theorem unescape_tags (content : Content) :
    Html.unescape (content.tags.1 ++ String.join (content.tags.2.map (·.text))) = content.words := by
  have htexts : content.tags.1 ++ String.join (content.tags.2.map (·.text)) = Html.escape content.words := by
    cases content with
    | text s => exact String.append_empty
    | swatch reference => rfl
    | code s | classSample s | fontSample s =>
        rw [tags, List.map_cons, List.map_cons, List.map_nil, String.join_cons, String.join_cons, String.join_nil,
          String.append_empty, String.append_empty, String.empty_append]
        rfl
  rw [htexts, Html.unescape_escape]

end Content

namespace Cell

/-- The opening tag of a cell, and the tags of what stands in it. -/
def block (cell : Cell) : Tag × List Tag :=
  (⟨"td", if cell.isChanged then " class=\"changed\"" else "", cell.content.tags.1⟩, cell.content.tags.2)

def tags (cell : Cell) : List Tag :=
  cell.block.1 :: (cell.block.2 ++ [⟨"/td", "", ""⟩])

theorem html_eq (cell : Cell) : cell.html =
    cell.block.1.html ++ String.join (cell.block.2.map Tag.html) ++ Tag.html ⟨"/td", "", ""⟩ := by
  have hopen : (if cell.isChanged then "<td class=\"changed\">" else "<td>") =
      "<" ++ "td" ++ (if cell.isChanged then " class=\"changed\"" else "") ++ ">" := by
    cases cell.isChanged <;> rfl
  rw [html, hopen, cell.content.html_eq, ← String.append_assoc]
  rfl

theorem isPlain_block (cell : Cell) : cell.block.1.IsPlain := by
  have helement : Html.Avoids ['<', '>', ' '] "td" := by decide
  have htext : Html.Avoids ['<'] cell.content.tags.1 := by
    cases cell.content with
    | text s => exact Html.avoids_open_escape s
    | _ => exact Html.avoids_empty _
  unfold block
  cases cell.isChanged with
  | false => exact Tag.isPlain_of_text helement htext
  | true => exact Tag.isPlain_of_blank helement (by decide) rfl htext

theorem written (cell : Cell) : Written cell.html cell.tags := by
  rw [cell.html_eq]
  have hinner : Written (String.join (cell.block.2.map Tag.html)) cell.block.2 := ⟨rfl, Content.isPlain_of_mem⟩
  exact ((Written.single cell.isPlain_block).append hinner).append (.plain_tag "/td" "" (by decide) (by decide))

theorem isBlock (cell : Cell) : Html.IsBlock "td" cell.block cell.tags where
  opens := rfl
  inner := by
    have hother : ∀ element ∈ Content.elements, element ≠ "td" ∧ element ≠ "/" ++ "td" := by decide
    exact fun tag htag => hother _ (Content.element_of_mem tag htag)
  closes := ⟨_, rfl, rfl⟩

theorem readCell_block (cell : Cell) : readCell cell.block = (cell.isChanged, cell.content.words) := by
  have hmark : decide ((if cell.isChanged then " class=\"changed\"" else "") = " class=\"changed\"") =
      cell.isChanged := by
    cases cell.isChanged <;> decide
  exact congr (congrArg Prod.mk hmark) cell.content.unescape_tags

def elements : List String :=
  "td" :: "/td" :: Content.elements

theorem element_of_mem {cell : Cell} : ∀ tag ∈ cell.tags, tag.element ∈ elements := by
  rw [tags, List.forall_mem_cons, List.forall_mem_append, List.forall_mem_singleton]
  refine ⟨by simp [block, elements], fun tag htag => ?_, by simp [elements]⟩
  exact List.mem_cons_of_mem _ (List.mem_cons_of_mem _ (Content.element_of_mem tag htag))

end Cell

/-! ## Tables -/

namespace Table

def headingTags (column : String) : List Tag :=
  [⟨"th", "", Html.escape column⟩, ⟨"/th", "", ""⟩]

def headingBlock (table : Table) : Tag × List Tag :=
  (⟨"tr", "", ""⟩, table.columns.flatMap headingTags)

def rowBlock (row : List Cell) : Tag × List Tag :=
  (⟨"tr", "", ""⟩, row.flatMap Cell.tags)

/-- The tags of a row that is written with its end. -/
def rowTags (block : Tag × List Tag) : List Tag :=
  block.1 :: (block.2 ++ [⟨"/tr", "", "\n"⟩])

def tags (table : Table) : List Tag :=
  [⟨"table", "", "\n"⟩] ++ (rowTags table.headingBlock ++
    (table.rows.flatMap (fun row => rowTags (rowBlock row)) ++ [⟨"/table", "", "\n"⟩]))

theorem written_row (row : List Cell) : Written (rowHtml row) (rowTags (rowBlock row)) := by
  have hopen : Written "<tr>" [⟨"tr", "", ""⟩] := .plain_tag "tr" "" (by decide) (by decide)
  have hclose : Written "</tr>\n" [⟨"/tr", "", "\n"⟩] := .plain_tag "/tr" "\n" (by decide) (by decide)
  exact (hopen.append (Written.join (fun cell _ => cell.written))).append hclose

theorem written_heading (column : String) :
    Written ("<th>" ++ Html.escape column ++ "</th>") (headingTags column) :=
  .enclosed "th" _ "" (by decide) (Html.avoids_open_escape column) (by decide)

theorem written (table : Table) : Written table.html table.tags := by
  have hopen : Written "<table>\n<tr>" [⟨"table", "", "\n"⟩, ⟨"tr", "", ""⟩] :=
    (Written.plain_tag "table" "\n" (by decide) (by decide)).append (.plain_tag "tr" "" (by decide) (by decide))
  have hcloseRow : Written "</tr>\n" [⟨"/tr", "", "\n"⟩] := .plain_tag "/tr" "\n" (by decide) (by decide)
  have hclose : Written "</table>\n" [⟨"/table", "", "\n"⟩] := .plain_tag "/table" "\n" (by decide) (by decide)
  have hcolumns : Written (String.join (table.columns.map (fun column => "<th>" ++ Html.escape column ++ "</th>")))
      (table.columns.flatMap headingTags) := Written.join (fun column _ => written_heading column)
  have hrows : Written (String.join (table.rows.map rowHtml))
      (table.rows.flatMap (fun row => rowTags (rowBlock row))) := Written.join (fun row _ => written_row row)
  have hall := (((hopen.append hcolumns).append hcloseRow).append hrows).append hclose
  simp only [List.cons_append, List.nil_append, List.append_assoc] at hall
  simp only [tags, rowTags, headingBlock, List.cons_append, List.nil_append, List.append_assoc]
  exact hall

theorem isBlock_row (row : List Cell) : Html.IsBlock "tr" (rowBlock row) (rowTags (rowBlock row)) where
  opens := rfl
  inner := by
    intro tag htag
    obtain ⟨cell, -, hmem⟩ := List.mem_flatMap.1 htag
    have hother : ∀ element ∈ Cell.elements, element ≠ "tr" ∧ element ≠ "/" ++ "tr" := by decide
    exact hother _ (Cell.element_of_mem tag hmem)
  closes := ⟨_, rfl, rfl⟩

theorem element_of_mem_heading {columns : List String} :
    ∀ tag ∈ columns.flatMap headingTags, tag.element ∈ ["th", "/th"] := by
  intro tag htag
  obtain ⟨column, -, hmem⟩ := List.mem_flatMap.1 htag
  simp only [headingTags, List.mem_cons, List.not_mem_nil, or_false] at hmem
  rcases hmem with rfl | rfl <;> simp

theorem isBlock_heading (table : Table) : Html.IsBlock "tr" table.headingBlock (rowTags table.headingBlock) where
  opens := rfl
  inner := by
    have hother : ∀ element ∈ ["th", "/th"], element ≠ "tr" ∧ element ≠ "/" ++ "tr" := by decide
    exact fun tag htag => hother _ (element_of_mem_heading tag htag)
  closes := ⟨_, rfl, rfl⟩

theorem blocks_row (row : List Cell) : blocks "td" (rowBlock row).2 = row.map Cell.block := by
  have hblocks := Html.blocks_flatMap (fun cell (_ : cell ∈ row) => cell.isBlock) []
  rwa [List.append_nil, blocks, List.append_nil] at hblocks

theorem words_heading (table : Table) : (blocks "th" table.headingBlock.2).map words = table.columns := by
  have hblock : ∀ column : String, Html.IsBlock "th" (⟨"th", "", Html.escape column⟩, []) (headingTags column) :=
    fun column => ⟨rfl, nofun, ⟨_, rfl, rfl⟩⟩
  have hblocks := Html.blocks_flatMap (fun column (_ : column ∈ table.columns) => hblock column) []
  rw [List.append_nil, blocks, List.append_nil] at hblocks
  have hword : ∀ column : String, words (⟨"th", "", Html.escape column⟩, []) = column := by
    intro column
    rw [words, List.map_nil, String.join_nil, String.append_empty, Html.unescape_escape]
  rw [headingBlock, hblocks, List.map_map]
  exact (List.map_congr_left fun column _ => hword column).trans (List.map_id table.columns)

theorem readTable_tags (table : Table) {before : List Tag} (h : ∀ tag ∈ before, tag.element ≠ "tr") :
    readTable (before ++ table.tags) = table.rows.map (fun row => (table.columns.zip row).map reading) := by
  have hblocks : blocks "tr" (before ++ table.tags) = table.headingBlock :: table.rows.map rowBlock := by
    rw [Html.blocks_append_of_ne h, tags, Html.blocks_append_of_ne (by simp), table.isBlock_heading.blocks_append,
      Html.blocks_flatMap (fun row (_ : row ∈ table.rows) => isBlock_row row), Html.blocks_eq_nil (by simp),
      List.append_nil]
  have hrow : ∀ row : List Cell, ((blocks "th" table.headingBlock.2).map words).zip
      ((blocks "td" (rowBlock row).2).map readCell) = (table.columns.zip row).map reading := by
    intro row
    rw [words_heading, blocks_row, List.map_map, List.zip_map_right]
    apply List.map_congr_left
    intro cell _
    exact congrArg (Prod.mk cell.1) cell.2.readCell_block
  rw [readTable, hblocks]
  simp only [List.map_map]
  exact List.map_congr_left fun row _ => hrow row

end Table

/-! ## Sections -/

/-- The number of changes in words. -/
def countText (keys : List String) : String :=
  toString keys.length ++ " change" ++ (if keys.length = 1 then "" else "s") ++ " since the previous build."

theorem avoids_countText (keys : List String) : Html.Avoids ['<'] (countText keys) := by
  have hcount : Html.Avoids ['<'] (toString keys.length) := by
    intro c hc
    rw [Nat.toString_eq_repr, Nat.toList_repr] at hc
    have hdigit : c.isDigit := Nat.isDigit_of_mem_toDigits (by decide) (by decide) hc
    exact fun hmem => Text.ne_of_isIn hdigit (by decide) (List.mem_singleton.1 hmem)
  have hplural : Html.Avoids ['<'] (if keys.length = 1 then "" else "s") := by
    split <;> decide
  simp only [countText, Html.avoids_append_iff]
  exact ⟨⟨⟨hcount, by decide⟩, hplural⟩, by decide⟩

theorem written_changeCount (keys : List String) :
    Written (changeCount keys) [⟨"p", "", countText keys⟩, ⟨"/p", "", "\n"⟩] := by
  have hcount : changeCount keys = "<p>" ++ countText keys ++ "</p>\n" := by
    have hsplit : " since the previous build.</p>\n" = " since the previous build." ++ "</p>\n" := rfl
    rw [changeCount, hsplit, countText]
    simp only [String.append_assoc]
  rw [hcount]
  exact .enclosed "p" _ "\n" (by decide) (avoids_countText keys) (by decide)

def itemTags (key : String) : List Tag :=
  [⟨"li", "", ""⟩, ⟨"code", "", Html.escape key⟩, ⟨"/code", "", ""⟩, ⟨"/li", "", "\n"⟩]

theorem written_changeItem (key : String) : Written (changeItem key) (itemTags key) := by
  have hitem : Written "<li>" [⟨"li", "", ""⟩] := .plain_tag "li" "" (by decide) (by decide)
  have hcode : Written ("<code>" ++ Html.escape key) [⟨"code", "", Html.escape key⟩] :=
    .plain_tag "code" _ (by decide) (Html.avoids_open_escape key)
  have hclose : Written "</code></li>\n" [⟨"/code", "", ""⟩, ⟨"/li", "", "\n"⟩] :=
    (Written.plain_tag "/code" "" (by decide) (by decide)).append (.plain_tag "/li" "\n" (by decide) (by decide))
  have hopen : "<li><code>" ++ Html.escape key = "<li>" ++ ("<code>" ++ Html.escape key) := by
    have hsplit : "<li><code>" = "<li>" ++ "<code>" := rfl
    rw [hsplit, String.append_assoc]
  rw [changeItem, hopen]
  exact (hitem.append hcode).append hclose

namespace Body

def tags : Body → List Tag
  | .note text => [⟨"p", "", Html.escape text⟩, ⟨"/p", "", "\n"⟩]
  | .table t => t.tags
  | .changes keys =>
      [⟨"p", "", countText keys⟩, ⟨"/p", "", "\n"⟩, ⟨"ul", "", "\n"⟩] ++
        (keys.flatMap itemTags ++ [⟨"/ul", "", "\n"⟩])

theorem written (body : Body) : Written body.html body.tags := by
  cases body with
  | note text =>
      exact .enclosed "p" _ "\n" (by decide) (Html.avoids_open_escape text) (by decide)
  | table t => exact t.written
  | changes keys =>
      have hopen : Written "<ul>\n" [⟨"ul", "", "\n"⟩] := .plain_tag "ul" "\n" (by decide) (by decide)
      have hclose : Written "</ul>\n" [⟨"/ul", "", "\n"⟩] := .plain_tag "/ul" "\n" (by decide) (by decide)
      have hitems : Written (String.join (keys.map changeItem)) (keys.flatMap itemTags) :=
        Written.join (fun key _ => written_changeItem key)
      have hall := (((written_changeCount keys).append hopen).append hitems).append hclose
      rw [List.append_assoc] at hall
      exact hall

/-- The elements whose tags may stand in a body, the opening and the closing ones. -/
def elements : Body → List String
  | .note _ => ["p", "/p"]
  | .table _ => ["table", "/table", "tr", "/tr", "th", "/th"] ++ Cell.elements
  | .changes _ => ["p", "/p", "ul", "/ul", "li", "/li", "code", "/code"]

theorem element_of_mem {body : Body} : ∀ tag ∈ body.tags, tag.element ∈ body.elements := by
  cases body with
  | note text => simp [tags, elements]
  | table table =>
      have hheading : ∀ element ∈ ["th", "/th"], element ∈ (Body.table table).elements := by simp [elements]
      have hcell : ∀ element ∈ Cell.elements, element ∈ (Body.table table).elements :=
        fun _ helement => List.mem_append_right _ helement
      simp only [tags, Table.tags, Table.rowTags, Table.rowBlock, List.forall_mem_append, List.forall_mem_cons,
        List.forall_mem_flatMap]
      refine ⟨by simp [elements], ⟨by simp [Table.headingBlock, elements], ?_, by simp [elements]⟩, ?_,
        by simp [elements]⟩
      · exact fun tag htag => hheading _ (Table.element_of_mem_heading tag htag)
      · exact fun row _ => ⟨by simp [elements], fun cell _ tag htag => hcell _ (Cell.element_of_mem tag htag),
          by simp [elements]⟩
  | changes keys =>
      rw [tags, List.forall_mem_append, List.forall_mem_append]
      refine ⟨by simp [elements], ?_, by simp [elements]⟩
      intro tag htag
      obtain ⟨key, -, hmem⟩ := List.mem_flatMap.1 htag
      simp only [itemTags, List.mem_cons, List.not_mem_nil, or_false] at hmem
      rcases hmem with rfl | rfl | rfl | rfl <;> simp [elements]

theorem ne_section_of_mem {body : Body} :
    ∀ tag ∈ body.tags, tag.element ≠ "section" ∧ tag.element ≠ "/" ++ "section" := by
  have hother : ∀ element ∈ body.elements, element ≠ "section" ∧ element ≠ "/" ++ "section" := by
    cases body <;> simp [elements, Cell.elements, Content.elements]
  exact fun tag htag => hother _ (element_of_mem tag htag)

end Body

namespace Section

/-- The opening tag of a section, and the tags of what stands in it. -/
def block (s : Section) : Tag × List Tag :=
  (⟨"section", " id=\"" ++ s.id ++ "\"", "\n"⟩,
    [⟨"h2", "", Html.escape s.heading⟩, ⟨"/h2", "", "\n"⟩] ++ s.body.tags)

def tags (s : Section) : List Tag :=
  s.block.1 :: (s.block.2 ++ [⟨"/section", "", "\n"⟩])

theorem written {s : Section} (hid : Html.Avoids ['<', '>'] s.id) : Written s.html s.tags := by
  have hopen : Written (Tag.html ⟨"section", " id=\"" ++ s.id ++ "\"", "\n"⟩) [s.block.1] :=
    .single (Tag.isPlain_of_quoted (by decide) (by decide) rfl hid (by decide))
  have hheading : Written ("<h2>" ++ Html.escape s.heading ++ "</h2>\n")
      [⟨"h2", "", Html.escape s.heading⟩, ⟨"/h2", "", "\n"⟩] :=
    .enclosed "h2" _ "\n" (by decide) (Html.avoids_open_escape s.heading) (by decide)
  have hclose : Written "</section>\n" [⟨"/section", "", "\n"⟩] :=
    .plain_tag "/section" "\n" (by decide) (by decide)
  have hstart : "<section id=\"" ++ s.id ++ "\">\n<h2>" ++ Html.escape s.heading ++ "</h2>\n" =
      Tag.html ⟨"section", " id=\"" ++ s.id ++ "\"", "\n"⟩ ++ ("<h2>" ++ Html.escape s.heading ++ "</h2>\n") := by
    have hsection : "<section id=\"" = "<" ++ "section" ++ " id=\"" := rfl
    have hafter : "\">\n<h2>" = "\">" ++ "\n" ++ "<h2>" := rfl
    rw [Tag.html_quoted, hsection, hafter]
    simp only [String.append_assoc]
  have hall := ((hopen.append hheading).append s.body.written).append hclose
  rw [← hstart] at hall
  exact hall

theorem isBlock (s : Section) : Html.IsBlock "section" s.block s.tags where
  opens := rfl
  inner := by
    rw [block, List.forall_mem_append]
    exact ⟨by simp, Body.ne_section_of_mem⟩
  closes := ⟨_, rfl, rfl⟩

end Section

theorem readTable_eq_nil {tags : List Tag} (h : ∀ tag ∈ tags, tag.element ≠ "tr") : readTable tags = [] := by
  rw [readTable, Html.blocks_eq_nil h]

theorem Section.readTable_block (s : Section) : readTable s.block.2 = s.rows.map (List.map reading) := by
  have hheading : ∀ tag ∈ [(⟨"h2", "", Html.escape s.heading⟩ : Tag), ⟨"/h2", "", "\n"⟩], tag.element ≠ "tr" := by
    simp
  have hnone : (∀ element ∈ s.body.elements, element ≠ "tr") → readTable s.block.2 = [] := by
    intro hother
    exact readTable_eq_nil
      (List.forall_mem_append.2 ⟨hheading, fun tag htag => hother _ (Body.element_of_mem tag htag)⟩)
  cases hbody : s.body with
  | table table =>
      rw [block, rows, hbody, List.map_map]
      exact table.readTable_tags hheading
  | note text =>
      rw [hnone (by simp [hbody, Body.elements]), rows, hbody]
      rfl
  | changes keys =>
      rw [hnone (by simp [hbody, Body.elements]), rows, hbody]
      rfl

/-! ## Whole pages -/

/-- The tags before the sections. -/
def headTags (page : Page) : List Tag :=
  [⟨"!doctype", " html", "\n"⟩, ⟨"html", " lang=\"en\"", "\n"⟩, ⟨"head", "", "\n"⟩,
    ⟨"meta", " charset=\"utf-8\"", "\n"⟩] ++
    [⟨"title", "", Html.escape page.brand ++ " design tokens"⟩, ⟨"/title", "", "\n"⟩] ++
    [⟨"link", " rel=\"stylesheet\" href=\"" ++ Html.escape page.stylesheetHref ++ "\"", "\n"⟩] ++
    [⟨"style", "", style⟩, ⟨"/style", "", "\n"⟩, ⟨"/head", "", "\n"⟩, ⟨"body", "", "\n"⟩] ++
    [⟨"h1", "", Html.escape page.brand ++ " design tokens"⟩, ⟨"/h1", "", "\n"⟩]

theorem written_start : Written "<!doctype html>\n<html lang=\"en\">\n<head>\n<meta charset=\"utf-8\">\n"
    [⟨"!doctype", " html", "\n"⟩, ⟨"html", " lang=\"en\"", "\n"⟩, ⟨"head", "", "\n"⟩,
      ⟨"meta", " charset=\"utf-8\"", "\n"⟩] where
  eq := rfl
  plain := by
    have hdoctype : Tag.IsPlain ⟨"!doctype", " html", "\n"⟩ :=
      Tag.isPlain_of_blank (by decide) (by decide) rfl (by decide)
    have hhtml : Tag.IsPlain ⟨"html", " lang=\"en\"", "\n"⟩ :=
      Tag.isPlain_of_blank (by decide) (by decide) rfl (by decide)
    have hhead : Tag.IsPlain ⟨"head", "", "\n"⟩ := Tag.isPlain_of_text (by decide) (by decide)
    have hmeta : Tag.IsPlain ⟨"meta", " charset=\"utf-8\"", "\n"⟩ :=
      Tag.isPlain_of_blank (by decide) (by decide) rfl (by decide)
    simp only [List.forall_mem_cons, List.not_mem_nil, false_implies, implies_true, and_true]
    exact ⟨hdoctype, hhtml, hhead, hmeta⟩

/-- The title stands in the head and in the body, in an element of its own. -/
theorem written_title (brand : String) {element : String} (helement : Html.Avoids ['<', '>', ' '] element) :
    Written ("<" ++ element ++ ">" ++ Html.escape brand ++ (" design tokens" ++ ("</" ++ element ++ ">\n")))
      [⟨element, "", Html.escape brand ++ " design tokens"⟩, ⟨"/" ++ element, "", "\n"⟩] := by
  have htitle : Html.Avoids ['<'] (Html.escape brand ++ " design tokens") :=
    Html.avoids_append_iff.2 ⟨Html.avoids_open_escape brand, by decide⟩
  have hall := Written.enclosed element _ "\n" helement htitle (by decide)
  have hopen : "</" = "<" ++ "/" := rfl
  have hclose : ">\n" = ">" ++ "\n" := rfl
  simp only [Tag.html, String.append_empty, String.append_assoc] at hall
  simp only [hopen, hclose, String.append_assoc]
  exact hall

theorem written_link (href : String) : Written ("<link rel=\"stylesheet\" href=\"" ++ Html.escape href ++ "\">\n")
    [⟨"link", " rel=\"stylesheet\" href=\"" ++ Html.escape href ++ "\"", "\n"⟩] := by
  have hplain : Tag.IsPlain ⟨"link", " rel=\"stylesheet\" href=\"" ++ Html.escape href ++ "\"", "\n"⟩ :=
    Tag.isPlain_of_quoted (by decide) (by decide) rfl (Html.avoids_escape href) (by decide)
  have hsplit : "\">\n" = "\">" ++ "\n" := rfl
  have hall := Written.single hplain
  rw [Tag.html_quoted, String.append_assoc, ← hsplit] at hall
  exact hall

theorem avoids_style : Html.Avoids ['<'] style := by
  unfold style
  simp only [Html.avoids_append_iff]
  refine ⟨⟨⟨⟨⟨?_, ?_⟩, ?_⟩, ?_⟩, ?_⟩, ?_⟩ <;> decide +kernel

theorem written_style : Written ("<style>" ++ style ++ "</style>\n</head>\n<body>\n")
    [⟨"style", "", style⟩, ⟨"/style", "", "\n"⟩, ⟨"/head", "", "\n"⟩, ⟨"body", "", "\n"⟩] := by
  have hopen : Written ("<style>" ++ style) [⟨"style", "", style⟩] :=
    .plain_tag "style" style (by decide) avoids_style
  have hclose : Written "</style>\n</head>\n<body>\n"
      [⟨"/style", "", "\n"⟩, ⟨"/head", "", "\n"⟩, ⟨"body", "", "\n"⟩] :=
    ((Written.plain_tag "/style" "\n" (by decide) (by decide)).append
      (.plain_tag "/head" "\n" (by decide) (by decide))).append (.plain_tag "body" "\n" (by decide) (by decide))
  exact hopen.append hclose

theorem written {page : Page} (hids : ∀ s ∈ page.sections, Html.Avoids ['<', '>'] s.id) :
    Written page.html
      (page.headTags ++ page.sections.flatMap Section.tags ++ [⟨"/body", "", "\n"⟩, ⟨"/html", "", "\n"⟩]) := by
  have hsections : Written (String.join (page.sections.map Section.html)) (page.sections.flatMap Section.tags) :=
    Written.join (fun s hs => Section.written (hids s hs))
  have hclose : Written "</body>\n</html>\n" [⟨"/body", "", "\n"⟩, ⟨"/html", "", "\n"⟩] :=
    (Written.plain_tag "/body" "\n" (by decide) (by decide)).append
      (.plain_tag "/html" "\n" (by decide) (by decide))
  have htitle : Written ("<title>" ++ Html.escape page.brand ++ " design tokens</title>\n")
      [⟨"title", "", Html.escape page.brand ++ " design tokens"⟩, ⟨"/title", "", "\n"⟩] :=
    written_title page.brand (by decide : Html.Avoids ['<', '>', ' '] "title")
  have hheading : Written ("<h1>" ++ Html.escape page.brand ++ " design tokens</h1>\n")
      [⟨"h1", "", Html.escape page.brand ++ " design tokens"⟩, ⟨"/h1", "", "\n"⟩] :=
    written_title page.brand (by decide : Html.Avoids ['<', '>', ' '] "h1")
  have hall := (((((written_start.append htitle).append (written_link page.stylesheetHref)).append
    written_style).append hheading).append hsections).append hclose
  simp only [← String.append_assoc] at hall
  exact hall

theorem ne_section_of_mem_headTags {page : Page} : ∀ tag ∈ page.headTags, tag.element ≠ "section" := by
  simp [headTags]

theorem flatMap_readTable (sections : List Section) (id : String) :
    ((sections.map Section.block).filter (fun block => block.1.attributes = " id=\"" ++ id ++ "\"")).flatMap
        (fun block => readTable block.2) =
      (sections.flatMap (fun s => if s.id = id then s.rows else [])).map (List.map reading) := by
  induction sections with
  | nil => rfl
  | cons s rest ih =>
      have hid : s.block.1.attributes = " id=\"" ++ id ++ "\"" ↔ s.id = id := by
        rw [Section.block, String.append_left_inj, String.append_right_inj]
      rw [List.map_cons, List.flatMap_cons, List.map_append, ← ih]
      by_cases h : s.id = id
      · rw [List.filter_cons_of_pos (by simpa using hid.2 h), List.flatMap_cons, s.readTable_block, if_pos h]
      · rw [List.filter_cons_of_neg (by simpa using mt hid.1 h), if_neg h]
        rfl

/-- The rows in the text of a page are its own, cell by cell with heading, mark and words. -/
theorem readRows_html {page : Page} (hids : ∀ s ∈ page.sections, Html.Avoids ['<', '>'] s.id)
    (id : String) : readRows id page.html = (page.rows id).map (List.map reading) := by
  have hblocks : blocks "section" (Html.tags page.html) = page.sections.map Section.block := by
    rw [(written hids).tags_eq, List.append_assoc, Html.blocks_append_of_ne ne_section_of_mem_headTags,
      Html.blocks_flatMap (fun s (_ : s ∈ page.sections) => s.isBlock), Html.blocks_eq_nil (by simp), List.append_nil]
  rw [readRows, hblocks]
  exact flatMap_readTable page.sections id

end Page

end DesignTokens
