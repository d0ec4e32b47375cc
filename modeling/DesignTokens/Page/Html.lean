import DesignTokens.Page

/-!
# HTML text

All text of a page is escaped, in elements as in attributes.
-/

namespace DesignTokens

namespace Html

def escapeChar : Char → List Char
  | '&' => ['&', 'a', 'm', 'p', ';']
  | '<' => ['&', 'l', 't', ';']
  | '>' => ['&', 'g', 't', ';']
  | '"' => ['&', 'q', 'u', 'o', 't', ';']
  | '\'' => ['&', '#', '3', '9', ';']
  | c => [c]

def escape (text : String) : String :=
  String.ofList (text.toList.flatMap escapeChar)

end Html

namespace Page

def style : String :=
  "body\x7bfont-family:system-ui,sans-serif;margin:2rem;color:#1a1a1a\x7d" ++
  "table\x7bborder-collapse:collapse;margin-bottom:2rem;min-width:40rem\x7d" ++
  "th,td\x7bborder:1px solid #d0d0d0;padding:.4rem .6rem;text-align:left;vertical-align:top\x7d" ++
  "td.changed\x7bbackground:#fff4c2;font-weight:600\x7d" ++
  ".swatch\x7bdisplay:inline-block;width:2.5rem;height:1.5rem;border:1px solid #999;vertical-align:middle\x7d" ++
  "code\x7bfont-size:.85em\x7d"

namespace Content

def html : Content → String
  | .text s => Html.escape s
  | .code s => "<code>" ++ Html.escape s ++ "</code>"
  | .classSample className =>
      "<span class=\"" ++ Html.escape className ++ "\">" ++ Html.escape className ++ "</span>"
  | .fontSample family =>
      "<span style=\"font-family:" ++ Html.escape family ++ "\">" ++ Html.escape family ++ "</span>"
  | .swatch reference =>
      "<span class=\"swatch\" style=\"background:" ++ Html.escape reference ++ "\"></span>"

end Content

def Cell.html (cell : Cell) : String :=
  (if cell.isChanged then "<td class=\"changed\">" else "<td>") ++ cell.content.html ++ "</td>"

def rowHtml (row : List Cell) : String :=
  "<tr>" ++ String.join (row.map Cell.html) ++ "</tr>\n"

def Table.html (table : Table) : String :=
  "<table>\n<tr>" ++
    String.join (table.columns.map (fun column => "<th>" ++ Html.escape column ++ "</th>")) ++ "</tr>\n" ++
    String.join (table.rows.map rowHtml) ++ "</table>\n"

def changeCount (keys : List String) : String :=
  "<p>" ++ toString keys.length ++ " change" ++ (if keys.length = 1 then "" else "s") ++
    " since the previous build.</p>\n"

def changeItem (key : String) : String :=
  "<li><code>" ++ Html.escape key ++ "</code></li>\n"

def Body.html : Body → String
  | .note s => "<p>" ++ Html.escape s ++ "</p>\n"
  | .table t => t.html
  | .changes keys => changeCount keys ++ "<ul>\n" ++ String.join (keys.map changeItem) ++ "</ul>\n"

def Section.html (s : Section) : String :=
  "<section id=\"" ++ s.id ++ "\">\n<h2>" ++ Html.escape s.heading ++ "</h2>\n" ++ s.body.html ++
    "</section>\n"

def html (page : Page) : String :=
  "<!doctype html>\n<html lang=\"en\">\n<head>\n<meta charset=\"utf-8\">\n" ++
    "<title>" ++ Html.escape page.brand ++ " design tokens</title>\n" ++
    "<link rel=\"stylesheet\" href=\"" ++ Html.escape page.stylesheetHref ++ "\">\n" ++
    "<style>" ++ style ++ "</style>\n</head>\n<body>\n" ++
    "<h1>" ++ Html.escape page.brand ++ " design tokens</h1>\n" ++
    String.join (page.sections.map Section.html) ++ "</body>\n</html>\n"

end Page

end DesignTokens
