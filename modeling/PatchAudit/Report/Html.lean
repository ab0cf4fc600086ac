import PatchAudit.Report.Issue

/-!
# The HTML report

A page of its own.  It is built as a list of parts: markup, which is written as it is, and text,
which is escaped so that none of its characters has a meaning in the markup.
-/

namespace PatchAudit

/-- A part of a page. -/
inductive Markup where
  | raw (s : Bytes)
  | text (s : Bytes)
  deriving DecidableEq, Repr

namespace Markup

/-- A byte as text of a page. -/
def escapeByte (b : UInt8) : Bytes :=
  if b = 0x26 then "&amp;" else if b = 0x27 then "&#39;" else if b = 0x3C then "&lt;"
  else if b = 0x3E then "&gt;" else if b = 0x22 then "&#34;" else [b]

/-- A text with its special characters escaped. -/
def escape (s : Bytes) : Bytes := s.flatMap escapeByte

/-- A part as it is written. -/
def render : Markup → Bytes
  | raw s => s
  | text s => escape s

end Markup

namespace HtmlReport

/-- The start of the page. -/
def head : Bytes := Bytes.ofString <|
  "<!DOCTYPE html>\n" ++
  "<html lang=\"en\">\n" ++
  "<head>\n" ++
  "<meta charset=\"utf-8\">\n" ++
  "<title>patchlint Report</title>\n" ++
  "<style>\n" ++
  "  body \x7b font-family: -apple-system, BlinkMacSystemFont, 'Segoe UI', Roboto, sans-serif; max-width: 900px; margin: 40px auto; padding: 0 20px; background: #282a36; color: #f8f8f2; \x7d\n" ++
  "  h1 \x7b color: #bd93f9; \x7d\n" ++
  "  h2 \x7b color: #8be9fd; font-size: 1.1em; \x7d\n" ++
  "  .summary \x7b background: #343746; padding: 16px; border-radius: 8px; margin-bottom: 24px; \x7d\n" ++
  "  .summary span \x7b margin-right: 24px; \x7d\n" ++
  "  .valid \x7b color: #50fa7b; \x7d\n" ++
  "  .invalid \x7b color: #ff5555; font-weight: bold; \x7d\n" ++
  "  table \x7b width: 100%; border-collapse: collapse; \x7d\n" ++
  "  th \x7b text-align: left; padding: 8px 12px; background: #44475a; color: #f8f8f2; \x7d\n" ++
  "  td \x7b padding: 8px 12px; border-bottom: 1px solid #44475a; \x7d\n" ++
  "  tr:hover \x7b background: #343746; \x7d\n" ++
  "  .check \x7b color: #bd93f9; \x7d\n" ++
  "  code \x7b background: #343746; padding: 2px 6px; border-radius: 4px; font-size: 0.9em; \x7d\n" ++
  "  footer \x7b margin-top: 32px; color: #6272a4; font-size: 0.85em; \x7d\n" ++
  "</style>\n" ++
  "</head>\n" ++
  "<body>\n" ++
  "<h1>patchlint Report</h1>\n"

/-- The box with the counts. -/
def summaryBox (s : Summary) : Bytes :=
  let status : Bytes :=
    if s.isOk then "<span class=\"valid\">all valid</span>"
    else "<span class=\"invalid\">needs attention</span>"
  "<div class=\"summary\">\n  <span><strong>" ++ Bytes.ofNat s.validCount ++ "/"
    ++ Bytes.ofNat s.totalCount ++ "</strong> patches valid</span>\n  <span>Issues: <strong>"
    ++ Bytes.ofNat s.issueCount ++ "</strong></span>\n  <span>" ++ status ++ "</span>\n</div>\n"

/-- The row of an issue. -/
def row (i : Issue) : List Markup :=
  [.raw ("<tr><td class=\"check\">" ++ i.checkName ++ "</td><td>" ++ i.lineColumn ++ "</td><td>"),
   .text i.message, .raw "</td></tr>\n"]

/-- The heading of a report. -/
def heading (r : FileReport) : List Markup :=
  let mark : Bytes := if r.isValid then "valid" else "invalid"
  [.raw ("<h2 class=\"" ++ mark ++ "\"><code>"), .text r.name, .raw "</code></h2>\n"]

/-- What stands above the rows of a report. -/
def tableHead : Bytes :=
  "<table>\n<thead><tr><th>Check</th><th>Line</th><th>Message</th></tr></thead>\n<tbody>\n"

/-- The section of a report. -/
def reportSection (r : FileReport) : List Markup :=
  heading r ++
    if r.isValid then [.raw "<p class=\"valid\">No issues found.</p>\n"]
    else [.raw tableHead] ++ r.issues.flatMap row ++ [.raw "</tbody></table>\n"]

/-- The end of the page. -/
def foot (s : Summary) : List Markup :=
  [.raw "<footer>", .text s.resultLine,
   .raw " &middot; generated by <strong>patchlint</strong></footer>\n</body>\n</html>\n"]

/-- The parts of the page. -/
def parts (s : Summary) : List Markup :=
  [.raw head, .raw (summaryBox s)] ++ s.reports.flatMap reportSection ++ foot s

/-- The whole page. -/
def render (s : Summary) : Bytes := (parts s).flatMap Markup.render

end HtmlReport

end PatchAudit
