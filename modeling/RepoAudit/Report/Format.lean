import RepoAudit.Json.Printer
import RepoAudit.Report.Markdown
import RepoAudit.Report.Terminal

/-!
# Report formats

The three forms in which results are written.
-/

namespace RepoAudit

inductive ReportFormat where
  | json
  | markdown
  | terminal
  deriving DecidableEq

namespace ReportFormat

/-- The format of a name, in letters of any case. -/
def ofName? (name : String) : Option ReportFormat :=
  match String.ofList (Text.lower name.toList) with
  | "json" => some json
  | "markdown" | "md" => some markdown
  | "terminal" => some terminal
  | _ => none

/-- Every line with a line feed after it. -/
def ofLines (lines : List String) : String :=
  String.join (lines.map (· ++ "\n"))

/-- A single result stands alone, several stand in a list. -/
def resultsJson : List Result → Json
  | [r] => r.toJson
  | rs => .list Result.toJson rs

def render (format : ReportFormat) (colors : Bool) (rs : List Result) : String :=
  match format with
  | json => (resultsJson rs).pretty ++ "\n"
  | markdown => ofLines (Markdown.lines rs)
  | terminal => ofLines (Terminal.lines colors rs)

end ReportFormat
end RepoAudit
