import RepoAudit.Report.Basic

/-!
# Markdown reports

A heading for each result, and below it a paragraph, lists and a table.  A bar in a description is
escaped, so that it does not end its cell.
-/

namespace RepoAudit.Markdown

/-- One line of the table of recommendations. -/
def row (r : Recommendation) : String :=
  let description := String.ofList (Text.replaceChar r.description.toList '|' ['\\', '|'])
  "| " ++ r.priority.name ++ " | " ++ r.category ++ " | " ++ description ++ " | " ++ r.effort ++
    " |"

def tableHead : List String := [
  "| Priority | Category | Recommendation | Effort |",
  "|----------|----------|----------------|--------|"]

/-- A heading with lines below it, or nothing when there are none. -/
def sectionOf (heading : String) (head body : List String) : List String :=
  if body.isEmpty then [] else ["### " ++ heading, ""] ++ head ++ body ++ [""]

def resultLines (r : Result) : List String :=
  let a := r.assessment
  ["## " ++ r.kind.title, "", "Generated: " ++ r.generatedAt.inProse, "", a.summary, ""] ++
    sectionOf "Insights" [] (a.insights.map ("- " ++ ·)) ++
    sectionOf "Recommendations" tableHead (a.recommendations.map row) ++
    sectionOf ("Warnings (" ++ toString a.warnings.length ++ ")") []
      (a.warnings.map fun w => "- " ++ w.toString)

def lines (rs : List Result) : List String :=
  ["# Reposcope Analysis Report", ""] ++ rs.flatMap resultLines

end RepoAudit.Markdown
