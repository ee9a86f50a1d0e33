import RepoAudit.Complexity.Analysis
import RepoAudit.Contributors.Analysis
import RepoAudit.Dependencies.Analysis
import RepoAudit.IssueTracker.Analysis
import RepoAudit.Licenses.Analysis
import RepoAudit.Migration.Plan
import RepoAudit.Performance.Analysis
import RepoAudit.PullRequest.Review
import RepoAudit.Structure.Analysis

/-!
# Results

The outcome of any of the nine analyses, with the time it was made.
-/

namespace RepoAudit

inductive ReportKind where
  | layout
  | complexity
  | dependencies
  | licenses
  | performance
  | review
  | contributors
  | issueTracker
  | migration
  deriving DecidableEq

namespace ReportKind

def all : List ReportKind :=
  [layout, complexity, dependencies, licenses, performance, review, contributors, issueTracker,
    migration]

def name : ReportKind → String
  | layout => "structure"
  | complexity => "complexity"
  | dependencies => "dependencies"
  | licenses => "licenses"
  | performance => "performance"
  | review => "pr-review"
  | contributors => "contributors"
  | issueTracker => "issue-tracker"
  | migration => "migration"

def ofName? (name : String) : Option ReportKind :=
  all.find? (·.name == name)

/-- The heading of a report: the name with spaces and a capital letter. -/
def title (kind : ReportKind) : String :=
  match Text.replaceChar kind.name.toList '-' [' '] with
  | [] => "Analysis"
  | c :: rest => String.ofList (c.toUpper :: rest) ++ " Analysis"

end ReportKind

inductive Report where
  | layout (report : Structure.Report)
  | complexity (report : Complexity.Report)
  | dependencies (report : Dependencies.Report)
  | licenses (report : Licenses.Report)
  | performance (report : Performance.Report)
  | review (report : Review.Report)
  | contributors (report : Contributors.Report)
  | issueTracker (report : IssueTracker.Report)
  | migration (plan : Migration.Plan)

namespace Report

def kind : Report → ReportKind
  | layout _ => .layout
  | complexity _ => .complexity
  | dependencies _ => .dependencies
  | licenses _ => .licenses
  | performance _ => .performance
  | review _ => .review
  | contributors _ => .contributors
  | issueTracker _ => .issueTracker
  | migration _ => .migration

def content : Report → Json
  | layout r => r.toJson
  | complexity r => r.toJson
  | dependencies r => r.toJson
  | licenses r => r.toJson
  | performance r => r.toJson
  | review r => r.toJson
  | contributors r => r.toJson
  | issueTracker r => r.toJson
  | migration p => p.toJson

def toJson (r : Report) : Json :=
  .obj [("type", .str r.kind.name), ("report", r.content)]

end Report

structure Result where
  assessment : Assessment Report
  generatedAt : Timestamp

namespace Result

def kind (r : Result) : ReportKind :=
  r.assessment.report.kind

/-- Warnings are left out where there are none. -/
def toJson (r : Result) : Json :=
  let a := r.assessment
  .obj ([
    ("summary", .str a.summary), ("data", a.report.toJson), ("insights", .strings a.insights),
    ("recommendations", .list Recommendation.toJson a.recommendations)] ++
    (if a.warnings.isEmpty then [] else [("warnings", .list Warning.toJson a.warnings)]) ++
    [("generatedAt", .str r.generatedAt.toString)])

end Result
end RepoAudit
