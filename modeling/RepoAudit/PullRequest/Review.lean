import RepoAudit.Assessment
import RepoAudit.Coverage.Report
import RepoAudit.PullRequest.Patch
import RepoAudit.PullRequest.Probe

/-!
# Pull request review

The probes look at added lines only.  Findings and missing coverage cost points; coverage that
nobody knows costs nothing.
-/

namespace RepoAudit.Review

inductive Grade where
  | needsImprovement
  | acceptable
  | good
  | excellent
  deriving DecidableEq

def Grade.name : Grade → String
  | .excellent => "excellent"
  | .good => "good"
  | .acceptable => "acceptable"
  | .needsImprovement => "needs-improvement"

def Grade.ofScore (score : Float) : Grade :=
  if score >= 90 then .excellent
  else if score >= 75 then .good
  else if score >= 60 then .acceptable
  else .needsImprovement

/-- A probe's finding in a changed file. -/
structure FileFinding where
  file : String
  category : ProbeCategory
  probe : String
  severity : Level
  /-- The line in the new version of the file. -/
  line : Option Nat
  message : String

/-- The added lines as one text. -/
def addedText (added : List (Nat × Text)) : Text :=
  Text.join ['\n'] (added.map Prod.snd)

/-- The number in the new file of an added line, counted from one among the added lines. -/
def newLine? (added : List (Nat × Text)) (index : Nat) : Option Nat :=
  (added[index - 1]?).map Prod.fst

def fileFindings (file : String) (added : List (Nat × Text)) : List FileFinding :=
  let text := addedText added
  Probe.sets.flatMap fun (category, probes) =>
    probes.flatMap fun probe =>
      (probe.findings text).map fun f =>
        { file, category, probe := f.detector, severity := f.severity
          line := f.line.bind (newLine? added), message := f.message }

def addedLines (f : ChangedFile) : List (Nat × Text) :=
  match f.patch with
  | some patch => Patch.addedLines patch.toList
  | none => []

def reviewFile (f : ChangedFile) : List FileFinding :=
  let added := addedLines f
  if added.isEmpty then [] else fileFindings f.filename added

/-- 100 less 5 for a bug, 10 for a security issue, 2 for a quality issue and half a point for each
missing percent of coverage; at least 0. -/
def score (bugs security quality : Nat) (coverage : Option Float) : Float :=
  let found := 100 - 5 * bugs.toFloat - 10 * security.toFloat - 2 * quality.toFloat
  let total := match coverage with
    | some c => found - 0.5 * (100 - clamp 0 100 c)
    | none => found
  round1 (clamp 0 100 total)

structure Report where
  number : Nat
  title : String
  author : String
  /-- Lines added and lines deleted. -/
  changes : Nat
  filesChanged : Nat
  bugs : Nat
  securityIssues : Nat
  qualityIssues : Nat
  coverage : Option Float
  score : Float
  grade : Grade
  findings : List FileFinding

def Report.ofPull (pull : PullRequest) (source : Coverage.Source) : Report :=
  let findings := pull.files.flatMap reviewFile
  let count := fun category => findings.countP fun f => f.category == category
  let coverage := source.coverage pull
  let score := Review.score (count .bug) (count .security) (count .quality) coverage
  { number := pull.number, title := pull.title, author := pull.author
    changes := (pull.additions + pull.deletions) % UInt64.size
    filesChanged := if 0 < pull.changedFiles then pull.changedFiles else pull.files.length
    bugs := count .bug, securityIssues := count .security, qualityIssues := count .quality
    coverage, score, grade := .ofScore score, findings }

def insights (r : Report) : List String := [
  toString r.changes ++ " lines changed across " ++ toString r.filesChanged ++ " files",
  match r.coverage with
  | some c => "Test coverage: " ++ floatText c ++ "%"
  | none => "Test coverage unknown; score excludes coverage",
  if r.findings.isEmpty then "No issues found in added lines"
  else
    toString r.bugs ++ " bugs, " ++ toString r.securityIssues ++ " security issues and " ++
      toString r.qualityIssues ++ " quality issues in added lines"]

def recommendations (r : Report) : List Recommendation :=
  (if 0 < r.securityIssues then
    [{ category := "security", priority := .critical
       description := "Resolve " ++ toString r.securityIssues ++ " security issues before merging"
       effort := "1-2 hours" }]
  else []) ++
  (if 0 < r.bugs then
    [{ category := "bugs", priority := .high
       description := "Fix " ++ toString r.bugs ++ " potential bugs", effort := "1-2 hours" }]
  else []) ++
  (if 5 < r.qualityIssues then
    [{ category := "code-quality", priority := .low
       description := "Address " ++ toString r.qualityIssues ++ " code quality issues"
       effort := "30 minutes" }]
  else []) ++
  (match r.coverage with
  | some c =>
      if c < 80 then
        [{ category := "testing", priority := .high
           description := "Increase test coverage from " ++ floatText c ++ "% to at least 80%"
           effort := "2-4 hours" }]
      else []
  | none => []) ++
  (if r.grade = .acceptable ∨ r.grade = .needsImprovement then
    [{ category := "review", priority := .medium
       description := "Request additional review before merging", effort := "30 minutes" }]
  else [])

def analyze (pull : PullRequest) (source : Coverage.Source) : Assessment Report :=
  let r := Report.ofPull pull source
  Assessment.sorted {
    report := r
    summary := "PR #" ++ toString r.number ++ " by " ++ r.author ++ " scored " ++
      floatText r.score ++ " (" ++ r.grade.name ++ ")"
    insights := insights r
    recommendations := recommendations r }

/-! ## Written reports -/

def FileFinding.toJson (f : FileFinding) : Json :=
  .obj [
    ("file", .str f.file), ("category", .str f.category.name), ("probe", .str f.probe),
    ("severity", .str f.severity.name), ("line", .ofOption .nat f.line),
    ("message", .str f.message)]

def Report.toJson (r : Report) : Json :=
  .obj [
    ("pr_number", .nat r.number), ("title", .str r.title), ("author", .str r.author),
    ("changes", .nat r.changes), ("files_changed", .nat r.filesChanged),
    ("bugs_found", .nat r.bugs), ("security_issues", .nat r.securityIssues),
    ("quality_issues", .nat r.qualityIssues), ("test_coverage", .ofOption .float r.coverage),
    ("score", .float r.score), ("overall_assessment", .str r.grade.name),
    ("findings", .list FileFinding.toJson r.findings)]

end RepoAudit.Review
