import RepoAudit.Assessment
import RepoAudit.Complexity.Metrics
import RepoAudit.Repository
import RepoAudit.Tally

/-!
# Complexity analysis

A file scores two points for each metric strictly above its threshold.  The score gives its
priority, and the files of high and critical priority are to be refactored.
-/

namespace RepoAudit.Complexity

/-- The extensions of the files that are measured. -/
def measuredExtensions : List String :=
  ["js", "jsx", "mjs", "cjs", "ts", "tsx", "py", "java", "go", "rb", "php", "cs", "c", "h", "cpp",
    "cc", "cxx", "hpp", "rs", "swift", "kt", "scala"]

/-- A metric above its threshold, with what to say about it and what to do. -/
structure Excess where
  exceeded : Bool
  issue : String
  suggestion : String

def excesses (m : Metrics) (t : Thresholds) : List Excess := [
  { exceeded := t.cyclomatic < m.cyclomatic
    issue := "Cyclomatic complexity " ++ toString m.cyclomatic ++ " exceeds " ++
      toString t.cyclomatic
    suggestion := "Extract conditional branches into well-named functions" },
  { exceeded := t.functionLength < m.functionLength
    issue := "Average function length " ++ floatText m.functionLength ++ " lines exceeds " ++
      floatText t.functionLength
    suggestion := "Split long functions into smaller single-purpose ones" },
  { exceeded := t.nestingDepth < m.nestingDepth
    issue := "Nesting depth " ++ toString m.nestingDepth ++ " exceeds " ++ toString t.nestingDepth
    suggestion := "Use early returns and guard clauses to flatten nesting" },
  { exceeded := t.duplication < m.duplication
    issue := floatText m.duplication ++ "% of lines are duplicated (limit " ++
      floatText t.duplication ++ "%)"
    suggestion := "Move repeated code into shared helpers" }]

/-- Two points for each metric above its threshold. -/
def score (m : Metrics) (t : Thresholds) : Nat :=
  let exceeded : List Bool := [
    t.cyclomatic < m.cyclomatic, t.functionLength < m.functionLength,
    t.nestingDepth < m.nestingDepth, t.duplication < m.duplication]
  2 * exceeded.count true

def priorityOf (score : Nat) : Level :=
  if 6 ≤ score then .critical
  else if 4 ≤ score then .high
  else if 2 ≤ score then .medium
  else .low

/-- How long refactoring takes, where it is due. -/
def effort? : Level → Option String
  | .critical => some "2-4 hours"
  | .high => some "1-2 hours"
  | _ => none

structure FileComplexity where
  path : String
  language : Language
  metrics : Metrics
  priority : Level
  score : Nat

structure Refactoring where
  path : String
  priority : Level
  score : Nat
  issues : List String
  suggestions : List String
  effort : String

def measureFile (thresholds : Thresholds) (path : String) (content : Text) (language : Language) :
    FileComplexity :=
  let metrics := Metrics.measure content language
  let score := score metrics thresholds
  { path, language, metrics, priority := priorityOf score, score }

def refactoring? (thresholds : Thresholds) (f : FileComplexity) : Option Refactoring :=
  (effort? f.priority).map fun effort =>
    let exceeded := (excesses f.metrics thresholds).filter Excess.exceeded
    { path := f.path, priority := f.priority, score := f.score
      issues := exceeded.map Excess.issue
      suggestions := exceeded.map Excess.suggestion
      effort }

structure Summary where
  filesAnalyzed : Nat
  linesOfCode : Nat
  averageCyclomatic : Float
  maxCyclomatic : Nat
  critical : Nat
  high : Nat
  medium : Nat
  low : Nat

def summarize (files : List FileComplexity) : Summary :=
  let cyclomatics := files.map fun f => f.metrics.cyclomatic
  let withPriority := fun level => files.countP fun f => f.priority == level
  { filesAnalyzed := files.length
    linesOfCode := sumOf (files.map fun f => f.metrics.linesOfCode)
    averageCyclomatic :=
      if files.isEmpty then 0 else round1 ((sumOf cyclomatics).toFloat / files.length.toFloat)
    maxCyclomatic := cyclomatics.foldl max 0
    critical := withPriority .critical
    high := withPriority .high
    medium := withPriority .medium
    low := withPriority .low }

structure Report where
  summary : Summary
  files : List FileComplexity
  refactorings : List Refactoring

/-- Most decision points first, then by path. -/
def precedes (a b : FileComplexity) : Bool :=
  if a.metrics.cyclomatic = b.metrics.cyclomatic then nameLe a.path b.path
  else b.metrics.cyclomatic < a.metrics.cyclomatic

def Report.ofFiles (thresholds : Thresholds) (files : List FileComplexity) : Report :=
  let files := files.mergeSort precedes
  { summary := summarize files, files, refactorings := files.filterMap (refactoring? thresholds) }

def insights (r : Report) : List String :=
  if r.summary.filesAnalyzed = 0 then ["No source files found to analyze"]
  else
    let flagged := r.summary.critical + r.summary.high
    ["Average cyclomatic complexity is " ++ floatText r.summary.averageCyclomatic ++ " across " ++
      toString r.summary.filesAnalyzed ++ " files"] ++
    (r.files.head?.map fun worst =>
      "Most complex file: " ++ worst.path ++ " (cyclomatic " ++ toString worst.metrics.cyclomatic ++
        ")").toList ++
    (if 0 < flagged then [toString flagged ++ " files need refactoring"] else [])

def recommendations (refactorings : List Refactoring) : List Recommendation :=
  refactorings.map fun r =>
    { category := "complexity", priority := r.priority
      description := "Refactor " ++ r.path ++ ": " ++ "; ".intercalate r.issues
      effort := r.effort }

def isMeasured (e : Walk.Entry) : Bool :=
  measuredExtensions.contains (Path.extensionKey e.relative)

def assess (r : Report) (warnings : List Warning) : Assessment Report :=
  Assessment.sorted {
    report := r
    summary := "Analyzed " ++ toString r.summary.filesAnalyzed ++ " files (" ++
      toString r.summary.linesOfCode ++ " lines of code): " ++ toString r.summary.critical ++
      " critical and " ++ toString r.summary.high ++ " high priority"
    insights := insights r
    recommendations := recommendations r.refactorings
    warnings }

/-- Measures every source file of a repository. -/
def analyze (v : Volume) (thresholds : Thresholds) (walk : WalkSettings) (repo : String) :
    Except Failure (Assessment Report) := do
  let scan ← scanRepository v repo walk false
  let (sources, unread) := readSources v "complexity" scan ((scan.files v).filter isMeasured)
  let files := sources.map fun (e, content) =>
    measureFile thresholds e.display content
      (Language.ofExtension (Path.extensionKey e.relative))
  return assess (.ofFiles thresholds files) (scan.warnings ++ unread)

/-! ## Written reports -/

def Metrics.toJson (m : Metrics) : Json :=
  .obj [
    ("cyclomatic", .nat m.cyclomatic), ("linesOfCode", .nat m.linesOfCode),
    ("functionLength", .float m.functionLength), ("nestingDepth", .nat m.nestingDepth),
    ("duplication", .float m.duplication)]

def FileComplexity.toJson (f : FileComplexity) : Json :=
  .obj [
    ("filePath", .str f.path), ("language", .str f.language.key),
    ("complexity", f.metrics.toJson), ("priority", .str f.priority.name),
    ("priorityScore", .nat f.score)]

def Refactoring.toJson (r : Refactoring) : Json :=
  .obj [
    ("filePath", .str r.path), ("priority", .str r.priority.name), ("priorityScore", .nat r.score),
    ("issues", .strings r.issues), ("suggestions", .strings r.suggestions),
    ("estimatedEffort", .str r.effort)]

def Summary.toJson (s : Summary) : Json :=
  .obj [
    ("filesAnalyzed", .nat s.filesAnalyzed), ("totalLinesOfCode", .nat s.linesOfCode),
    ("averageCyclomatic", .float s.averageCyclomatic), ("maxCyclomatic", .nat s.maxCyclomatic),
    ("critical", .nat s.critical), ("high", .nat s.high), ("medium", .nat s.medium),
    ("low", .nat s.low)]

def Report.toJson (r : Report) : Json :=
  .obj [
    ("summary", r.summary.toJson), ("files", .list FileComplexity.toJson r.files),
    ("refactorings", .list Refactoring.toJson r.refactorings)]

end RepoAudit.Complexity
