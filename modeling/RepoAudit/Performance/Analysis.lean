import RepoAudit.Assessment
import RepoAudit.Performance.Detector
import RepoAudit.Repository
import RepoAudit.Tally

/-!
# Performance analysis

The findings of the detectors in a repository, file by file, sorted by kind and line within a file
and grouped by kind into advice.
-/

namespace RepoAudit.Performance

inductive IssueKind where
  | nPlusOneQuery
  | quadraticLoop
  | syncIoInAsync
  | memoryLeak
  | unboundedCache
  | largeJson
  | missingIndex
  /-- What detectors outside the built-in ones find. -/
  | other
  deriving DecidableEq

namespace IssueKind

def builtIn : List IssueKind :=
  [nPlusOneQuery, quadraticLoop, syncIoInAsync, memoryLeak, unboundedCache, largeJson, missingIndex]

def all : List IssueKind :=
  builtIn ++ [other]

def name : IssueKind → String
  | nPlusOneQuery => "n-plus-one-query"
  | quadraticLoop => "quadratic-loop"
  | syncIoInAsync => "sync-io-in-async"
  | memoryLeak => "memory-leak"
  | unboundedCache => "unbounded-cache"
  | largeJson => "large-json"
  | missingIndex => "missing-index"
  | other => "other"

/-- The place in lists of kinds. -/
def rank : IssueKind → Nat
  | nPlusOneQuery => 0
  | quadraticLoop => 1
  | syncIoInAsync => 2
  | memoryLeak => 3
  | unboundedCache => 4
  | largeJson => 5
  | missingIndex => 6
  | other => 7

def ofName? (name : String) : Option IssueKind :=
  builtIn.find? (·.name == name)

def severity : IssueKind → Level
  | nPlusOneQuery | syncIoInAsync => .high
  | quadraticLoop | memoryLeak | unboundedCache | other => .medium
  | largeJson | missingIndex => .low

/-- The effort to fix at most two occurrences, at most five, and more. -/
def efforts : IssueKind → String × String × String
  | nPlusOneQuery => ("2-4 hours", "1-2 days", "3-5 days")
  | quadraticLoop | memoryLeak => ("1-2 hours", "4-8 hours", "1-2 days")
  | unboundedCache => ("2-4 hours", "1 day", "2-3 days")
  | syncIoInAsync | largeJson | missingIndex | other => ("1-2 hours", "2-4 hours", "1 day")

def effort (kind : IssueKind) (count : Nat) : String :=
  let (few, several, many) := kind.efforts
  if count ≤ 2 then few else if count ≤ 5 then several else many

def advice : IssueKind → String
  | nPlusOneQuery =>
      "Batch queries issued inside loops (eager loading, IN clauses or Promise.all)"
  | quadraticLoop => "Replace linear lookups inside loops with a Set or Map built once"
  | syncIoInAsync => "Use the asynchronous I/O APIs inside async functions"
  | memoryLeak =>
      "Release listeners, intervals, subscriptions and sockets when their owner is torn down"
  | unboundedCache => "Bound caches with a size limit, TTL or LRU eviction"
  | largeJson => "Stream large JSON payloads instead of (de)serializing them whole"
  | missingIndex => "Check that filtered query columns are backed by indexes"
  | other => "Review the findings of the additional performance detectors"

end IssueKind

structure Issue where
  kind : IssueKind
  severity : Level
  file : String
  line : Nat
  description : String

/-- A finding as an issue of a file.  One by an unknown detector keeps the detector's name in its
description, and one without a line stands at the first. -/
def Issue.ofFinding (file : String) (f : Finding) : Issue :=
  let line := f.line.getD 1
  match IssueKind.ofName? f.detector with
  | some kind => { kind, severity := f.severity, file, line, description := f.message }
  | none =>
      { kind := .other, severity := f.severity, file, line
        description := f.detector ++ ": " ++ f.message }

def Issue.precedes (a b : Issue) : Bool :=
  a.kind.rank < b.kind.rank || (a.kind.rank == b.kind.rank && a.line ≤ b.line)

/-- The issues of one file by kind and line, and in the order of the detectors among equal ones. -/
def fileIssues (detectors : List Detector) (path : String) (file : SourceFile) : List Issue :=
  ((detectors.flatMap (·.detect file)).map (Issue.ofFinding path)).mergeSort Issue.precedes

structure Report where
  filesScanned : Nat
  issues : List Issue

namespace Report

def countOfLevel (r : Report) (level : Level) : Nat :=
  r.issues.countP fun i => i.severity == level

def countOfKind (r : Report) (kind : IssueKind) : Nat :=
  r.issues.countP fun i => i.kind == kind

/-- The kinds that occur, with the number of their issues. -/
def kindCounts (r : Report) : List (IssueKind × Nat) :=
  (IssueKind.all.map fun kind => (kind, r.countOfKind kind)).filter fun (_, n) => 0 < n

def levelCounts (r : Report) : List (Level × Nat) :=
  (Level.all.map fun level => (level, r.countOfLevel level)).filter fun (_, n) => 0 < n

/-- The files with issues, in the order of their paths. -/
def fileCounts (r : Report) : List (String × Nat) :=
  tally (r.issues.map Issue.file)

end Report

def insights (r : Report) : List String :=
  if r.issues.isEmpty then ["No performance anti-patterns detected"]
  else
    let high := r.countOfLevel .high
    (if 0 < high then [toString high ++ " high severity issues need attention first"] else []) ++
    ((mostFrequent? r.kindCounts).map fun (kind, n) =>
      "Most common issue: " ++ kind.name ++ " (" ++ toString n ++ " occurrences)").toList ++
    ((mostFrequent? r.fileCounts).map fun (path, n) =>
      path ++ " has the most issues (" ++ toString n ++ ")").toList

def recommendations (r : Report) : List Recommendation :=
  r.kindCounts.map fun (kind, n) =>
    { category := "performance", priority := kind.severity
      description := kind.advice ++ " (" ++ toString n ++ " occurrences)"
      effort := kind.effort n }

def assess (r : Report) (warnings : List Warning) : Assessment Report :=
  Assessment.sorted {
    report := r
    summary := "Found " ++ toString r.issues.length ++ " potential performance issues across " ++
      toString r.filesScanned ++ " files"
    insights := insights r
    recommendations := recommendations r
    warnings }

/-- The extensions of the files that are looked at. -/
def scannedExtensions : List String :=
  ["js", "jsx", "ts", "tsx", "mjs", "cjs", "py"]

def isScanned (e : Walk.Entry) : Bool :=
  scannedExtensions.contains (Path.extensionKey e.relative)

/-- Looks through the sources of a repository. -/
def analyze (v : Volume) (detectors : List Detector) (walk : WalkSettings) (repo : String) :
    Except Failure (Assessment Report) := do
  let scan ← scanRepository v repo walk false
  let (sources, unread) := readSources v "performance" scan ((scan.files v).filter isScanned)
  let issues := sources.flatMap fun (e, content) =>
    fileIssues detectors e.display
      { content, language := Language.ofExtension (Path.extensionKey e.relative) }
  return assess { filesScanned := sources.length, issues } (scan.warnings ++ unread)

/-! ## Written reports -/

def Issue.toJson (i : Issue) : Json :=
  .obj [
    ("type", .str i.kind.name), ("severity", .str i.severity.name), ("file", .str i.file),
    ("line", .nat i.line), ("description", .str i.description)]

def Report.toJson (r : Report) : Json :=
  .obj [
    ("summary", .obj [
      ("total_issues", .nat r.issues.length), ("files_scanned", .nat r.filesScanned),
      ("by_severity", .obj (r.levelCounts.map fun (level, n) => (level.name, .nat n))),
      ("by_type", .obj (r.kindCounts.map fun (kind, n) => (kind.name, .nat n)))]),
    ("issues", .list Issue.toJson r.issues)]

end RepoAudit.Performance
