import RepoAudit.Decimal.Round
import RepoAudit.Payload.Basic
import RepoAudit.Payload.Date
import RepoAudit.Tally
import RepoAudit.Time.Span

/-!
# Issue tracker metrics

How much is open, how much of that is stale, how long issues take and how many pull requests are
merged.  A pull request that is listed as an issue does not count as one.
-/

namespace RepoAudit.IssueTracker

structure Metrics where
  openIssues : Nat
  closedIssues : Nat
  openPulls : Nat := 0
  mergedPulls : Nat := 0
  totalPulls : Nat
  /-- Mean days from creation to closing, over the closed issues that have both dates. -/
  resolution : Float
  /-- The most frequent labels, with the number of their occurrences. -/
  labels : List (String × Nat) := []
  staleIssues : Nat
  /-- Merged pull requests in percent. -/
  mergeRate : Float

def ratio (part total : Nat) : Float :=
  if total = 0 then 0 else part.toFloat / total.toFloat

namespace Metrics

def totalIssues (m : Metrics) : Nat :=
  m.openIssues + m.closedIssues

def backlogRatio (m : Metrics) : Float :=
  ratio m.openIssues m.totalIssues

def staleRatio (m : Metrics) : Float :=
  ratio m.staleIssues m.openIssues

end Metrics

/-- An issue with the dates that matter for its state. -/
structure Tracked where
  issue : Issue
  created : Option Timestamp
  /-- The last update of an open issue, the closing of a closed one. -/
  changed : Option Timestamp
  warnings : List Warning

namespace Tracked

def of (i : Issue) : Tracked :=
  let (created, createdWarnings) := readOptionalDate "issues" i.createdAt
  let (changed, changedWarnings) :=
    readOptionalDate "issues" (if i.isOpen then i.updatedAt else i.closedAt)
  { issue := i, created, changed, warnings := createdWarnings ++ changedWarnings }

/-- Open, and not updated for more than the limit. -/
def isStale (now : Timestamp) (limit : Span) (t : Tracked) : Bool :=
  t.issue.isOpen && (t.changed <|> t.created).any fun last => limit.lt (now.since last)

/-- The days from creation to closing. -/
def resolutionDays? (t : Tracked) : Option Float :=
  if t.issue.isOpen then none
  else
    match t.created, t.changed with
    | some created, some closed =>
        some (Float.ofInt (closed.since created).wholeSeconds / 86400.0)
    | _, _ => none

end Tracked

/-- The number of labels that are reported. -/
def topLabels : Nat := 10

/-- More frequent labels first, then by name. -/
def labelPrecedes (a b : String × Nat) : Bool :=
  if a.2 = b.2 then nameLe a.1 b.1 else b.2 < a.2

def commonLabels (names : List String) : List (String × Nat) :=
  ((tally names).mergeSort labelPrecedes).take topLabels

def mean (values : List Float) : Float :=
  if values.isEmpty then 0
  else round1 (values.foldl (· + ·) 0 / values.length.toFloat)

/-- The issues that count, with their dates. -/
def track (issues : List Issue) : List Tracked :=
  (issues.filter fun i => !i.isPullRequest).map Tracked.of

def Metrics.of (now : Timestamp) (staleLimit : Span) (tracked : List Tracked)
    (pulls : List PullRequest) : Metrics :=
  let merged := pulls.countP PullRequest.isMerged
  { openIssues := tracked.countP fun t => t.issue.isOpen
    closedIssues := tracked.countP fun t => !t.issue.isOpen
    openPulls := pulls.countP fun p => p.isOpen && !p.isMerged
    mergedPulls := merged
    totalPulls := pulls.length
    resolution := mean (tracked.filterMap Tracked.resolutionDays?)
    labels := commonLabels (tracked.flatMap fun t => t.issue.labels.map Label.name)
    staleIssues := tracked.countP (Tracked.isStale now staleLimit)
    mergeRate :=
      if pulls.isEmpty then 0
      else round1 (merged.toFloat / pulls.length.toFloat * 100.0) }

def Metrics.toJson (m : Metrics) : Json :=
  .obj [
    ("open_issues", .nat m.openIssues), ("closed_issues", .nat m.closedIssues),
    ("open_prs", .nat m.openPulls), ("merged_prs", .nat m.mergedPulls),
    ("total_prs", .nat m.totalPulls), ("avg_resolution_time", .float m.resolution),
    ("common_labels", .list
      (fun (name, n) => .obj [("name", .str name), ("count", .nat n)]) m.labels),
    ("stale_issues", .nat m.staleIssues), ("merge_rate", .float m.mergeRate)]

end RepoAudit.IssueTracker
