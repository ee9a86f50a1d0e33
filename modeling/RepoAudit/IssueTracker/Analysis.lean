import RepoAudit.Assessment
import RepoAudit.Config.Settings
import RepoAudit.IssueTracker.Health

/-!
# Issue tracker analysis

The metrics of a tracker, the health they give and one piece of advice for each bottleneck.
-/

namespace RepoAudit.IssueTracker

structure Report where
  metrics : Metrics
  score : Nat
  level : HealthLevel
  bottlenecks : List Bottleneck

def Report.of (m : Metrics) : Report :=
  let score := healthScore m
  { metrics := m, score, level := .ofScore score, bottlenecks := IssueTracker.bottlenecks m }

/-- Category, what to do, and how long it takes. -/
def remedy : BottleneckKind → String × String × String
  | .signal .backlog => ("issue-management", "hold regular triage sessions", "2-4 hours/week")
  | .signal .slowResolution =>
      ("issue-management", "assign owners and set response targets", "1-2 weeks")
  | .signal .staleIssues => ("issue-management", "close or refresh stale issues", "1 day")
  | .signal .lowMergeRate =>
      ("pull-requests", "review contribution guidelines and PR scope", "1 week")
  | .labelConcentration =>
      ("focus-area", "dedicate effort to the dominant issue area", "2-4 weeks")

def recommendation (b : Bottleneck) : Recommendation :=
  let (category, action, effort) := remedy b.kind
  { category, priority := b.priority, description := b.description ++ "; " ++ action, effort }

def insights (m : Metrics) : List String :=
  [toString m.openIssues ++ " open issues, " ++ toString m.staleIssues ++ " stale"] ++
  (if m.resolution > 0 then
    ["Average resolution time: " ++ floatText m.resolution ++ " days"]
  else []) ++
  (if 0 < m.totalPulls then
    [toString m.mergedPulls ++ " of " ++ toString m.totalPulls ++ " pull requests merged, " ++
      toString m.openPulls ++ " still open"]
  else []) ++
  (if m.labels.isEmpty then []
  else
    let top := (m.labels.take 3).map fun (name, n) => name ++ " (" ++ toString n ++ ")"
    ["Most common labels: " ++ ", ".intercalate top])

def assess (r : Report) (warnings : List Warning) : Assessment Report :=
  let m := r.metrics
  Assessment.sorted {
    report := r
    summary := "Issue tracker health " ++ toString r.score ++ " (" ++ r.level.name ++ "): " ++
      toString m.openIssues ++ " open and " ++ toString m.closedIssues ++ " closed issues, " ++
      floatText m.mergeRate ++ "% of PRs merged"
    insights := insights m
    recommendations := r.bottlenecks.map recommendation
    warnings }

/-- Assesses a tracker as of a given time; nothing when the days after which an issue is stale are
too many to be a span of time. -/
def analyze? (settings : IssueSettings) (now : Timestamp) (issues : List Issue)
    (pulls : List PullRequest) : Option (Assessment Report) :=
  (Span.ofDays? settings.staleDays).map fun limit =>
    let tracked := track issues
    assess (.of (.of now limit tracked pulls)) (tracked.flatMap Tracked.warnings)

def Report.toJson (r : Report) : Json :=
  .obj [
    ("metrics", r.metrics.toJson), ("health_score", .nat r.score),
    ("health_level", .str r.level.name), ("bottlenecks", .list Bottleneck.toJson r.bottlenecks)]

end RepoAudit.IssueTracker
