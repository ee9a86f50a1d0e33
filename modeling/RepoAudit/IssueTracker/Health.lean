import RepoAudit.Decimal.Whole
import RepoAudit.IssueTracker.Metrics
import RepoAudit.Level

/-!
# Issue tracker health

A tracker starts at 100 points and loses some for each signal that is tripped, more when it is
tripped badly.  Each tripped signal is a bottleneck, and so is a label that dominates.
-/

namespace RepoAudit.IssueTracker

inductive HealthLevel where
  | needsImprovement
  | acceptable
  | good
  | excellent
  deriving DecidableEq

def HealthLevel.name : HealthLevel → String
  | .excellent => "excellent"
  | .good => "good"
  | .acceptable => "acceptable"
  | .needsImprovement => "needs-improvement"

def HealthLevel.ofScore (score : Nat) : HealthLevel :=
  if 80 ≤ score then .excellent
  else if 60 ≤ score then .good
  else if 40 ≤ score then .acceptable
  else .needsImprovement

/-- What costs points. -/
inductive Signal where
  | backlog
  | slowResolution
  | staleIssues
  | lowMergeRate
  deriving DecidableEq

def Signal.all : List Signal :=
  [.backlog, .slowResolution, .staleIssues, .lowMergeRate]

/-- The points that a signal costs. -/
def penalty (m : Metrics) : Signal → Nat
  | .backlog => if m.backlogRatio > 0.5 then 20 else if m.backlogRatio > 0.3 then 10 else 0
  | .slowResolution => if m.resolution > 60 then 25 else if m.resolution > 30 then 15 else 0
  | .staleIssues => if m.staleRatio >= 0.5 then 20 else if m.staleRatio >= 0.3 then 10 else 0
  | .lowMergeRate =>
      if m.totalPulls = 0 then 0
      else if m.mergeRate < 50 then 20
      else if m.mergeRate < 70 then 10
      else 0

def healthScore (m : Metrics) : Nat :=
  100 - sumOf (Signal.all.map (penalty m))

inductive BottleneckKind where
  | signal (signal : Signal)
  | labelConcentration
  deriving DecidableEq

def BottleneckKind.name : BottleneckKind → String
  | .signal .backlog => "backlog"
  | .signal .slowResolution => "slow-resolution"
  | .signal .staleIssues => "stale-issues"
  | .signal .lowMergeRate => "low-merge-rate"
  | .labelConcentration => "label-concentration"

structure Bottleneck where
  kind : BottleneckKind
  priority : Level
  description : String

def describe (m : Metrics) : Signal → String
  | .backlog => Decimal.wholeText (m.backlogRatio * 100.0) ++ "% of issues are still open"
  | .slowResolution => "Issues take " ++ floatText m.resolution ++ " days on average to resolve"
  | .staleIssues =>
      toString m.staleIssues ++ " of " ++ toString m.openIssues ++ " open issues are stale"
  | .lowMergeRate => "Only " ++ floatText m.mergeRate ++ "% of pull requests are merged"

/-- The bottleneck of a signal, when it is tripped. -/
def bottleneck? (m : Metrics) (s : Signal) : Option Bottleneck :=
  let lost := penalty m s
  if lost = 0 then none
  else
    some {
      kind := .signal s
      priority := if 20 ≤ lost then .high else .medium
      description := describe m s }

/-- A label dominates when it occurs on more than this share of the issues. -/
def labelShareLimit : Float := 0.3

/-- With fewer issues no label dominates. -/
def labelShareMinimum : Nat := 5

def labelBottleneck? (m : Metrics) : Option Bottleneck :=
  m.labels.head?.bind fun (name, n) =>
    let total := m.totalIssues
    if labelShareMinimum ≤ total && ratio n total > labelShareLimit then
      some {
        kind := .labelConcentration
        priority := .medium
        description := "'" ++ name ++ "' covers " ++ toString n ++ " of " ++ toString total ++
          " issues" }
    else none

def bottlenecks (m : Metrics) : List Bottleneck :=
  Signal.all.filterMap (bottleneck? m) ++ (labelBottleneck? m).toList

def Bottleneck.toJson (b : Bottleneck) : Json :=
  .obj [
    ("kind", .str b.kind.name), ("priority", .str b.priority.name),
    ("description", .str b.description)]

end RepoAudit.IssueTracker
