import RepoAudit.FileTree.Walk

/-!
# Settings

What a configuration file may set, section by section, with the values that hold when it does not.
-/

namespace RepoAudit

/-- A metric strictly above its threshold costs a file points. -/
structure Thresholds where
  cyclomatic : Nat := 15
  functionLength : Float := 50
  nestingDepth : Nat := 5
  duplication : Float := 30

structure IssueSettings where
  /-- Days without an update after which an open issue is stale. -/
  staleDays : Int := 90

structure ContributorSettings where
  leaderboardSize : Nat := 10

structure OutputSettings where
  defaultFormat : Option String := none

structure Settings where
  walker : Option WalkSettings := none
  complexity : Option Thresholds := none
  issues : Option IssueSettings := none
  contributors : Option ContributorSettings := none
  output : Option OutputSettings := none

namespace Settings

def walk (s : Settings) : WalkSettings :=
  s.walker.getD {}

def thresholds (s : Settings) : Thresholds :=
  s.complexity.getD {}

def issueSettings (s : Settings) : IssueSettings :=
  s.issues.getD {}

def contributorSettings (s : Settings) : ContributorSettings :=
  s.contributors.getD {}

def defaultFormat (s : Settings) : Option String :=
  s.output.bind OutputSettings.defaultFormat

end Settings

/-! ## Written settings -/

def WalkSettings.toJson (w : WalkSettings) : Json :=
  .obj [
    ("exclude_dirs", .strings w.excludeDirs), ("ignore_patterns", .strings w.ignorePatterns),
    ("follow_symlinks", .bool w.followSymlinks)]

def Thresholds.toJson (t : Thresholds) : Json :=
  .obj [
    ("cyclomatic", .nat t.cyclomatic), ("function_length", .float t.functionLength),
    ("nesting_depth", .nat t.nestingDepth), ("duplication", .float t.duplication)]

def IssueSettings.toJson (s : IssueSettings) : Json :=
  .obj [("stale_days", .int s.staleDays)]

def ContributorSettings.toJson (s : ContributorSettings) : Json :=
  .obj [("leaderboard_size", .nat s.leaderboardSize)]

def OutputSettings.toJson (s : OutputSettings) : Json :=
  .obj [("default_format", .ofOption .str s.defaultFormat)]

def Settings.toJson (s : Settings) : Json :=
  .obj [
    ("walker", .ofOption WalkSettings.toJson s.walker),
    ("complexity", .ofOption Thresholds.toJson s.complexity),
    ("issues", .ofOption IssueSettings.toJson s.issues),
    ("contributors", .ofOption ContributorSettings.toJson s.contributors),
    ("output", .ofOption OutputSettings.toJson s.output)]

end RepoAudit
