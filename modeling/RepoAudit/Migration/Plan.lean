import RepoAudit.Assessment
import RepoAudit.Migration.Registry
import RepoAudit.Repository
import RepoAudit.Tally

/-!
# Migration plans

The files that a migration touches, what it breaks and the steps it takes.  The effort depends on
the number of files alone.
-/

namespace RepoAudit.Migration

structure AffectedFile where
  path : String
  labels : List String
  occurrences : Nat

structure Plan where
  definition : Definition
  /-- In the order of their paths. -/
  files : List AffectedFile

def Plan.effort (p : Plan) : Effort :=
  .ofFileCount p.files.length

/-- The steps with their numbers. -/
def Plan.steps (p : Plan) : List (Step × Nat) :=
  p.definition.steps.zipIdx 1

/-- A file with what marks it as affected, when something does. -/
def affectedFile? (d : Definition) (path : String) (content : Text) : Option AffectedFile :=
  let found := d.occurrences content
  if found.isEmpty then none
  else
    some {
      path
      labels := found.map fun (m, _) => m.label
      occurrences := sumOf (found.map Prod.snd) }

def insights (p : Plan) : List String :=
  let source := p.definition.source
  if p.files.isEmpty then ["No " ++ source ++ " code found"]
  else
    let counts := p.files.map fun f => (f.path, f.occurrences)
    [toString (sumOf (counts.map Prod.snd)) ++ " occurrences of " ++ source ++ " patterns across " ++
      toString p.files.length ++ " files"] ++
    ((mostFrequent? counts.reverse).map fun (path, n) =>
      path ++ " has the most occurrences (" ++ toString n ++ ")").toList ++
    ["Estimated timeline: " ++ p.effort.time]

def recommendations (p : Plan) : List Recommendation :=
  let d := p.definition
  if p.files.isEmpty then []
  else
    [{ category := "migration", priority := p.effort.priority
       description := "Migrate " ++ toString p.files.length ++ " files from " ++ d.source ++
         " to " ++ d.target ++ " incrementally, following the " ++ toString d.steps.length ++
         " planned steps"
       effort := p.effort.time }] ++
    (if d.breakingChanges.isEmpty then []
    else
      [{ category := "migration", priority := .high
         description := "Review the " ++ toString d.breakingChanges.length ++
           " breaking changes before starting the migration"
         effort := "2-4 hours" }]) ++
    (if p.effort = .high ∨ p.effort = .veryHigh then
      [{ category := "planning", priority := .high
         description := "Split the migration into phases with a feature freeze per phase"
         effort := "1 day" }]
    else [])

def assess (p : Plan) (warnings : List Warning) : Assessment Plan :=
  let d := p.definition
  Assessment.sorted {
    report := p
    summary := "Migrating from " ++ d.source ++ " to " ++ d.target ++ ": " ++
      toString p.files.length ++ " files to change, estimated effort " ++ p.effort.name
    insights := insights p
    recommendations := recommendations p
    warnings }

/-- The first definition of that name in a registry. -/
def definitionIn (registry : List Definition) (name : String) : Except Failure Definition :=
  match registry.find? (·.name == name) with
  | some d => .ok d
  | none => .error (.unknownMigration name (registry.map Definition.name))

/-- Plans a migration of a registry for a repository. -/
def planFrom (registry : List Definition) (v : Volume) (walk : WalkSettings)
    (repo name : String) : Except Failure (Assessment Plan) := do
  let d ← definitionIn registry name
  let scan ← scanRepository v repo walk false
  let (sources, unread) := readSources v "migration" scan
    ((scan.files v).filter fun e => d.appliesTo e.relative)
  let files := sources.filterMap fun (e, content) => affectedFile? d e.display content
  let sorted := files.mergeSort fun a b => nameLe a.path b.path
  return assess ⟨d, sorted⟩ (scan.warnings ++ unread)

/-- Plans a known migration for a repository. -/
def analyze (v : Volume) (walk : WalkSettings) (repo name : String) :
    Except Failure (Assessment Plan) :=
  planFrom registry v walk repo name

/-! ## Written plans -/

def AffectedFile.toJson (f : AffectedFile) : Json :=
  .obj [
    ("path", .str f.path), ("matchedPatterns", .strings f.labels),
    ("occurrences", .nat f.occurrences)]

def stepJson (step : Step × Nat) : Json :=
  .obj [
    ("order", .nat step.2), ("title", .str step.1.title),
    ("description", .str step.1.description)]

def Plan.toJson (p : Plan) : Json :=
  let d := p.definition
  .obj [
    ("migrationType", .str d.name), ("sourceFramework", .str d.source),
    ("targetFramework", .str d.target), ("filesToChange", .list AffectedFile.toJson p.files),
    ("estimatedEffort", .str p.effort.name), ("breakingChanges", .strings d.breakingChanges),
    ("steps", .list stepJson p.steps)]

end RepoAudit.Migration
