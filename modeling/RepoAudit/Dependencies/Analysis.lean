import RepoAudit.Assessment
import RepoAudit.Dependencies.Manifest
import RepoAudit.Repository

/-!
# Dependency analysis

The dependencies that the manifests at the root of a repository declare, each looked up.  A
manifest that cannot be read costs a warning and takes nothing from the others.
-/

namespace RepoAudit.Dependencies

/-- Dependencies and the problems met while they were gathered. -/
abbrev Gathered := List Dependency × List Warning

/-- Reads a manifest at the root that need not be there. -/
def readManifest (v : Volume) (repo file : String) (read : String → Gathered) : Gathered :=
  match readOptional v "dependencies" (Path.join repo file) with
  | .ok (some text) => read text
  | .ok none => ([], [])
  | .error w => ([], [w])

def readPackageJson (v : Volume) (repo : String) : Gathered :=
  readManifest v repo "package.json" fun text =>
    match Manifest.parsePackageJson text.toList with
    | .ok found => (found, [])
    | .error f =>
        ([], [{ source := "npm", path := some (Path.join repo "package.json")
                message := f.message text.toList }])

def readPomXml (v : Volume) (repo : String) : Gathered :=
  readManifest v repo "pom.xml" fun text =>
    let (found, problems) := Manifest.parsePomXml text.toList
    (found, problems.map fun message =>
      { source := "maven", path := some (Path.join repo "pom.xml"), message })

def nameKey (d : Dependency) : Text :=
  Text.lower d.name.toList

/-- Everything declared, before it is looked up.  A package in both Python manifests counts once. -/
def declared (v : Volume) (repo : String) : Gathered :=
  let packages := readPackageJson v repo
  let requirements := readManifest v repo "requirements.txt" fun text =>
    (Manifest.parseRequirementsTxt text.toList, [])
  let setup := readManifest v repo "setup.py" fun text =>
    (Manifest.parseSetupPy text.toList, [])
  let known := requirements.1.map nameKey
  let setupOnly := setup.1.filter fun d => !known.contains (nameKey d)
  let modules := readManifest v repo "go.mod" fun text => (Manifest.parseGoMod text.toList, [])
  let maven := readPomXml v repo
  (packages.1 ++ requirements.1 ++ setupOnly ++ modules.1 ++ maven.1,
    packages.2 ++ requirements.2 ++ setup.2 ++ modules.2 ++ maven.2)

def collect (v : Volume) (registry : Registry) (repo : String) : Gathered :=
  let (found, warnings) := declared v repo
  (found.map (Dependency.lookUp registry), warnings)

structure Summary where
  total : Nat
  /-- The ecosystems that occur, in the order of their names. -/
  byEcosystem : List (Ecosystem × Nat)
  runtime : Nat
  development : Nat
  vulnerable : Nat
  outdated : Nat

def summarize (ds : List Dependency) : Summary where
  total := ds.length
  byEcosystem :=
    (Ecosystem.all.map fun e => (e, ds.countP fun d => d.ecosystem == e)).filter
      fun (_, n) => 0 < n
  runtime := ds.countP fun d => d.scope != .development
  development := ds.countP fun d => d.scope == .development
  vulnerable := ds.countP Dependency.isVulnerable
  outdated := ds.countP Dependency.outdated

structure Report where
  summary : Summary
  dependencies : List Dependency

def Report.ofDependencies (ds : List Dependency) : Report :=
  ⟨summarize ds, ds⟩

def insights (r : Report) : List String :=
  let s := r.summary
  if s.total = 0 then ["No dependency manifests found at the repository root"]
  else
    [toString s.runtime ++ " runtime and " ++ toString s.development ++
      " development dependencies"] ++
    (if 0 < s.vulnerable then
      [toString s.vulnerable ++ " dependencies have known vulnerabilities"]
    else []) ++
    (if 0 < s.outdated then [toString s.outdated ++ " dependencies may be outdated"] else [])

def recommendations (r : Report) : List Recommendation :=
  let vulnerable := (r.dependencies.filter Dependency.isVulnerable).map Dependency.name
  let outdated := r.summary.outdated
  (if vulnerable.isEmpty then []
  else
    [{ category := "security", priority := .critical
       description := "Update or replace vulnerable dependencies: " ++ ", ".intercalate vulnerable
       effort := if vulnerable.length ≤ 3 then "2-4 hours" else "1-2 days" }]) ++
  (if outdated = 0 then []
  else
    [{ category := "maintenance", priority := if 10 < outdated then .high else .medium
       description := "Update " ++ toString outdated ++ " outdated dependencies"
       effort := if 10 < outdated then "1-2 days" else "4-8 hours" }]) ++
  (if r.summary.total = 0 then []
  else
    [{ category := "security", priority := .medium
       description := "Add automated dependency vulnerability scanning to CI"
       effort := "1-2 hours" },
     { category := "maintenance", priority := .low
       description := "Enable an automated dependency update bot", effort := "1 hour" }])

def assess (r : Report) (warnings : List Warning) : Assessment Report :=
  let s := r.summary
  let parts := s.byEcosystem.map fun (e, n) => e.name ++ ": " ++ toString n
  let shares := if parts.isEmpty then "" else " (" ++ ", ".intercalate parts ++ ")"
  Assessment.sorted {
    report := r
    summary := "Found " ++ toString s.total ++ " dependencies" ++ shares ++ ": " ++
      toString s.vulnerable ++ " vulnerable, " ++ toString s.outdated ++ " outdated"
    insights := insights r
    recommendations := recommendations r
    warnings }

/-- Takes stock of the dependencies of a repository. -/
def analyze (v : Volume) (registry : Registry) (repo : String) :
    Except Failure (Assessment Report) := do
  ensureRepository v repo
  let (ds, warnings) := collect v registry repo
  return assess (.ofDependencies ds) warnings

/-! ## Written reports -/

def Summary.toJson (s : Summary) : Json :=
  .obj [
    ("total", .nat s.total),
    ("byEcosystem", .obj (s.byEcosystem.map fun (e, n) => (e.name, .nat n))),
    ("runtime", .nat s.runtime), ("development", .nat s.development),
    ("vulnerable", .nat s.vulnerable), ("outdated", .nat s.outdated)]

def Report.toJson (r : Report) : Json :=
  .obj [
    ("summary", r.summary.toJson), ("dependencies", .list Dependency.toJson r.dependencies)]

end RepoAudit.Dependencies
