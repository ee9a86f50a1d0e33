import RepoAudit.Assessment
import RepoAudit.Json.Reader
import RepoAudit.Licenses.Compliance
import RepoAudit.Licenses.Recognition
import RepoAudit.Repository

/-!
# License analysis

The license of a project against those of its installed packages.
-/

namespace RepoAudit.Licenses

/-! ## The project -/

/-- How the name of a license file begins, in capital letters. -/
def licenseFileNames : List String :=
  ["LICENSE", "LICENCE", "COPYING"]

def isLicenseFileName (name : String) : Bool :=
  let upper := Text.upper name.toList
  licenseFileNames.any fun lead => lead.toList.isPrefixOf upper

/-- The first license file at the root, in the order of names. -/
def licenseFile? (v : Volume) (repo : String) : Except Failure (Option String) :=
  match v.entryNames repo with
  | .error e => .error (.unreadable repo (.system e))
  | .ok names =>
      .ok (names.find? fun name => isLicenseFileName name && v.isFile (Path.join repo name))

/-- The terms that the text of a license grants. -/
def termsOfText (table : LicenseTable) (t : Text) : LicenseTerms :=
  match (LicenseText.recognize? t).bind table.get? with
  | some entry => entry.terms
  | none => .unknown "Unknown".toList

/-- The terms of the license file, and the warning when it cannot be read. -/
def projectTerms (table : LicenseTable) (v : Volume) (repo : String) :
    Option String → LicenseTerms × List Warning
  | none => (.none, [])
  | some name =>
      match readOptional v "licenses" (Path.join repo name) with
      | .ok (some text) => (termsOfText table text.toList, [])
      | .ok none => (.none, [])
      | .error w => (.unknown "Unknown".toList, [w])

/-! ## Packages -/

mutual

/-- The texts that declare a license: one stands alone, as the type of an object, or in a list of
such values. -/
def declaredTexts : Json → List String
  | .str s => [s]
  | .arr items => declaredTextsOf items
  | .obj members => ((members.lookup "type").bind Json.str?).toList
  | _ => []

def declaredTextsOf : List Json → List String
  | [] => []
  | item :: items => declaredTexts item ++ declaredTextsOf items

end

def declaredUnder (manifest : Json) (name : String) : List String :=
  ((manifest.get? name).map declaredTexts).getD []

/-- The licenses that a package manifest declares, by the old name when the new one has none. -/
def declaredLicenses (manifest : Json) : List String :=
  let declared := declaredUnder manifest "license"
  if declared.isEmpty then declaredUnder manifest "licenses" else declared

/-- The packages that a manifest depends on, each section in the order of names. -/
def packageNames (manifest : Json) : List String :=
  ["dependencies", "devDependencies"].flatMap fun sectionName =>
    (((manifest.get? sectionName).bind Json.members?).getD []).map Prod.fst

/-- The JSON value in a file, or nothing when there is no such file. -/
def readManifestAt (v : Volume) (path : String) : Except Warning (Option Json) :=
  match readOptional v "licenses" path with
  | .error w => .error w
  | .ok none => .ok none
  | .ok (some text) =>
      match Json.ofText text.toList with
      | .ok manifest => .ok (some manifest)
      | .error f =>
          .error { source := "licenses", path := some path, message := f.message text.toList }

/-- The manifest of an installed package. -/
def installedManifest (v : Volume) (path : String) : Except Warning Json :=
  match readManifestAt v path with
  | .error w => .error w
  | .ok (some manifest) => .ok manifest
  | .ok none =>
      .error { source := "licenses", path := some path, message := "package manifest not found" }

def packageLicense (table : LicenseTable) (name : String) (manifest : Json) : DependencyLicense :=
  let declared := declaredLicenses manifest
  { name
    version := (manifest.get? "version").bind Json.str?
    terms :=
      if declared.isEmpty then .unknown "Unknown".toList
      else table.termsOfAll (declared.map String.toList) }

/-- An installed package with its license, and the warning when its manifest cannot be used. -/
def installedPackage (table : LicenseTable) (v : Volume) (modules name : String) :
    DependencyLicense × List Warning :=
  match installedManifest v (Path.join (Path.join modules name) "package.json") with
  | .ok manifest => (packageLicense table name manifest, [])
  | .error w => ({ name, version := none, terms := .unknown "Unknown".toList }, [w])

/-- The packages that the root manifest names, from where they are installed. -/
def installedPackages (table : LicenseTable) (v : Volume) (repo : String) :
    List DependencyLicense × List Warning :=
  match readManifestAt v (Path.join repo "package.json") with
  | .error w => ([], [w])
  | .ok none => ([], [])
  | .ok (some manifest) =>
      let names := packageNames manifest
      let modules := Path.join repo "node_modules"
      if names.isEmpty then ([], [])
      else if !v.isDirectory modules then
        ([], [{ source := "licenses", path := some modules
                message :=
                  "node_modules not found; install dependencies to check their licenses" }])
      else
        let found := names.map (installedPackage table v modules)
        (found.map Prod.fst, found.flatMap Prod.snd)

/-! ## The report -/

structure Report where
  project : LicenseTerms
  file : Option String
  dependencies : List DependencyLicense
  conflicts : List Conflict
  compliance : Compliance

def Report.of (project : LicenseTerms) (file : Option String)
    (dependencies : List DependencyLicense) : Report :=
  let found := Licenses.conflicts project dependencies
  { project, file, dependencies, conflicts := found
    compliance := complianceOf project dependencies found }

def insights (r : Report) : List String :=
  (match r.file with
  | some file => ["Project is licensed under " ++ r.project.title ++ " (" ++ file ++ ")"]
  | none => ["No LICENSE file found"]) ++
  ((mostFrequent? r.compliance.histogram).map fun (title, n) =>
    "Most common dependency license: " ++ title ++ " (" ++ toString n ++ ")").toList ++
  ["Compliance risk is " ++ r.compliance.risk.name]

def recommendations (r : Report) : List Recommendation :=
  let c := r.compliance
  (if r.project.isNone then
    [{ category := "legal", priority := .high
       description := "Add a LICENSE file so others know how the code may be used"
       effort := "30 minutes" }]
  else []) ++
  (if r.conflicts.isEmpty then []
  else
    [{ category := "legal", priority := .critical
       description := "Replace dependencies incompatible with " ++ r.project.title ++ ": " ++
         ", ".intercalate (r.conflicts.map Conflict.dependency)
       effort := "1-2 days" }]) ++
  (if 0 < c.unknown then
    [{ category := "legal", priority := .medium
       description := "Verify the licenses of " ++ toString c.unknown ++
         " dependencies with unknown terms"
       effort := "1-2 hours" }]
  else []) ++
  (if 0 < c.copyleft && !r.project.isPermissive then
    [Recommendation.informational
      { category := "legal", priority := .low
        description := "Document how the " ++ toString c.copyleft ++
          " copyleft dependencies' obligations are met"
        effort := "1 hour" }]
  else [])

def assess (r : Report) (warnings : List Warning) : Assessment Report :=
  Assessment.sorted {
    report := r
    summary := "Project license " ++ r.project.title ++ " with " ++
      toString r.dependencies.length ++ " dependencies: " ++ toString r.conflicts.length ++
      " incompatible, " ++ toString r.compliance.copyleft ++ " copyleft"
    insights := insights r
    recommendations := recommendations r
    warnings }

/-- Checks the licenses of a repository against a table. -/
def analyze (v : Volume) (table : LicenseTable) (repo : String) :
    Except Failure (Assessment Report) := do
  ensureRepository v repo
  let file ← licenseFile? v repo
  let (project, projectWarnings) := projectTerms table v repo file
  let (dependencies, warnings) := installedPackages table v repo
  return assess (.of project file dependencies) (projectWarnings ++ warnings)

def Report.toJson (r : Report) : Json :=
  .obj [
    ("projectLicense", r.project.toJson), ("licenseFile", .ofOption .str r.file),
    ("dependencies", .list DependencyLicense.toJson r.dependencies),
    ("incompatibilities", .list Conflict.toJson r.conflicts),
    ("compliance", r.compliance.toJson)]

end RepoAudit.Licenses
