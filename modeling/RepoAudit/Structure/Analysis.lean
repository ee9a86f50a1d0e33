import RepoAudit.Assessment
import RepoAudit.Structure.Layout
import RepoAudit.Structure.Tooling

/-!
# Structure analysis

The first look at a repository: languages, tooling, organization, documentation and tests.
-/

namespace RepoAudit.Structure

structure Report where
  languages : List LanguageStat
  frameworks : List String
  buildTools : List String
  packageManagers : List String
  integrationServices : List String
  organization : Organization
  documentation : Documentation
  codeFiles : Nat
  testFiles : Nat
  lacksLock : Bool

namespace Report

def primaryLanguage? (r : Report) : Option Language :=
  r.languages.head?.map LanguageStat.language

/-- Test files among the code files, in percent. -/
def testShare (r : Report) : Float :=
  percentage r.testFiles r.codeFiles

end Report

def commaList (names : List String) : String :=
  ", ".intercalate names

def insights (r : Report) : List String :=
  (r.languages.head?.map fun primary =>
    primary.language.name ++ " is the primary language (" ++ floatText primary.percentage ++
      "% of lines)").toList ++
  (if r.frameworks.isEmpty then [] else ["Frameworks detected: " ++ commaList r.frameworks]) ++
  (if r.buildTools.isEmpty then [] else ["Build tools: " ++ commaList r.buildTools]) ++
  (if r.integrationServices.isEmpty then ["No continuous integration configuration found"]
  else ["CI: " ++ commaList r.integrationServices]) ++
  [toString r.testFiles ++ " of " ++ toString r.codeFiles ++ " code files are tests (" ++
    floatText r.testShare ++ "%)"]

def testAdvice (r : Report) : List Recommendation :=
  if r.codeFiles = 0 then []
  else if r.testFiles = 0 then
    [{ category := "testing", priority := .high
       description := "No test files found; add an automated test suite", effort := "1-2 days" }]
  else if r.testShare < 20 then
    [{ category := "testing", priority := .medium
       description := "Only " ++ floatText r.testShare ++
         "% of code files are tests; extend test coverage"
       effort := "1-2 days" }]
  else []

def recommendations (r : Report) : List Recommendation :=
  let docs := r.documentation
  (if docs.readme then []
  else
    [{ category := "documentation", priority := .high
       description := "Add a README describing the project, its setup and usage"
       effort := "1-2 hours" }]) ++
  (if docs.score < 50 then
    [{ category := "documentation", priority := .medium
       description := "Documentation score is " ++ toString docs.score ++
         "/100; add API docs, architecture notes and examples"
       effort := "4-8 hours" }]
  else []) ++
  testAdvice r ++
  (if r.integrationServices.isEmpty then
    [{ category := "ci", priority := .medium
       description := "Set up continuous integration to run builds and tests on every change"
       effort := "2-4 hours" }]
  else []) ++
  (if r.lacksLock then
    [{ category := "dependencies", priority := .low
       description := "Commit a lock file so installs are reproducible", effort := "15 minutes" }]
  else []) ++
  (if !docs.contributing && 50 ≤ r.codeFiles then
    [{ category := "documentation", priority := .low
       description := "Add a CONTRIBUTING guide for new contributors", effort := "1-2 hours" }]
  else [])

def assess (r : Report) (warnings : List Warning) : Assessment Report :=
  let primary := (r.primaryLanguage?.map Language.name).getD "Unknown"
  Assessment.sorted {
    report := r
    summary := primary ++ " project with " ++ toString r.organization.totalFiles ++ " files in " ++
      toString r.organization.totalDirectories ++ " directories; documentation score " ++
      toString r.documentation.score ++ "/100"
    insights := insights r
    recommendations := recommendations r
    warnings }

/-- Looks at the layout of a repository. -/
def analyze (v : Volume) (walk : WalkSettings) (repo : String) :
    Except Failure (Assessment Report) := do
  let scan ← scanRepository v repo walk true
  let known := (scan.files v).filter fun e => languageOf e != .unknown
  let (read, unread) := readSources v "structure" scan known
  let sources := read.map fun (e, content) => sourceOf e content
  let code := sources.filter fun s => s.language.isCode
  let (documentation, readmeWarnings) := documentation v scan
  let (frameworks, frameworkWarnings) := frameworks v repo
  let report : Report := {
    languages := languageStats sources
    frameworks
    buildTools := sortedNames (present v repo buildTools)
    packageManagers := managersInUse v repo
    integrationServices := integrationServices v repo
    organization := organization v scan
    documentation
    codeFiles := code.length
    testFiles := code.countP fun s => isTestPath s.path
    lacksLock := lacksLock v repo }
  return assess report (scan.warnings ++ unread ++ readmeWarnings ++ frameworkWarnings)

/-! ## Written reports -/

def LanguageStat.toJson (s : LanguageStat) : Json :=
  .obj [
    ("language", .str s.language.name), ("files", .nat s.files), ("lines", .nat s.lines),
    ("percentage", .float s.percentage)]

def Organization.toJson (o : Organization) : Json :=
  .obj [
    ("hasTests", .bool o.hasTests), ("hasDocs", .bool o.hasDocs),
    ("hasSourceDir", .bool o.hasSourceDir), ("hasConfig", .bool o.hasConfig),
    ("hasAssets", .bool o.hasAssets), ("totalFiles", .nat o.totalFiles),
    ("totalDirectories", .nat o.totalDirectories), ("maxDepth", .nat o.maxDepth)]

def Documentation.toJson (d : Documentation) : Json :=
  .obj [
    ("readme", .bool d.readme), ("apiDocs", .bool d.apiDocs),
    ("contributing", .bool d.contributing), ("architecture", .bool d.architecture),
    ("setupInstructions", .bool d.setupInstructions), ("examples", .bool d.examples),
    ("score", .nat d.score)]

def Report.toJson (r : Report) : Json :=
  .obj [
    ("languages", .list LanguageStat.toJson r.languages),
    ("primaryLanguage", .ofOption (fun l => .str l.name) r.primaryLanguage?),
    ("frameworks", .strings r.frameworks), ("buildTools", .strings r.buildTools),
    ("packageManagers", .strings r.packageManagers),
    ("ciSystems", .strings r.integrationServices), ("organization", r.organization.toJson),
    ("documentation", r.documentation.toJson), ("codeFiles", .nat r.codeFiles),
    ("testFiles", .nat r.testFiles), ("testCoverage", .float r.testShare)]

end RepoAudit.Structure
