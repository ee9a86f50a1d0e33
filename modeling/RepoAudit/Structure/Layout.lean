import RepoAudit.Decimal.Round
import RepoAudit.Language
import RepoAudit.Repository
import RepoAudit.Tally

/-!
# Layout

The languages a repository is written in, the directories it is organized into and the
documentation it carries.
-/

namespace RepoAudit.Structure

def lowered (s : String) : Text :=
  Text.lower s.toList

/-- The last name on the way to an entry, in small letters. -/
def entryName (e : Walk.Entry) : Text :=
  lowered (e.names.getLast?.getD "")

/-! ## Tests -/

def testSegments : List String :=
  ["test", "tests", "__tests__", "spec", "specs"]

/-- A path into a directory of tests, or to a file that is named as a test. -/
def isTestPath (path : String) : Bool :=
  let segments := (lowered path).splitBy (· == '/')
  let file : Text := segments.getLast?.getD []
  segments.dropLast.any (fun s => testSegments.contains (String.ofList s)) ||
    file.containsAny [".test.", ".spec.", "_test."] || "test_".toList.isPrefixOf file

/-! ## Languages -/

structure LanguageStat where
  language : Language
  files : Nat
  lines : Nat
  percentage : Float

/-- A readable source file of a known language. -/
structure Source where
  path : String
  language : Language
  lines : Nat

def languageOf (e : Walk.Entry) : Language :=
  Language.ofPath e.relative

def sourceOf (e : Walk.Entry) (content : Text) : Source :=
  { path := e.display, language := languageOf e, lines := content.lines.length }

/-- More lines first, then by name. -/
def LanguageStat.precedes (a b : LanguageStat) : Bool :=
  if a.lines = b.lines then nameLe a.language.name b.language.name else b.lines < a.lines

def languageStats (sources : List Source) : List LanguageStat :=
  let total := sumOf (sources.map Source.lines)
  let stats := (sources.map Source.language).eraseDups.map fun language =>
    let own := sources.filter fun s => s.language == language
    let lines := sumOf (own.map Source.lines)
    { language, files := own.length, lines, percentage := percentage lines total : LanguageStat }
  stats.mergeSort LanguageStat.precedes

/-! ## Organization -/

structure Organization where
  hasTests : Bool := false
  hasDocs : Bool := false
  hasSourceDir : Bool := false
  hasConfig : Bool := false
  hasAssets : Bool := false
  totalFiles : Nat := 0
  totalDirectories : Nat := 0
  maxDepth : Nat := 0

/-- The number of segments of the path below the root. -/
def depth (e : Walk.Entry) : Nat :=
  (Text.splitBy (· == '/') e.display.toList).length

def Organization.add (o : Organization) (isDirectory : Bool) (e : Walk.Entry) : Organization :=
  if isDirectory then
    let name := entryName e
    { o with
      totalDirectories := o.totalDirectories + 1
      maxDepth := max o.maxDepth (depth e)
      hasTests := o.hasTests || name.containsAny ["test", "spec"]
      hasDocs := o.hasDocs || name.containsAny ["doc"]
      hasSourceDir := o.hasSourceDir || name.containsAny ["src", "lib"]
      hasConfig := o.hasConfig || name.containsAny ["config", "conf"]
      hasAssets := o.hasAssets || name.containsAny ["asset", "static", "public", "image"] }
  else { o with totalFiles := o.totalFiles + 1 }

def organization (v : Volume) (scan : Scan) : Organization :=
  scan.entries.foldl (fun o e => o.add (v.isDirectory (scan.pathOf e)) e) {}

/-! ## Documentation -/

structure Documentation where
  readme : Bool := false
  apiDocs : Bool := false
  contributing : Bool := false
  architecture : Bool := false
  setupInstructions : Bool := false
  examples : Bool := false

/-- The sum of the weights of what is there, at most 100. -/
def Documentation.score (d : Documentation) : Nat :=
  (if d.readme then 20 else 0) + (if d.apiDocs then 20 else 0) +
    (if d.contributing then 15 else 0) + (if d.architecture then 15 else 0) +
    (if d.setupInstructions then 15 else 0) + (if d.examples then 15 else 0)

def exampleDirs : List String :=
  ["example", "examples", "demo", "demos", "sample", "samples"]

/-- A file that is read as prose. -/
def isProse (name : Text) : Bool :=
  match Path.nameExtension? (String.ofList name) with
  | none => true
  | some ext => ["md", "txt", "rst", "adoc"].contains ext

def isReadme (e : Walk.Entry) : Bool :=
  e.names.length == 1 && "readme".toList.isPrefixOf (entryName e)

/-- Some directory on the way to the entry is for documents. -/
def inDocs (e : Walk.Entry) : Bool :=
  ((lowered e.display).splitBy (· == '/')).dropLast.any fun s =>
    Text.contains s "doc".toList

def Documentation.add (d : Documentation) (isDirectory : Bool) (e : Walk.Entry) : Documentation :=
  let name := entryName e
  if isDirectory then
    { d with examples := d.examples || exampleDirs.contains (String.ofList name) }
  else
    { d with
      readme := d.readme || isReadme e
      contributing := d.contributing ||
        (e.names.length == 1 && "contributing".toList.isPrefixOf name)
      apiDocs := d.apiDocs || (inDocs e && (lowered e.display).contains "api".toList) ||
        name.containsAny ["openapi", "swagger"]
      architecture := d.architecture || name.containsAny ["architecture", "design"]
      setupInstructions := d.setupInstructions ||
        (("install".toList.isPrefixOf name || "setup".toList.isPrefixOf name) && isProse name) }

/-- A readme that says how to set the project up. -/
def tellsSetup (readme : String) : Bool :=
  (lowered readme).containsAny ["install", "setup", "getting started"]

/-- The documentation, and the warning of a readme that cannot be read.  The readme is looked into
only when no file of its own tells the setup. -/
def documentation (v : Volume) (scan : Scan) : Documentation × List Warning :=
  let isDirectory := fun e => v.isDirectory (scan.pathOf e)
  let docs := scan.entries.foldl (fun d e => d.add (isDirectory e) e) ({} : Documentation)
  if docs.setupInstructions then (docs, [])
  else
    match scan.entries.find? fun e => isReadme e && !isDirectory e with
    | none => (docs, [])
    | some e =>
        match readOptional v "structure" (scan.pathOf e) with
        | .ok (some text) => ({ docs with setupInstructions := tellsSetup text }, [])
        | .ok none => (docs, [])
        | .error w => (docs, [w])

end RepoAudit.Structure
