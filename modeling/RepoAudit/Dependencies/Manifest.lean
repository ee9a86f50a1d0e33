import RepoAudit.Dependencies.Dependency
import RepoAudit.Json.Printer
import RepoAudit.Json.Reader

/-!
# Manifests

The dependencies that the manifests of four ecosystems declare.
-/

namespace RepoAudit.Manifest

open Pattern

/-! ## Package manifests -/

/-- The sections with dependencies, in the order of reports. -/
def packageSections : List (String × DependencyScope) :=
  [("dependencies", .runtime), ("devDependencies", .development), ("peerDependencies", .peer)]

/-- A version is a text; anything else stands as it is written. -/
def versionText : Json → String
  | .str s => s
  | other => other.compact

def ofPackageJson (manifest : Json) : List Dependency :=
  packageSections.flatMap fun (sectionName, scope) =>
    (((manifest.get? sectionName).bind Json.members?).getD []).map fun (name, version) =>
      { name, version := versionText version, ecosystem := .npm, scope }

def parsePackageJson (t : Text) : Except Json.Fault (List Dependency) :=
  (Json.ofText t).map ofPackageJson

/-! ## Python requirements -/

def isNameChar (c : Char) : Bool :=
  c.isAlphanum || c == '.' || c == '_' || c == '-'

/-- A name, perhaps extras in brackets, and the rest of the line.  The first group is the name, the
second the rest. -/
def requirement : Pattern :=
  sequence [
    .textStart, .group 1 (.seq (.one Char.isAlphanum) (many isNameChar)),
    perhaps (sequence [char '[', many (noneOf "]"), char ']']),
    blanks, .group 2 (many notLineFeed), .textEnd]

/-- The name and version of a line; nothing for blank lines, comments, options and addresses. -/
def parseRequirement (line : Text) : Option (String × String) :=
  let t := Text.trim ((line.before '#').before ';')
  if t.isEmpty || t.head? == some '-' || t.contains "://".toList then none
  else
    (requirement.atStart? t).map fun m =>
      let version := Text.trim ((m.group? 2).getD [])
      (String.ofList ((m.group? 1).getD []),
        if version.isEmpty then "*" else String.ofList version)

def pipDependency : String × String → Dependency
  | (name, version) => { name, version, ecosystem := .pip }

def parseRequirementsTxt (t : Text) : List Dependency :=
  (t.lines.filterMap parseRequirement).map pipDependency

def installRequires : Pattern :=
  sequence [
    literal "install_requires", blanks, char '=', blanks, char '[', .group 1 (many (noneOf "]")),
    char ']']

def quoted : Pattern :=
  sequence [.one (anyOf "\"'"), .group 1 (many1 (noneOf "\"'")), .one (anyOf "\"'")]

/-- The first groups of all matches. -/
def firstGroups (p : Pattern) (t : Text) : List Text :=
  (p.findAll t).filterMap (·.group? 1)

def parseSetupPy (t : Text) : List Dependency :=
  (((firstGroups installRequires t).flatMap (firstGroups quoted)).filterMap parseRequirement).map
    pipDependency

/-! ## Go modules -/

/-- The requirement that an entry states. -/
def goRequirement? (entry : Text) : Option Dependency :=
  let stated := ((Text.cutAt? "//".toList entry).map Prod.fst).getD entry
  match Text.words stated with
  | name :: version :: _ =>
      some {
        name := String.ofList name, version := String.ofList version, ecosystem := .go
        indirect := entry.contains "// indirect".toList }
  | _ => none

/-- The requirements of the lines; `inBlock` between the parentheses of a block. -/
def goRequirements : (inBlock : Bool) → List Text → List Dependency
  | _, [] => []
  | true, line :: lines =>
      let line := line.trim
      if line.head? == some ')' then goRequirements false lines
      else (goRequirement? line).toList ++ goRequirements true lines
  | false, line :: lines =>
      match Text.dropPrefix? line.trim "require".toList with
      | none => goRequirements false lines
      | some rest =>
          let rest := rest.trim
          if rest.head? == some '(' then goRequirements true lines
          else (goRequirement? rest).toList ++ goRequirements false lines

def parseGoMod (t : Text) : List Dependency :=
  goRequirements false t.lines

/-! ## Maven projects -/

def dependencyBlock : Pattern :=
  sequence [
    literal "<dependency>", .group 1 (.run .lazily fun _ => true), literal "</dependency>"]

/-- The trimmed text of the first element of a name. -/
def element? (name : String) (block : Text) : Option Text := do
  let (_, after) ← Text.cutAt? ("<" ++ name ++ ">").toList block
  let (inside, _) ← Text.cutAt? ("</" ++ name ++ ">").toList after
  return inside.trim

/-- The dependency of a block, when it has both coordinates. -/
def mavenDependency? (block : Text) : Option Dependency := do
  let group ← element? "groupId" block
  let artifact ← element? "artifactId" block
  return {
    name := String.ofList (group ++ ':' :: artifact)
    version := ((element? "version" block).map String.ofList).getD "*"
    ecosystem := .maven
    scope := if element? "scope" block == some "test".toList then .development else .runtime }

def blockProblem (number : Nat) : String :=
  "<dependency> #" ++ toString number ++ " without groupId or artifactId skipped"

/-- The blocks of a project that are dependencies, and the problems of the others. -/
def parsePomXml (t : Text) : List Dependency × List String :=
  let blocks := (firstGroups dependencyBlock t).map mavenDependency?
  (blocks.filterMap id, (blocks.zipIdx 1).filterMap fun (d, number) =>
    if d.isNone then some (blockProblem number) else none)

end RepoAudit.Manifest
