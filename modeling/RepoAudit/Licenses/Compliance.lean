import RepoAudit.Level
import RepoAudit.Licenses.Terms
import RepoAudit.Tally

/-!
# Compliance

Whether a project may be distributed under its license with the dependencies it has.  Copyleft
terms conflict with a permissive project license.
-/

namespace RepoAudit.Licenses

structure DependencyLicense where
  name : String
  version : Option String
  terms : LicenseTerms

structure Conflict where
  dependency : String
  dependencyLicense : String
  projectLicense : String

namespace Conflict

def severity (_ : Conflict) : Level :=
  .high

def reason (c : Conflict) : String :=
  "Copyleft " ++ c.dependencyLicense ++ " terms conflict with distributing under " ++
    c.projectLicense

end Conflict

/-- The copyleft dependencies of a permissively licensed project. -/
def conflicts (project : LicenseTerms) (deps : List DependencyLicense) : List Conflict :=
  if project.isPermissive then
    (deps.filter (·.terms.copyleft)).map fun d =>
      { dependency := d.name, dependencyLicense := d.terms.title, projectLicense := project.title }
  else []

inductive Status where
  | compliant
  | needsReview
  | nonCompliant
  deriving DecidableEq

def Status.name : Status → String
  | .compliant => "compliant"
  | .needsReview => "needs-review"
  | .nonCompliant => "non-compliant"

structure Compliance where
  status : Status
  risk : Risk
  copyleft : Nat
  unknown : Nat
  /-- The number of dependencies of each license, in the order of its title. -/
  histogram : List (String × Nat)
  actions : List String

def copyleftCount (deps : List DependencyLicense) : Nat :=
  deps.countP (·.terms.copyleft)

def unknownNames (deps : List DependencyLicense) : List String :=
  (deps.filter (·.terms.isUnknown)).map DependencyLicense.name

def statusOf (project : LicenseTerms) (found : List Conflict) : Status :=
  if !found.isEmpty then .nonCompliant
  else if project.isNone || project.isUnknown then .needsReview
  else .compliant

def riskOf (project : LicenseTerms) (deps : List DependencyLicense) (found : List Conflict) :
    Risk :=
  if !found.isEmpty || project.isNone then .high
  else if 0 < copyleftCount deps || !(unknownNames deps).isEmpty || project.isUnknown then .medium
  else .low

def actionsFor (project : LicenseTerms) (deps : List DependencyLicense) (found : List Conflict) :
    List String :=
  let unknown := unknownNames deps
  let copyleft := copyleftCount deps
  (if project.isNone then ["Add a LICENSE file to the repository root"] else []) ++
  (found.map fun c =>
    "Replace " ++ c.dependency ++ " (" ++ c.dependencyLicense ++ ") or relicense the project") ++
  (if unknown.isEmpty then []
  else ["Verify the licenses of: " ++ ", ".intercalate unknown]) ++
  (if 0 < copyleft && found.isEmpty then
    ["Honour the obligations of " ++ toString copyleft ++ " copyleft dependencies"]
  else [])

def complianceOf (project : LicenseTerms) (deps : List DependencyLicense)
    (found : List Conflict) : Compliance where
  status := statusOf project found
  risk := riskOf project deps found
  copyleft := copyleftCount deps
  unknown := (unknownNames deps).length
  histogram := tally (deps.map fun d => d.terms.title)
  actions := actionsFor project deps found

/-! ## Written reports -/

def DependencyLicense.toJson (d : DependencyLicense) : Json :=
  .obj [
    ("name", .str d.name), ("version", .ofOption .str d.version), ("license", d.terms.toJson)]

def Conflict.toJson (c : Conflict) : Json :=
  .obj [
    ("dependency", .str c.dependency), ("dependencyLicense", .str c.dependencyLicense),
    ("projectLicense", .str c.projectLicense), ("severity", .str c.severity.name),
    ("reason", .str c.reason)]

def Compliance.toJson (c : Compliance) : Json :=
  .obj [
    ("status", .str c.status.name), ("riskLevel", .str c.risk.name),
    ("copyleftCount", .nat c.copyleft), ("unknownCount", .nat c.unknown),
    ("licenseHistogram", .obj (c.histogram.map fun (title, n) => (title, .nat n))),
    ("actionItems", .strings c.actions)]

end RepoAudit.Licenses
