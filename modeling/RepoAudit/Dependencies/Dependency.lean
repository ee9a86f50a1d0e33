import RepoAudit.Dependencies.VersionSpec
import RepoAudit.Finding

/-!
# Dependencies

A declared dependency, and where it is looked up: advisories for known vulnerabilities and a
registry for newer versions.  The ones at hand need no network.
-/

namespace RepoAudit

inductive Ecosystem where
  | npm
  | pip
  | go
  | maven
  deriving DecidableEq

namespace Ecosystem

/-- In the order of their names. -/
def all : List Ecosystem :=
  [go, maven, npm, pip]

def name : Ecosystem → String
  | npm => "npm"
  | pip => "pip"
  | go => "go"
  | maven => "maven"

end Ecosystem

inductive DependencyScope where
  | runtime
  | development
  | peer
  deriving DecidableEq

def DependencyScope.name : DependencyScope → String
  | .runtime => "runtime"
  | .development => "development"
  | .peer => "peer"

structure Vulnerability where
  id : String
  severity : Level
  description : String

structure Dependency where
  name : String
  version : String
  ecosystem : Ecosystem
  scope : DependencyScope := .runtime
  indirect : Bool := false
  vulnerabilities : List Vulnerability := []
  outdated : Bool := false
  latestVersion : Option String := none

def Dependency.isVulnerable (d : Dependency) : Bool :=
  !d.vulnerabilities.isEmpty

/-! ## Look-ups -/

structure VersionStatus where
  outdated : Bool := false
  latest : Option String := none

/-- Where vulnerabilities and versions are looked up. -/
structure Registry where
  vulnerabilities : Dependency → List Vulnerability
  status : Dependency → VersionStatus

/-- Known advisories: a part of the package name, and what is wrong with it. -/
def advisories : List (String × Level × String) := [
  ("event-stream", .critical, "Malicious flatmap-stream payload published in 3.3.6"),
  ("flatmap-stream", .critical, "Package contained a credential-stealing payload"),
  ("node-serialize", .critical, "Remote code execution through unserialize()"),
  ("lodash", .high, "Prototype pollution in versions before 4.17.21"),
  ("jackson-databind", .critical, "Polymorphic deserialization gadget chains"),
  ("log4j", .critical, "JNDI lookup remote code execution (Log4Shell)"),
  ("minimist", .medium, "Prototype pollution in argument parsing"),
  ("pyyaml", .medium, "Arbitrary code execution through yaml.load")]

/-- The advisories for a package name. -/
def advisoriesFor (name : String) : List Vulnerability :=
  let lower := Text.lower name.toList
  (advisories.filter fun (part, _, _) => lower.contains part.toList).map
    fun (part, severity, description) =>
      { id := "ADVISORY-" ++ String.ofList (Text.upper part.toList), severity, description }

/-- A version before the second major one counts as outdated. -/
def oldMajor (version : String) : VersionStatus :=
  { outdated := (VersionSpec.major? version.toList).any (· < 2) }

def Registry.offline : Registry where
  vulnerabilities d := advisoriesFor d.name
  status d := oldMajor d.version

def Dependency.lookUp (registry : Registry) (d : Dependency) : Dependency :=
  let status := registry.status d
  { d with
    vulnerabilities := registry.vulnerabilities d
    outdated := status.outdated
    latestVersion := status.latest }

/-! ## Written dependencies -/

def Vulnerability.toJson (v : Vulnerability) : Json :=
  .obj [
    ("id", .str v.id), ("severity", .str v.severity.name), ("description", .str v.description)]

def Dependency.toJson (d : Dependency) : Json :=
  .obj ([
    ("name", .str d.name), ("version", .str d.version), ("ecosystem", .str d.ecosystem.name),
    ("scope", .str d.scope.name)] ++
    (if d.indirect then [("indirect", .bool true)] else []) ++ [
    ("vulnerabilities", .list Vulnerability.toJson d.vulnerabilities),
    ("outdated", .bool d.outdated), ("latestVersion", .ofOption .str d.latestVersion)])

end RepoAudit
