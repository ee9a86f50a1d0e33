import RepoAudit.Level
import RepoAudit.Json.Basic

/-!
# Findings, recommendations and warnings

What every analysis hands out besides its own report: single detected conditions, advice built from
them, and the problems met while data was gathered.
-/

namespace RepoAudit

/-- One detected condition. -/
structure Finding where
  detector : String
  severity : Level
  line : Option Nat
  message : String

def Finding.toJson (f : Finding) : Json :=
  .obj ([("detector", .str f.detector), ("severity", .str f.severity.name)] ++
    (f.line.map fun line => ("line", Json.nat line)).toList ++ [("message", .str f.message)])

structure Recommendation where
  category : String
  priority : Level
  description : String
  /-- Whether there is something to change. -/
  actionable : Bool := true
  effort : String

namespace Recommendation

def informational (r : Recommendation) : Recommendation :=
  { r with actionable := false }

def toJson (r : Recommendation) : Json :=
  .obj [
    ("category", .str r.category), ("priority", .str r.priority.name),
    ("description", .str r.description), ("actionable", .bool r.actionable),
    ("estimatedEffort", .str r.effort)]

/-- Most urgent first; within a level the order stays. -/
def byUrgency (rs : List Recommendation) : List Recommendation :=
  rs.mergeSort fun a b => a.priority.atLeast b.priority

end Recommendation

/-- A problem that did not stop the analysis. -/
structure Warning where
  source : String
  path : Option String := none
  message : String

namespace Warning

def toJson (w : Warning) : Json :=
  .obj ([("source", .str w.source)] ++ (w.path.map fun path => ("path", Json.str path)).toList ++
    [("message", .str w.message)])

def toString (w : Warning) : String :=
  match w.path with
  | some path => "[" ++ w.source ++ "] " ++ path ++ ": " ++ w.message
  | none => "[" ++ w.source ++ "] " ++ w.message

end Warning
end RepoAudit
