import RepoAudit.Level
import RepoAudit.Path
import RepoAudit.Pattern.Classes

/-!
# Migrations

A migration leads from one framework to another.  It applies to files by their extension, and a
file is affected when one of its patterns occurs in it.
-/

namespace RepoAudit.Migration

structure Marker where
  label : String
  pattern : Pattern

structure Step where
  title : String
  description : String

structure Definition where
  name : String
  source : String
  target : String
  extensions : List String
  markers : List Marker
  breakingChanges : List String := []
  steps : List Step

/-- The steps where nobody has written any for the migration at hand. -/
def genericSteps (source target : String) : List Step := [
  { title := "Inventory usage"
    description := "List every module that depends on " ++ source ++
      " and record the features it uses" },
  { title := "Introduce the target"
    description := "Add " ++ target ++ " next to " ++ source ++
      " so both can run during the transition" },
  { title := "Migrate incrementally"
    description :=
      "Convert files one module at a time, keeping the test suite green after each" },
  { title := "Remove the source"
    description := "Delete remaining " ++ source ++
      " code and dependencies once nothing references them" }]

def Definition.appliesTo (d : Definition) (path : String) : Bool :=
  d.extensions.contains (Path.extensionKey path)

/-- The markers that occur in a text, with the number of their occurrences. -/
def Definition.occurrences (d : Definition) (t : Text) : List (Marker × Nat) :=
  (d.markers.map fun m => (m, m.pattern.count t)).filter fun (_, n) => 0 < n

inductive Effort where
  | low
  | medium
  | high
  | veryHigh
  deriving DecidableEq

namespace Effort

def ofFileCount (files : Nat) : Effort :=
  if files < 10 then low
  else if files < 50 then medium
  else if files < 100 then high
  else veryHigh

def name : Effort → String
  | low => "low"
  | medium => "medium"
  | high => "high"
  | veryHigh => "very-high"

def time : Effort → String
  | low => "1-2 days"
  | medium => "1-2 weeks"
  | high => "2-4 weeks"
  | veryHigh => "1-3 months"

def priority : Effort → Level
  | low => .low
  | medium => .medium
  | high => .high
  | veryHigh => .critical

end Effort
end RepoAudit.Migration
