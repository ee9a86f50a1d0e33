import RepoAudit.Config.Settings
import RepoAudit.Failure

/-!
# Repositories

How analyses get at a repository: its entries in the order of a walk, and its files, of which an
unreadable one costs a warning.
-/

namespace RepoAudit

/-- Nothing, when the path leads to a directory. -/
def ensureRepository (v : Volume) (path : String) : Except Failure Unit :=
  match v.resolve path with
  | .error e => .error (.unreadable path (.system e))
  | .ok (_, t) => if t.isDirectory then .ok () else .error (.notARepository path)

/-- The entries of a repository, with its directories when they are wanted. -/
def scanRepository (v : Volume) (path : String) (settings : WalkSettings) (includeDirs : Bool) :
    Except Failure Scan := do
  ensureRepository v path
  let plan ← (Walk.Plan.ofSettings path settings includeDirs).mapError Failure.badPattern
  return Scan.ofEvents path (plan.events v)

/-- The text of a file, or the warning that it is left out. -/
def readSource (v : Volume) (source path : String) : Except Warning String :=
  (v.readText path).mapError fun e => { source, path := some path, message := e.message }

/-- The text of a file that need not be there. -/
def readOptional (v : Volume) (source path : String) : Except Warning (Option String) :=
  match v.readText path with
  | .ok s => .ok (some s)
  | .error (.system .notFound) => .ok none
  | .error e => .error { source, path := some path, message := e.message }

/-- The texts of files, in order, and the warnings of those that cannot be read. -/
def readSources (v : Volume) (source : String) (scan : Scan) (entries : List Walk.Entry) :
    List (Walk.Entry × Text) × List Warning :=
  let read := entries.map fun e => (e, readSource v source (scan.pathOf e))
  (read.filterMap fun (e, r) => r.toOption.map fun s => (e, s.toList),
    read.filterMap fun (_, r) => match r with
      | .ok _ => none
      | .error w => some w)

end RepoAudit
