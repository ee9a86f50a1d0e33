import RepoAudit.Config.Reader
import RepoAudit.Coverage.Report
import RepoAudit.Json.Decode

/-!
# Failures

What makes a whole analysis impossible.  Everything else is a warning in its result.
-/

namespace RepoAudit

inductive Failure where
  | unreadable (path : String) (error : ReadError)
  | notARepository (path : String)
  | badPayload (path : String) (text : Text) (refusal : Json.Refusal)
  | badConfig (path : String) (error : Config.Error)
  | unknownMigration (requested : String) (supported : List String)
  | badCoverage (path : String) (error : Coverage.Error)
  | badPattern (error : Glob.Error)

namespace Failure

/-- What lies behind the failure, when it has a cause of its own. -/
def cause? : Failure → Option String
  | unreadable _ error => some error.message
  | notARepository _ => some "not a directory"
  | badPayload _ text refusal => some (refusal.message text)
  | _ => none

def message : Failure → String
  | unreadable path error => "I/O error on " ++ path ++ ": " ++ error.message
  | notARepository path => "I/O error on " ++ path ++ ": not a directory"
  | badPayload path text refusal => "invalid JSON in " ++ path ++ ": " ++ refusal.message text
  | badConfig path error => "configuration error in " ++ path ++ ": " ++ error.message
  | unknownMigration requested supported =>
      "unknown migration type '" ++ requested ++ "' (supported: " ++ ", ".intercalate supported ++
        ")"
  | badCoverage path error => "coverage error in " ++ path ++ ": " ++ error.message
  | badPattern error => error.message

end Failure

/-- The payload in the file at a path. -/
def loadPayload (decode : Json.Decoder α) (v : Volume) (path : String) : Except Failure α :=
  match v.readText path with
  | .error e => .error (.unreadable path e)
  | .ok s =>
      match Json.decodeWhole decode s.toList with
      | .error refusal => .error (.badPayload path s.toList refusal)
      | .ok a => .ok a

/-- The coverage report in the file at a path. -/
def loadCoverage (v : Volume) (path : String) : Except Failure Coverage.Tallies :=
  match v.readText path with
  | .error e => .error (.badCoverage path (.unreadable e))
  | .ok s => (Coverage.ofText s.toList).mapError (.badCoverage path)

/-- The settings in a file that was asked for by name. -/
def loadSettings (v : Volume) (path : String) : Except Failure Settings :=
  match v.readText path with
  | .error e => .error (.unreadable path e)
  | .ok s => (Config.parse s.toList).mapError (.badConfig path)

end RepoAudit
