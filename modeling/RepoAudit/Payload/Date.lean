import RepoAudit.Finding
import RepoAudit.Time.Timestamp

/-!
# Dates in payloads

A date that cannot be read costs a warning that names the stream it stands in, and counts as absent.
-/

namespace RepoAudit

def readDate (source value : String) : Except Warning Timestamp :=
  (Timestamp.ofText value.toList).mapError fun problem =>
    { source, message := "invalid timestamp '" ++ value ++ "': " ++ problem.message }

def readOptionalDate (source : String) : Option String → Option Timestamp × List Warning
  | none => (none, [])
  | some value =>
      match readDate source value with
      | .ok t => (some t, [])
      | .error w => (none, [w])

end RepoAudit
