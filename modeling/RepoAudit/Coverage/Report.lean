import RepoAudit.Coverage.Record
import RepoAudit.Decimal.Round
import RepoAudit.FileTree.Basic
import RepoAudit.Payload.Basic
import RepoAudit.Tally

/-!
# Line coverage

Where the test coverage of a pull request comes from.  From a report, the lines found and hit are
counted for each source file, over all sections about it.
-/

namespace RepoAudit.Coverage

/-- The line records of one source file: all of them, and those with a positive count. -/
structure Tally where
  found : Nat := 0
  hit : Nat := 0

def Tally.add (t : Tally) (count : Nat) : Tally :=
  ⟨t.found + 1, if 0 < count then t.hit + 1 else t.hit⟩

/-- The named parts of a path, with a leading `/` or `.` kept as a part. -/
def components (path : String) : List String :=
  let parts := pathParts path
  let named := (parts.drop 1).filter fun s => s != "" && s != "."
  match parts with
  | [] | [""] => []
  | "" :: _ => "/" :: named
  | first :: _ => first :: named

/-- The tallies of source files, each under the parts of its path. -/
abbrev Tallies := List (List String × Tally)

def Tallies.update (path : List String) (f : Tally → Tally) : Tallies → Tallies
  | [] => [(path, f {})]
  | (other, t) :: rest =>
      if other == path then (other, f t) :: rest else (other, t) :: Tallies.update path f rest

/-- The tallies so far, and the file whose section is open. -/
structure Progress where
  tallies : Tallies := []
  current : Option (List String) := none

def Progress.step (p : Progress) : Record → Progress
  | .source path =>
      let parts := components path
      ⟨p.tallies.update parts id, some parts⟩
  | .line _ count =>
      match p.current with
      | some parts => { p with tallies := p.tallies.update parts (·.add count) }
      | none => p
  | .sectionEnd => { p with current := none }
  | .other => p

inductive Error where
  | unreadable (error : ReadError)
  | record (line : Nat) (error : RecordError)

def Error.message : Error → String
  | .unreadable error => error.message
  | .record line error => "invalid record syntax at line " ++ toString line ++ ": " ++ error.message

/-- A line of a report without the characters that end it. -/
def stripLineEnd (t : Text) : Text :=
  (t.reverse.dropWhile fun c => c == '\r' || c == '\n').reverse

def readRecords : (line : Nat) → List Text → Except Error (List Record)
  | _, [] => .ok []
  | line, t :: lines =>
      match Record.ofLine (stripLineEnd t) with
      | .error e => .error (.record line e)
      | .ok record => (readRecords (line + 1) lines).map (record :: ·)

def collect (records : List Record) : Tallies :=
  (records.foldl Progress.step {}).tallies

/-- The tallies of a whole report. -/
def ofText (report : Text) : Except Error Tallies :=
  (readRecords 1 report.lines).map collect

/-- The tally of the first file whose path ends with the given one. -/
def Tallies.find? (tallies : Tallies) (path : String) : Option Tally :=
  let wanted := components path
  (List.find? (fun (parts, _) => wanted.isSuffixOf parts) tallies).map Prod.snd

/-- The share of found lines that are hit, over the changed files a report knows. -/
def ofFiles (tallies : Tallies) (files : List ChangedFile) : Option Float :=
  let known := files.filterMap fun f => tallies.find? f.filename
  let found := sumOf (known.map Tally.found)
  let hit := sumOf (known.map Tally.hit)
  if found = 0 then none
  else some (round1 (hit.toFloat / found.toFloat * 100))

/-- Where coverage comes from: the payload of the pull request, or a report. -/
inductive Source where
  | payload
  | report (tallies : Tallies)

/-- The line coverage of a pull request in percent, when it is known. -/
def Source.coverage (s : Source) (pull : PullRequest) : Option Float :=
  match s with
  | .payload => pull.coverage.map (clamp 0 100)
  | .report tallies => ofFiles tallies pull.files

end RepoAudit.Coverage
