import RepoAudit.CommandLine.Invocation
import RepoAudit.FileTree.Write

/-!
# Running an invocation

The files are read from a volume, and a report is printed or written into it.  Nothing is written
before every analysis has succeeded.
-/

namespace RepoAudit.CommandLine

inductive RunError where
  /-- A failure, with what was being done, outermost first. -/
  | failed (doing : List String) (failure : Failure)
  | cannotCreate (path : String) (error : SystemError)
  /-- The settings ask for more days than a span of time can have. -/
  | spanTooLong

def RunError.message : RunError → String
  | .failed doing failure =>
      ": ".intercalate (doing ++ [failure.message] ++ failure.cause?.toList)
  | .cannotCreate path error => "Failed to create " ++ path ++ ": " ++ error.message
  | .spanTooLong => "stale_days is out of range"

def during (doing : List String) (r : Except Failure α) : Except RunError α :=
  r.mapError (.failed doing)

/-- The directory from which settings are searched for. -/
def Command.start (v : Volume) : Command → String
  | .tree _ path | .migrate path _ | .all path _ => path
  | _ => v.pathTo v.working

def settingsFor (v : Volume) (i : Invocation) : Except RunError Settings :=
  match i.config with
  | some path => during ["Failed to load config " ++ path] (loadSettings v path)
  | none => .ok (Config.discover v (i.command.start v))

/-- The format that was asked for, or that the settings name, or the one for terminals. -/
def formatFor (i : Invocation) (settings : Settings) : ReportFormat :=
  (i.format <|> settings.defaultFormat.bind ReportFormat.ofName?).getD .terminal

def assessPull (v : Volume) (input : String) (lcov : Option String) :
    Except Failure (Assessment Report) := do
  let pull ← loadPayload PullRequest.decode v input
  let source ← match lcov with
    | some path => Coverage.Source.report <$> loadCoverage v path
    | none => pure Coverage.Source.payload
  return (Review.analyze pull source).map Report.review

def loadIssues (v : Volume) (issues : String) (pulls : Option String) :
    Except Failure (List Issue × List PullRequest) := do
  let issues ← loadPayload (decodeFeed Issue.decode) v issues
  match pulls with
  | some path => return (issues, ← loadPayload (decodeFeed PullRequest.decode) v path)
  | none => return (issues, [])

/-- The assessments that a command makes. -/
def assessments (v : Volume) (now : Timestamp) (settings : Settings) :
    Command → Except RunError (List (Assessment Report))
  | .tree analysis path => do
      let doing := analysis.kind.name ++ " analysis of " ++ path ++ " failed"
      return [← during [doing] (analysis.analyze v settings path)]
  | .all path _ =>
      during ["Analysis of " ++ path ++ " failed"] (TreeAnalysis.analyzeAll v settings path)
  | .pull input lcov => do
      return [← during [] (assessPull v input lcov)]
  | .contributors input => do
      let activity ← during [] (loadPayload Activity.decode v input)
      let a := Contributors.analyze settings.contributorSettings now activity
      return [a.map Report.contributors]
  | .issues issues pulls => do
      let (issues, pulls) ← during [] (loadIssues v issues pulls)
      match IssueTracker.analyze? settings.issueSettings now issues pulls with
      | some a => return [a.map Report.issueTracker]
      | none => throw .spanTooLong
  | .migrate path migration => do
      let a ← during [] (Migration.analyze v settings.walk path migration)
      return [a.map Report.migration]
  | .listMigrations => return []

/-- The tree after a run, and what the run printed or why it failed. -/
structure Outcome where
  volume : Volume
  answer : Except RunError String

/-- Prints a text, or writes it to a file, for which missing directories are created. -/
def deliver (v : Volume) (output : Option String) (text : String) : Outcome :=
  match output with
  | none => ⟨v, .ok text⟩
  | some path =>
      let above := ((Path.ancestors path (Path.segments path).length).drop 1)
      match v.makeDirectories above with
      | ⟨made, some e⟩ => ⟨made, .error (.cannotCreate (above.headD "") e)⟩
      | ⟨made, none⟩ =>
          match made.writeFile path text with
          | .error e => ⟨made, .error (.cannotCreate path e)⟩
          | .ok written => ⟨written, .ok ""⟩

/-- The text of the report that an invocation asks for. -/
def reportText (v : Volume) (now : Timestamp) (i : Invocation) : Except RunError String := do
  let settings ← settingsFor v i
  let found ← assessments v now settings i.command
  let results := found.map fun a => ({ assessment := a, generatedAt := now } : Result)
  return (formatFor i settings).render false results

/-- Runs an invocation at a given time. -/
def run (v : Volume) (now : Timestamp) (i : Invocation) : Outcome :=
  match i.command with
  | .listMigrations => ⟨v, .ok (ReportFormat.ofLines Migration.supportedTypes)⟩
  | _ =>
      match reportText v now i with
      | .error e => ⟨v, .error e⟩
      | .ok text => deliver v i.output text

end RepoAudit.CommandLine
