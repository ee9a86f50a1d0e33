import RepoAudit.CommandLine.Reading
import RepoAudit.TreeAnalysis

/-!
# Invocations

What a command line asks for, once it has been understood.  A flag after the command's name wins
over the same flag before it.
-/

namespace RepoAudit.CommandLine

inductive Command where
  | tree (analysis : TreeAnalysis) (path : String)
  | pull (input : String) (lcov : Option String)
  | contributors (input : String)
  | issues (issues : String) (pulls : Option String)
  | migrate (path migration : String)
  | listMigrations
  | all (path : String) (jobs : Nat)

structure Invocation where
  verbosity : Nat := 0
  config : Option String := none
  format : Option ReportFormat := none
  output : Option String := none
  command : Command

/-- What is logged, by the number of times that verbosity was asked for. -/
def logLevel : Nat → String
  | 0 => "warn"
  | 1 => "info"
  | 2 => "debug"
  | _ => "trace"

def required (value : Option String) : Except UsageError String :=
  match value with
  | some v => .ok v
  | none => .error .missingArgument

/-- The number of workers that was asked for, or zero. -/
def Reading.jobs (r : Reading) : Nat :=
  let read := (r.value? .jobs).bind fun value =>
    (Decimal.readUnsigned Flag.maxJobs value.toList).toOption
  read.getD 0

/-- The command that the arguments after its name make. -/
def commandOf (name : CommandName) (r : Reading) : Except UsageError Command := do
  match name with
  | .tree kind =>
      let path ← required r.path
      match TreeAnalysis.all.find? fun a => a.kind == kind with
      | some analysis => return .tree analysis path
      | none => throw .unknownCommand
  | .pull => return .pull (← required (r.value? .input)) (r.value? .lcov)
  | .contributors => return .contributors (← required (r.value? .input))
  | .issues => return .issues (← required (r.value? .issues)) (r.value? .pulls)
  | .migrate =>
      if r.listed then return .listMigrations
      return .migrate (← required r.path) (← required (r.value? .migration))
  | .all => return .all (← required r.path) r.jobs

/-- No flag and no path was given. -/
def Reading.isBlank (r : Reading) : Bool :=
  r.values.isEmpty && r.verbosity == 0

/-- The arguments before the command, when no command follows them. -/
def withoutCommand (leading : Reading) : UsageError :=
  match leading.settle with
  | .error e => e
  | .ok r => if r.isBlank then .helpNeeded else .missingCommand

namespace Invocation

def ofReadings (leading own : Reading) (command : Command) : Invocation :=
  let value := fun f => own.value? f <|> leading.value? f
  { verbosity := if 0 < own.verbosity then own.verbosity else leading.verbosity
    config := value .config
    format := (value .format).bind fun name => Flag.formats.lookup name
    output := value .output
    command }

/-- What the arguments after the program's name ask for. -/
def ofArguments (args : List String) : Except UsageError Invocation := do
  match ← readLeading {} args with
  | (leading, none) => throw (withoutCommand leading)
  | (leading, some (name, rest)) =>
      let own ← (← readCommand name {} rest).settle
      let command ← commandOf name own
      return ofReadings (← leading.settle) own command

end Invocation
end RepoAudit.CommandLine
