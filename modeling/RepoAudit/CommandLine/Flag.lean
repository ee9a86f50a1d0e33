import RepoAudit.Decimal.Unsigned
import RepoAudit.Report.Format

/-!
# Commands and flags

The names of the commands, and the flags that each of them understands.
-/

namespace RepoAudit.CommandLine

/-- Why arguments are refused, or what they ask for instead of a run. -/
inductive UsageError where
  | unknownArgument
  | unknownCommand
  | missingCommand
  | missingArgument
  | invalidValue
  /-- A value of the right kind that does not read. -/
  | rejectedValue
  /-- A value where none is taken. -/
  | surplusValue
  /-- A flag that is given twice. -/
  | conflict
  | helpRequested
  | versionRequested
  /-- Nothing was asked for at all. -/
  | helpNeeded
  deriving DecidableEq

inductive CommandName where
  | tree (kind : ReportKind)
  | pull
  | contributors
  | issues
  | migrate
  | all
  deriving DecidableEq

namespace CommandName

def ofText? : String → Option CommandName
  | "structure" => some (tree .layout)
  | "complexity" => some (tree .complexity)
  | "dependencies" => some (tree .dependencies)
  | "licenses" => some (tree .licenses)
  | "performance" => some (tree .performance)
  | "pr" => some pull
  | "contributors" => some contributors
  | "issues" => some issues
  | "migrate" => some migrate
  | "all" => some all
  | _ => none

/-- Takes a path that no flag introduces. -/
def takesPath : CommandName → Bool
  | tree _ | migrate | all => true
  | pull | contributors | issues => false

end CommandName

inductive Flag where
  | verbose
  | config
  | format
  | output
  | input
  | lcov
  | issues
  | pulls
  | migration
  | list
  | jobs
  | help
  | version
  deriving DecidableEq

namespace Flag

def longName : Flag → String
  | verbose => "verbose"
  | config => "config"
  | format => "format"
  | output => "output"
  | input => "input"
  | lcov => "lcov"
  | issues => "issues"
  | pulls => "prs"
  | migration => "type"
  | list => "list"
  | jobs => "jobs"
  | help => "help"
  | version => "version"

def shortName? : Flag → Option Char
  | verbose => some 'v'
  | format => some 'f'
  | output => some 'o'
  | jobs => some 'j'
  | help => some 'h'
  | version => some 'V'
  | _ => none

def takesValue : Flag → Bool
  | verbose | list | help | version => false
  | _ => true

/-- The formats by their exact names. -/
def formats : List (String × ReportFormat) :=
  [("json", .json), ("markdown", .markdown), ("terminal", .terminal)]

def maxJobs : Nat := UInt64.size

/-- What is wrong with a value. -/
def refusal? (f : Flag) (value : String) : Option UsageError :=
  match f with
  | format => if (formats.lookup value).isSome then none else some .invalidValue
  | jobs =>
      match Decimal.readUnsigned maxJobs value.toList with
      | .ok _ => none
      | .error _ => some .rejectedValue
  | config | output | input | lcov | issues | pulls =>
      if value.isEmpty then some .invalidValue else none
  | _ => none

/-- The flags that stand before or after the name of a command. -/
def everywhere : List Flag :=
  [verbose, config, format, output, help]

end Flag

/-- The flags of a command, or those before any command. -/
def flagsOf : Option CommandName → List Flag
  | none => .version :: Flag.everywhere
  | some (.tree _) => Flag.everywhere
  | some .pull => [.input, .lcov] ++ Flag.everywhere
  | some .contributors => .input :: Flag.everywhere
  | some .issues => [.issues, .pulls] ++ Flag.everywhere
  | some .migrate => [.migration, .list] ++ Flag.everywhere
  | some .all => .jobs :: Flag.everywhere

end RepoAudit.CommandLine
