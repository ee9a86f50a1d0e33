import RepoAudit.CommandLine.Flag

/-!
# Usage

What is said about the command line itself: its commands, its flags and why arguments are refused.
-/

namespace RepoAudit.CommandLine

/-- How the program is called. -/
def usageLine : String :=
  "Usage: repoaudit [FLAGS] <COMMAND> [FLAGS] [PATH]"

def helpText : String :=
  "\n".intercalate [
    "Assessment of repositories and of the activity around them",
    "",
    usageLine,
    "",
    "Commands:",
    "  structure <PATH>             Languages, frameworks, tooling, layout and documentation",
    "  complexity <PATH>            Metrics of each file and what to refactor first",
    "  dependencies <PATH>          Declared dependencies, advisories and outdated versions",
    "  licenses <PATH>              Licenses, their compatibility and compliance",
    "  performance <PATH>           Patterns that are slow in scripts",
    "  pr --input <FILE>            Review of a pull request, with --lcov <FILE> for its coverage",
    "  contributors --input <FILE>  Engagement of the contributors",
    "  issues --issues <FILE>       Health of an issue tracker, with --prs <FILE>",
    "  migrate <PATH> --type <NAME> Plan of a migration, or --list for those that are known",
    "  all <PATH>                   Every analysis of a tree, with --jobs <COUNT>",
    "",
    "Flags:",
    "  -v, --verbose           Say more, once or several times",
    "      --config <FILE>     Settings, instead of the nearest .reposcope.toml",
    "  -f, --format <FORMAT>   json, markdown or terminal",
    "  -o, --output <FILE>     Write the report to a file",
    "  -h, --help              Show this text",
    "  -V, --version           Show the version",
    ""]

/-- Why arguments are refused. -/
def UsageError.reason : UsageError → String
  | .unknownArgument => "unexpected argument"
  | .unknownCommand => "unrecognized command"
  | .missingCommand => "a command is required"
  | .missingArgument => "a required argument was not given"
  | .invalidValue => "a value is missing or not one of those possible"
  | .rejectedValue => "a value could not be read"
  | .surplusValue => "a value was given where none is taken"
  | .conflict => "an argument was given twice"
  | .helpRequested | .helpNeeded => "help is asked for"
  | .versionRequested => "the version is asked for"

def UsageError.message : UsageError → String
  | .helpRequested | .helpNeeded => helpText
  | .versionRequested => "repoaudit\n"
  | e => "error: " ++ e.reason ++ "\n\n" ++ usageLine ++ "\n"

/-- What was asked for is shown, and nothing is wrong. -/
def UsageError.isAnswer : UsageError → Bool
  | .helpRequested | .versionRequested => true
  | _ => false

end RepoAudit.CommandLine
