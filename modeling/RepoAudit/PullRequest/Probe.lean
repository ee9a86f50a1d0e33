import RepoAudit.Finding
import RepoAudit.Pattern.Classes

/-!
# Probes

Patterns that are looked for in the lines a pull request adds, joined by line feeds, so the line of
a finding counts the added lines.
-/

namespace RepoAudit

/-- A named pattern each of whose matches is a finding. -/
structure Probe where
  name : String
  severity : Level
  pattern : Pattern
  message : String

def Probe.findings (p : Probe) (t : Text) : List Finding :=
  (p.pattern.findAll t).map fun m =>
    { detector := p.name, severity := p.severity, line := some m.line, message := p.message }

inductive ProbeCategory where
  | bug
  | security
  | quality
  deriving DecidableEq

def ProbeCategory.name : ProbeCategory → String
  | .bug => "bug"
  | .security => "security"
  | .quality => "quality"

namespace Probe

open Pattern

/-- Anything in parentheses that are not closed before. -/
def parenthesized : Pattern :=
  sequence [char '(', many (noneOf ")"), char ')']

def bugProbes : List Probe := [
  { name := "assignment-in-condition", severity := .high
    pattern := sequence [
      .wordBoundary, anyWord ["if", "while"], blanks, char '(', .run .lazily (noneOf ")"),
      .one (noneOf "=!<>"), char '=', .one (noneOf "=>"), many (noneOf ")"), char ')']
    message := "Assignment inside a condition; did you mean a comparison?" },
  { name := "parse-int-radix", severity := .medium
    pattern := sequence [
      call (startingWord "parseInt"), blanks, many1 (noneOf ",()"), char ')']
    message := "parseInt called without a radix" },
  { name := "empty-block", severity := .medium
    pattern := sequence [
      .wordBoundary,
      firstOf [
        sequence [literal "catch", blanks, perhaps parenthesized],
        sequence [literal "if", blanks, parenthesized],
        literal "else"],
      blanks, char '{', blanks, char '}']
    message := "Empty block swallows control flow" }]

def securityProbes : List Probe := [
  { name := "eval", severity := .critical, pattern := call (startingWord "eval")
    message := "eval() executes arbitrary code" },
  { name := "inner-html", severity := .high
    pattern := sequence [literal ".innerHTML", blanks, char '=', .one (noneOf "=")]
    message := "Assigning innerHTML can inject markup" },
  { name := "dynamic-require", severity := .high
    pattern := sequence [
      .wordBoundary, call (anyWord ["require", "import"]), blanks,
      .one fun c => noneOf "'\"`)" c && !isBlank c]
    message := "Module path is not a literal" },
  { name := "console-log", severity := .low, pattern := call (startingWord "console.log")
    message := "Debug logging left in the change" },
  { name := "debugger", severity := .medium, pattern := bounded (literal "debugger")
    message := "debugger statement left in the change" }]

def qualityProbes : List Probe := [
  { name := "var", severity := .low
    pattern := sequence [startingWord "var", someBlanks, .one isWord]
    message := "Use let or const instead of var" },
  { name := "todo", severity := .low, pattern := bounded (anyWord ["TODO", "FIXME"])
    message := "Unresolved TODO/FIXME marker" },
  { name := "promise-chain", severity := .low, pattern := call (literal ".then")
    message := "Promise chain; async/await reads more clearly" }]

/-- The probes of each category, in the order of reports. -/
def sets : List (ProbeCategory × List Probe) :=
  [(.bug, bugProbes), (.security, securityProbes), (.quality, qualityProbes)]

end Probe
end RepoAudit
