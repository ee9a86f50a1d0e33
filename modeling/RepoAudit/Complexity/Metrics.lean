import RepoAudit.Decimal.Round
import RepoAudit.Language
import RepoAudit.Pattern.Classes
import RepoAudit.Tally

/-!
# Complexity metrics

All metrics are lexical.  Decision points are whole keywords and operators, functions are found by
their headers, nesting is the depth of open brackets, and duplication is the share of longer lines
whose text stands in the file more than once.
-/

namespace RepoAudit.Complexity

open Pattern

/-! ## Decision points -/

def keywords (words : List String) : Pattern :=
  bounded (anyWord words)

def decisionPattern : Language → Pattern
  | .python => keywords ["if", "elif", "for", "while", "except", "and", "or"]
  | .go => firstOf [keywords ["if", "for", "case", "select"], literal "&&", literal "||"]
  | .ruby =>
      firstOf [keywords ["if", "elsif", "unless", "while", "until", "when", "rescue"],
        literal "&&", literal "||"]
  | .rust => firstOf [keywords ["if", "for", "while", "loop", "match"], literal "&&", literal "||"]
  | _ =>
      firstOf [keywords ["if", "for", "while", "case", "catch"], literal "&&", literal "||",
        sequence [.one isBlank, char '?', .one isBlank]]

/-- One path through the file, and one more for each decision point. -/
def cyclomatic (content : Text) (language : Language) : Nat :=
  1 + (decisionPattern language).count content

/-! ## Functions -/

def arrowOrFunction : Pattern :=
  firstOf [
    sequence [bounded (literal "function"), many (noneOf "(\n"), char '('],
    sequence [char ')', blanks, literal "=>"]]

def indentedDef : Pattern :=
  sequence [.lineStart, indent, literal "def", someBlanks, many1 isWord]

def goFunction : Pattern :=
  sequence [.lineStart, literal "func", .one isBlank]

def rustFunction : Pattern :=
  sequence [startingWord "fn", someBlanks, many1 isWord]

def kotlinFunction : Pattern :=
  sequence [startingWord "fun", someBlanks, call (many1 (wordOr ".<>"))]

def swiftFunction : Pattern :=
  sequence [startingWord "func", someBlanks, many1 isWord]

def phpFunction : Pattern :=
  sequence [startingWord "function", someBlanks, perhaps (char '&'), call (many1 isWord)]

/-- A method with its return type in front, such as `public void run() {`.  The first group is the
type, the second the name. -/
def typedFunction : Pattern :=
  sequence [
    .lineStart, indent,
    .star .lazily (.seq (many1 (wordOr ":<>[],*&")) gap),
    .group 1 (many1 (wordOr ":<>[]*&")), gap,
    perhaps (.one (anyOf "*&")), .group 2 (many1 isWord), indent,
    char '(', many (noneOf ";\x7b\x7d"), char ')', indent,
    perhaps (.seq (literal "const") indent),
    perhaps (sequence [literal "throws", gap, many1 (wordOr "., \t")]),
    blanks, char '{']

/-- Words that look like the type or the name of a function and are neither. -/
def controlWords : List String :=
  ["if", "else", "for", "while", "switch", "catch", "return", "new", "do", "using", "lock"]

def isTypedHeader (m : Match) : Bool :=
  [1, 2].all fun index =>
    !controlWords.contains (String.ofList ((m.group? index).getD []))

def functionHeaders (content : Text) (language : Language) : List Match :=
  match language with
  | .javaScript | .typeScript | .vue => arrowOrFunction.findAll content
  | .python | .ruby | .scala => indentedDef.findAll content
  | .go => goFunction.findAll content
  | .rust => rustFunction.findAll content
  | .kotlin => kotlinFunction.findAll content
  | .swift => swiftFunction.findAll content
  | .php => phpFunction.findAll content
  | _ => (typedFunction.findAll content).filter isTypedHeader

/-- The places where functions begin, in order. -/
def functionStarts (content : Text) (language : Language) : List Cursor :=
  (functionHeaders content language).map Match.start

/-- The texts from each place to the next one, and from the last one to the end. -/
def segments : List Cursor → List Text
  | [] => []
  | [last] => [last.rest]
  | start :: next :: more => start.upTo next :: segments (next :: more)

/-- The mean number of lines from one function to the next; what stands before the first does not
count. -/
def averageFunctionLength (content : Text) (language : Language) : Float :=
  let starts := functionStarts content language
  if starts.isEmpty then 0
  else
    let total := sumOf ((segments starts).map fun s => s.lines.length)
    round1 (total.toFloat / starts.length.toFloat)

/-! ## Nesting -/

/-- The open brackets after one more character, and the most that were ever open. -/
def bracketStep (state : Nat × Nat) (c : Char) : Nat × Nat :=
  let (depth, deepest) := state
  if c == '{' || c == '[' || c == '(' then (depth + 1, max deepest (depth + 1))
  else if c == '}' || c == ']' || c == ')' then (depth - 1, deepest)
  else (depth, deepest)

/-- Unmatched closing brackets do not count. -/
def nestingDepth (content : Text) : Nat :=
  (content.foldl bracketStep (0, 0)).2

/-! ## Duplication -/

/-- A line with single blanks between its words. -/
def collapsed (line : Text) : Text :=
  Text.join [' '] line.words

/-- The collapsed lines of more than ten bytes. -/
def comparedLines (content : Text) : List Text :=
  (content.lines.map collapsed).filter fun line => 10 < line.byteSize

/-- One more line in the group of the lines with its text. -/
def addToGroup : List (Text × Nat) → Text → List (Text × Nat)
  | [], line => [(line, 1)]
  | (text, size) :: groups, line =>
      if text == line then (text, size + 1) :: groups
      else (text, size) :: addToGroup groups line

/-- The texts of the lines, each with the number of lines that have it. -/
def lineGroups (lines : List Text) : List (Text × Nat) :=
  lines.foldl addToGroup []

/-- The lines in groups of more than one. -/
def duplicatedCount (lines : List Text) : Nat :=
  sumOf (((lineGroups lines).map Prod.snd).filter (2 ≤ ·))

def duplication (content : Text) : Float :=
  let lines := comparedLines content
  if lines.isEmpty then 0
  else round1 ((duplicatedCount lines).toFloat / lines.length.toFloat * 100)

structure Metrics where
  cyclomatic : Nat
  linesOfCode : Nat
  functionLength : Float
  nestingDepth : Nat
  duplication : Float

def Metrics.measure (content : Text) (language : Language) : Metrics where
  cyclomatic := Complexity.cyclomatic content language
  linesOfCode := content.lines.countP (!·.isBlankLine)
  functionLength := averageFunctionLength content language
  nestingDepth := Complexity.nestingDepth content
  duplication := Complexity.duplication content

end RepoAudit.Complexity
