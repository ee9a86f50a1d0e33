import RepoAudit.Finding
import RepoAudit.Language
import RepoAudit.Pattern.Classes

/-!
# Performance detectors

Detectors find constructs that are slow or leak in scripts and in Python.  The body of a loop is
approximated: in languages with braces it ends at the first closing brace, in Python it is the
block of lines indented deeper than the header.
-/

namespace RepoAudit

structure SourceFile where
  content : Text
  language : Language

def SourceFile.isPython (f : SourceFile) : Bool :=
  f.language == .python

/-- A named way to look for findings in a source file. -/
structure Detector where
  name : String
  detect : SourceFile → List Finding

namespace Detector

open Pattern

/-! ## Patterns -/

def scriptLoop : Pattern :=
  firstOf [
    call (.seq .wordBoundary (anyWord ["for", "while"])),
    call (.seq (char '.') (anyWord ["forEach", "map"]))]

def pythonLoop : Pattern :=
  sequence [
    .textStart, blanks, anyWord ["for", "while"], .wordBoundary, many notLineFeed, char ':', blanks,
    .textEnd]

def pythonAsync : Pattern :=
  sequence [.textStart, blanks, literal "async", someBlanks, literal "def", .wordBoundary]

/-- The head of an asynchronous function up to the brace that opens its body. -/
def scriptAsync : Pattern :=
  let parameters := sequence [char '(', many (noneOf ")"), char ')']
  firstOf [
    sequence [literal "async", someBlanks, literal "function", .wordBoundary,
      many (noneOf "\x7b"), char '{'],
    sequence [literal "async", blanks, .alt parameters (many1 isWord), blanks, literal "=>",
      blanks, char '{'],
    sequence [literal "async", someBlanks, many1 isWord, blanks, parameters, blanks, char '{']]

def syncCall : Pattern :=
  call (.seq (many1 isWord) (literal "Sync"))

def pythonMembership : Pattern :=
  sequence [
    .textStart, blanks, literal "if", someBlanks, many1 notLineFeed, someBlanks,
    perhaps (.seq (literal "not") someBlanks), literal "in", someBlanks]

def wholeJson : Pattern :=
  let jsonCall := sequence [
    literal "JSON.", call (anyWord ["parse", "stringify"]), blanks]
  firstOf [
    sequence [jsonCall, perhaps (.seq (literal "await") someBlanks), perhaps (literal "fs."),
      anyWord ["readFileSync", "promises.readFile", "readFile"], .wordBoundary],
    sequence [jsonCall, many (wordOr "."),
      bounded (anyWord ["body", "response", "responseText", "data"])],
    sequence [literal "json.load", perhaps (char 's'), char '(', many (noneOf ")"),
      literal ".read()"]]

/-- The letter in either case; the long s is a form of the letter s. -/
def eitherCase (letter : Char) : Pattern :=
  .one fun c => c.toLower == letter || (letter == 's' && c == 'ſ')

def filteredQuery : Pattern :=
  let keyword := fun (s : String) => bounded (sequence (s.toList.map eitherCase))
  firstOf [
    call (.seq (char '.') (anyWord ["find", "findOne", "where", "filter_by"])),
    sequence [keyword "select", many (noneOf ";"), keyword "where"]]

/-! ## Bodies -/

/-- The text up to and with the first closing brace. -/
def braceBody (rest : Text) : Text :=
  let inside := rest.takeWhile (· != '}')
  inside ++ (rest.drop inside.length).take 1

/-- The text up to the brace that closes the ones opened in it, or all of it. -/
def balancedFrom : (depth : Nat) → Text → Text
  | _, [] => []
  | depth, c :: rest =>
      if c == '{' then c :: balancedFrom (depth + 1) rest
      else if c == '}' then
        if depth ≤ 1 then [c] else c :: balancedFrom (depth - 1) rest
      else c :: balancedFrom depth rest

/-- A text that begins with an opening brace, cut after the brace that closes it. -/
def balancedBody (t : Text) : Text :=
  balancedFrom 0 t

/-- The width of the blanks before a line, in bytes. -/
def indentation (line : Text) : Nat :=
  Text.byteSize (line.takeWhile isBlank)

/-- The lines that belong to a block whose header is indented by so much. -/
def blockLines (indent : Nat) (lines : List Text) : List Text :=
  lines.takeWhile fun line => line.isBlankLine || indent < indentation line

/-- The blocks after the lines that the pattern finds: the number of the header, and the lines. -/
def blocksFrom (header : Pattern) : (number : Nat) → List Text → List (Nat × List Text)
  | _, [] => []
  | number, line :: lines =>
      let more := blocksFrom header (number + 1) lines
      if header.occursIn line then (number, blockLines (indentation line) lines) :: more else more

def pythonBlocks (content : Text) (header : Pattern) : List (Nat × List Text) :=
  blocksFrom header 1 content.lines

/-! ## The detectors -/

def queryCalls : List String :=
  ["await ", "fetch(", ".find(", ".findOne(", ".findById(", ".query(", ".execute(", ".objects."]

def pythonQueryCalls : List String :=
  [".objects.", ".query(", ".execute(", "requests.", "urlopen(", "session.get("]

def searchCalls : List String :=
  [".includes(", ".indexOf(", ".find(", "for ("]

def pythonBlockingCalls : List String :=
  ["open(", "time.sleep(", "requests."]

def cacheBounds : List String :=
  ["maxsize", "max_size", "ttl", "lru", "evict", "maxage", "expire", ".delete(", ".clear("]

/-- Findings at the headers of the Python blocks that have a suspicious line. -/
def inBlocks (f : SourceFile) (header : Pattern) (suspicious : Text → Bool)
    (finding : Nat → Finding) : List Finding :=
  ((pythonBlocks f.content header).filter fun (_, lines) => lines.any suspicious).map
    fun (number, _) => finding number

/-- Findings at the matches of a pattern that are suspicious. -/
def atMatches (f : SourceFile) (p : Pattern) (suspicious : Match → Bool)
    (finding : Nat → Finding) : List Finding :=
  ((p.findAll f.content).filter suspicious).map fun m => finding m.line

def nPlusOneQuery : Detector where
  name := "n-plus-one-query"
  detect f :=
    let finding := fun line =>
      { detector := "n-plus-one-query", severity := .high, line := some line
        message := "Query or request issued inside a loop" }
    if f.isPython then inBlocks f pythonLoop (·.containsAny pythonQueryCalls) finding
    else
      atMatches f scriptLoop (fun m => (braceBody m.stop.rest).containsAny queryCalls) finding

def quadraticLoop : Detector where
  name := "quadratic-loop"
  detect f :=
    let finding := fun line =>
      { detector := "quadratic-loop", severity := .medium, line := some line
        message := "Linear search inside a loop gives O(n^2) behaviour" }
    if f.isPython then inBlocks f pythonLoop pythonMembership.occursIn finding
    else
      atMatches f scriptLoop (fun m => (braceBody m.stop.rest).containsAny searchCalls) finding

def syncIoInAsync : Detector where
  name := "sync-io-in-async"
  detect f :=
    let finding := fun line =>
      { detector := "sync-io-in-async", severity := .high, line := some line
        message := "Blocking I/O inside an async function" }
    if f.isPython then inBlocks f pythonAsync (·.containsAny pythonBlockingCalls) finding
    else
      atMatches f scriptAsync (fun m => syncCall.occursIn (balancedBody ('{' :: m.stop.rest)))
        finding

/-- Something acquired, the words that release it, and what to say when none of them occurs. -/
structure LeakPair where
  acquire : Pattern
  releases : List String
  message : String

def leakPairs : List LeakPair := [
  { acquire := call (startingWord "addEventListener"), releases := ["removeEventListener"]
    message := "addEventListener without removeEventListener" },
  { acquire := call (startingWord "setInterval"), releases := ["clearInterval"]
    message := "setInterval without clearInterval" },
  { acquire := call (literal ".on"), releases := [".off(", "removeListener"]
    message := "event listener registered with .on() is never removed" },
  { acquire := call (startingWord "subscribe"), releases := ["unsubscribe"]
    message := "subscription is never unsubscribed" },
  { acquire := sequence [startingWord "new", someBlanks, call (literal "WebSocket")]
    releases := [".close("]
    message := "WebSocket is never closed" }]

def memoryLeak : Detector where
  name := "memory-leak"
  detect f :=
    (leakPairs.filter fun pair => !f.content.containsAny pair.releases).flatMap fun pair =>
      atMatches f pair.acquire (fun _ => true) fun line =>
        { detector := "memory-leak", severity := .medium, line := some line
          message := pair.message }

def unboundedCache : Detector where
  name := "unbounded-cache"
  detect f :=
    let lower := f.content.lower
    match (literal "cache").first? lower with
    | some m =>
        if lower.containsAny cacheBounds then []
        else
          [{ detector := "unbounded-cache", severity := .medium, line := some m.line
             message := "Cache without a size limit or eviction policy" }]
    | none => []

def largeJson : Detector where
  name := "large-json"
  detect f :=
    atMatches f wholeJson (fun _ => true) fun line =>
      { detector := "large-json", severity := .low, line := some line
        message := "Whole payload (de)serialized in one call" }

def missingIndex : Detector where
  name := "missing-index"
  detect f :=
    ((filteredQuery.first? f.content).map fun m =>
      { detector := "missing-index", severity := .low, line := some m.line
        message := "Filtered queries; confirm the filtered columns are indexed" : Finding }).toList

/-- The detectors in the order of reports. -/
def builtIn : List Detector :=
  [nPlusOneQuery, quadraticLoop, syncIoInAsync, memoryLeak, unboundedCache, largeJson, missingIndex]

/-- A finding for each line that contains the needle. -/
def lineSearch (name needle : String) (severity : Level) (located : Bool) : Detector where
  name
  detect f :=
    (f.content.lines.zipIdx 1).filterMap fun (line, number) =>
      if line.contains needle.toList then
        some { detector := name, severity, line := if located then some number else none
               message := "found " ++ needle }
      else none

end Detector
end RepoAudit
