import RepoAudit.Config.Settings
import RepoAudit.Toml.Reader

/-!
# Reading settings

Settings are read from the text of a configuration file, checked, and searched for in a directory
and the ones above it.  Sections and entries nobody knows are passed over.
-/

namespace RepoAudit.Config

def fileName : String := ".reposcope.toml"

/-- How far up the search for a file goes, the first directory included. -/
def searchDepth : Nat := 10

inductive Error where
  /-- The text is not TOML, or a setting has the wrong type. -/
  | malformed
  | badPattern (pattern : String) (error : Glob.Error)

def Error.message : Error → String
  | .malformed => "Failed to parse " ++ fileName
  | .badPattern pattern error =>
      "Invalid ignore pattern '" ++ pattern ++ "': " ++ error.message

/-! ## Typed entries -/

def text? : Toml → Option String
  | .text s => some s
  | _ => none

def texts? : Toml → Option (List String)
  | .array items => items.mapM text?
  | _ => none

def bool? : Toml → Option Bool
  | .bool b => some b
  | _ => none

/-- A whole number between the bounds. -/
def int? (low high : Int) : Toml → Option Int
  | .int n => if low ≤ n ∧ n ≤ high then some n else none
  | _ => none

def nat? (high : Nat) (t : Toml) : Option Nat :=
  (int? 0 high t).map Int.toNat

def natToFloat (n : Nat) : Float :=
  n.toUInt64.toFloat

/-- The whole numbers of 64 bits begin here. -/
def smallestInt : Int := Int64.minValue.toInt

/-- The whole numbers of 64 bits end here. -/
def largestInt : Int := Int64.maxValue.toInt

/-- A number; a whole one must fit into 64 bits. -/
def float? : Toml → Option Float
  | .float f => some f
  | .int n =>
      if n < smallestInt ∨ UInt64.size ≤ n then none
      else some (if n < 0 then -natToFloat n.natAbs else natToFloat n.toNat)
  | _ => none

/-- An entry of a section: its name and how its value changes the section. -/
structure Entry (α : Type) where
  name : String
  required : Bool := false
  read : Toml → α → Option α

def entry (name : String) (read : Toml → Option β) (put : β → α → α) : Entry α :=
  { name, read := fun t a => (read t).map (put · a) }

/-- Reads the entries in their order from the items of a list; what is left over does not count. -/
def readPositions : List (Entry α) → List Toml → α → Option α
  | [], _, a => some a
  | e :: es, [], a => if e.required then none else readPositions es [] a
  | e :: es, t :: ts, a => (e.read t a).bind (readPositions es ts)

/-- A section from its table, or from the list of its values. -/
def readSection (known : List (Entry α)) (start : α) : Toml → Option α
  | .table _ entries =>
      entries.foldlM (fun a (name, t) =>
        match known.find? (·.name == name) with
        | some e => e.read t a
        | none => some a) start
  | .array items => readPositions known items start
  | .tables items => readPositions known (items.map (.table .header)) start
  | _ => none

def walkEntries : List (Entry WalkSettings) := [
  entry "exclude_dirs" texts? fun v w => { w with excludeDirs := v },
  entry "ignore_patterns" texts? fun v w => { w with ignorePatterns := v },
  entry "follow_symlinks" bool? fun v w => { w with followSymlinks := v }]

def thresholdEntries : List (Entry Thresholds) := [
  entry "cyclomatic" (nat? (UInt32.size - 1)) fun v t => { t with cyclomatic := v },
  entry "function_length" float? fun v t => { t with functionLength := v },
  entry "nesting_depth" (nat? (UInt32.size - 1)) fun v t => { t with nestingDepth := v },
  entry "duplication" float? fun v t => { t with duplication := v }]

def issueEntries : List (Entry IssueSettings) := [
  entry "stale_days" (int? smallestInt largestInt) fun v s => { s with staleDays := v }]

def contributorEntries : List (Entry ContributorSettings) := [
  entry "leaderboard_size" (nat? (UInt64.size - 1)) fun v s => { s with leaderboardSize := v }]

def outputEntries : List (Entry OutputSettings) := [
  { entry "default_format" text? fun v s => { s with defaultFormat := some v } with
    required := true }]

def sectionEntries : List (Entry Settings) := [
  entry "walker" (readSection walkEntries {}) fun v s => { s with walker := some v },
  entry "complexity" (readSection thresholdEntries {}) fun v s => { s with complexity := some v },
  entry "issues" (readSection issueEntries {}) fun v s => { s with issues := some v },
  entry "contributors" (readSection contributorEntries {}) fun v s =>
    { s with contributors := some v },
  entry "output" (readSection outputEntries {}) fun v s => { s with output := some v }]

/-! ## Files -/

/-- The first pattern that is malformed. -/
def badPattern? (patterns : List String) : Option Error :=
  patterns.findSome? fun p =>
    match Glob.ofText p with
    | .ok _ => none
    | .error e => some (.badPattern p e)

/-- The settings that a text makes, with every pattern checked. -/
def parse (t : Text) : Except Error Settings :=
  match (Toml.ofText t).bind fun entries =>
      readSection sectionEntries {} (.table .header entries) with
  | none => .error .malformed
  | some settings =>
      match badPattern? settings.walk.ignorePatterns with
      | some e => .error e
      | none => .ok settings

/-- The settings in the file at a path, when there is such a file and it is well formed. -/
def tryRead (v : Volume) (path : String) : Option Settings :=
  match v.readText path with
  | .error _ => none
  | .ok s => (parse s.toList).toOption

/-- The path under which a directory is really found, or the given one. -/
def canonicalPath (v : Volume) (path : String) : String :=
  match v.resolve path with
  | .ok (location, _) => v.pathTo location
  | .error _ => path

/-- The settings of the nearest well formed file in the directory or above it, or the defaults. -/
def discover (v : Volume) (start : String) : Settings :=
  let directories := Path.ancestors (canonicalPath v start) searchDepth
  (directories.findSome? fun d => tryRead v (Path.join d fileName)).getD {}

end RepoAudit.Config
