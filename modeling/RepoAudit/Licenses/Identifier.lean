import RepoAudit.Text.Basic

/-!
# License identifiers

The licenses that are known by name, the many spellings of each, and expressions that combine them.
A spelling is reduced to its letters and digits, without the words that say nothing about which
license it is, before it is looked up.
-/

namespace RepoAudit

inductive LicenseId where
  | mit
  | apache2
  | bsd2
  | bsd3
  | isc
  | lgpl21
  | lgpl3
  | mpl2
  | gpl2
  | gpl3
  | agpl3
  deriving DecidableEq

namespace LicenseId

def all : List LicenseId :=
  [mit, apache2, bsd2, bsd3, isc, lgpl21, lgpl3, mpl2, gpl2, gpl3, agpl3]

def name : LicenseId → String
  | mit => "MIT"
  | apache2 => "Apache-2.0"
  | bsd2 => "BSD-2-Clause"
  | bsd3 => "BSD-3-Clause"
  | isc => "ISC"
  | lgpl21 => "LGPL-2.1"
  | lgpl3 => "LGPL-3.0"
  | mpl2 => "MPL-2.0"
  | gpl2 => "GPL-2.0"
  | gpl3 => "GPL-3.0"
  | agpl3 => "AGPL-3.0"

def ofName? (name : String) : Option LicenseId :=
  all.find? (·.name == name)

/-- What is taken out of a spelling, one after the other. -/
def fillers : List String :=
  ["-OR-LATER", "-ONLY", "+", "LICENSE", "LICENCE", "VERSION", "GNU"]

/-- A spelling in capital letters and digits, without the fillers. -/
def key (raw : Text) : Text :=
  (fillers.foldl (fun t filler => t.without filler) raw.upper).filter Char.isAlphanum

def keys : LicenseId → List String
  | mit => ["MIT", "EXPAT"]
  | apache2 => ["APACHE", "APACHE2", "APACHE20", "ASL20"]
  | bsd2 => ["BSD2", "BSD2CLAUSE", "SIMPLIFIEDBSD", "FREEBSD"]
  | bsd3 => ["BSD", "BSD3", "BSD3CLAUSE", "NEWBSD", "MODIFIEDBSD"]
  | isc => ["ISC"]
  | gpl2 => ["GPL2", "GPL20", "GPLV2", "GPLV20"]
  | gpl3 => ["GPL", "GPL3", "GPL30", "GPLV3", "GPLV30"]
  | agpl3 => ["AGPL", "AGPL3", "AGPL30", "AGPLV3"]
  | lgpl21 => ["LGPL2", "LGPL21", "LGPLV21"]
  | lgpl3 => ["LGPL", "LGPL3", "LGPL30", "LGPLV3"]
  | mpl2 => ["MPL", "MPL2", "MPL20"]

/-- The license that a spelling means. -/
def ofSpelling? (raw : Text) : Option LicenseId :=
  let k := String.ofList (key raw)
  all.find? fun id => id.keys.contains k

end LicenseId

/-- What separates the parts of an expression, in the order in which it is cut. -/
def operatorMarks : List String :=
  [" OR ", " AND ", " or ", " and ", "/"]

/-- The parts of an expression such as `(MIT OR ISC) AND BSD`, from left to right. -/
def splitExpression (raw : Text) : List Text :=
  let spaced := (raw.replaceChar '(' [' ']).replaceChar ')' [' ']
  let joined := Text.join [' '] spaced.words
  ((operatorMarks.foldl (fun parts mark => parts.flatMap (Text.splitOn mark)) [joined]).map
    Text.trim).filter (!·.isEmpty)

end RepoAudit
