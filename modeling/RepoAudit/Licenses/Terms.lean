import RepoAudit.Json.Basic
import RepoAudit.Licenses.Identifier

/-!
# License terms

What a license asks of those who use the work, as far as a table of known licenses tells.  Terms of
several parts are as demanding as the parts together.
-/

namespace RepoAudit

inductive Risk where
  | low
  | medium
  | high
  deriving DecidableEq

namespace Risk

def name : Risk → String
  | low => "low"
  | medium => "medium"
  | high => "high"

def rank : Risk → Nat
  | low => 0
  | medium => 1
  | high => 2

def max (a b : Risk) : Risk :=
  if a.rank ≤ b.rank then b else a

end Risk

structure LicenseTerms where
  /-- The identifier of a known license, or the text that was found. -/
  title : String
  compatible : Bool
  copyleft : Bool
  risk : Risk
  description : String
  recognized : Bool

/-- A known license, under its canonical name. -/
structure LicenseEntry where
  id : String
  compatible : Bool
  copyleft : Bool
  risk : Risk
  description : String

namespace LicenseEntry

def permissive (id : LicenseId) (description : String) : LicenseEntry :=
  { id := id.name, compatible := true, copyleft := false, risk := .low, description }

def weak (id : LicenseId) (description : String) : LicenseEntry :=
  { id := id.name, compatible := true, copyleft := true, risk := .medium, description }

def strong (id : LicenseId) (description : String) : LicenseEntry :=
  { id := id.name, compatible := false, copyleft := true, risk := .high, description }

def terms (e : LicenseEntry) : LicenseTerms :=
  { title := e.id, compatible := e.compatible, copyleft := e.copyleft, risk := e.risk
    description := e.description, recognized := true }

end LicenseEntry

namespace LicenseTerms

/-- The terms of a license that is not in the table. -/
def unknown (raw : Text) : LicenseTerms :=
  let title := raw.trim
  { title := if title.isEmpty then "Unknown" else String.ofList title
    compatible := false, copyleft := false, risk := .medium
    description := "Unrecognized license; verify its terms manually", recognized := false }

/-- The terms where nothing grants a license. -/
def none : LicenseTerms :=
  { title := "None", compatible := false, copyleft := false, risk := .high
    description := "No license file; all rights reserved by default", recognized := false }

/-- Copyleft if a part is, compatible and recognized only if all are, as risky as the riskiest. -/
def combine : List LicenseTerms → LicenseTerms
  | [] => unknown []
  | [terms] => terms
  | first :: rest =>
      let parts := first :: rest
      { title := " OR ".intercalate (parts.map title)
        compatible := parts.all compatible
        copyleft := parts.any copyleft
        risk := (rest.map risk).foldl Risk.max first.risk
        description := "; ".intercalate (parts.map description)
        recognized := parts.all recognized }

def isNone (t : LicenseTerms) : Bool :=
  t.title == "None" && !t.recognized

def isUnknown (t : LicenseTerms) : Bool :=
  !t.recognized && !t.isNone

def isPermissive (t : LicenseTerms) : Bool :=
  t.recognized && t.compatible && !t.copyleft

def toJson (t : LicenseTerms) : Json :=
  .obj [
    ("type", .str t.title), ("compatible", .bool t.compatible),
    ("gplOrCopyleft", .bool t.copyleft), ("risk", .str t.risk.name),
    ("description", .str t.description), ("recognized", .bool t.recognized)]

end LicenseTerms

/-- The licenses whose terms are known. -/
abbrev LicenseTable := List LicenseEntry

namespace LicenseTable

def builtIn : LicenseTable := [
  .permissive .mit "Permissive; requires keeping the copyright notice",
  .permissive .apache2 "Permissive with an explicit patent grant",
  .permissive .bsd2 "Permissive; requires keeping the copyright notice",
  .permissive .bsd3 "Permissive; forbids endorsement using contributor names",
  .permissive .isc "Permissive; functionally equivalent to MIT",
  .weak .lgpl21 "Weak copyleft; modifications to the library must be shared",
  .weak .lgpl3 "Weak copyleft; modifications to the library must be shared",
  .weak .mpl2 "File-level copyleft; modified files must stay MPL",
  .strong .gpl2 "Strong copyleft; derivative works must be GPL-2.0",
  .strong .gpl3 "Strong copyleft; derivative works must be GPL-3.0",
  .strong .agpl3 "Network copyleft; hosted derivatives must publish source"]

def get? (table : LicenseTable) (id : LicenseId) : Option LicenseEntry :=
  table.find? (·.id == id.name)

/-- The known licenses of the given names, in their order. -/
def ofNames (names : List String) : LicenseTable :=
  names.filterMap fun name => (LicenseId.ofName? name).bind builtIn.get?

/-- The terms of one identifier, in any spelling. -/
def terms (table : LicenseTable) (raw : Text) : LicenseTerms :=
  match (LicenseId.ofSpelling? raw).bind table.get? with
  | some entry => entry.terms
  | none => .unknown raw

/-- The terms of a list of alternatives, each of which may be an expression. -/
def termsOfAll (table : LicenseTable) (raws : List Text) : LicenseTerms :=
  .combine ((raws.flatMap splitExpression).map table.terms)

end LicenseTable
end RepoAudit
