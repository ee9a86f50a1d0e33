import RepoAudit.Decimal.Unsigned
import RepoAudit.Pattern.Classes

/-!
# Patches

The lines that a unified diff adds, with their numbers in the new file.  Before the first hunk
`+++` and `---` open file headers; inside a hunk they are an added and a removed line.
-/

namespace RepoAudit.Patch

open Pattern

/-- The header of a hunk; the group is the number of its first line in the new file. -/
def hunkHeader : Pattern :=
  let count := perhaps (.seq (char ',') (many1 isDecimal))
  sequence [
    .textStart, literal "@@ -", many1 isDecimal, count, literal " +", .group 1 (many1 isDecimal),
    count, literal " @@"]

/-- Line numbers are 64 bits wide. -/
def lineLimit : Nat := UInt64.size

/-- The first new line that a hunk header announces. -/
def hunkStart? (line : Text) : Option Nat :=
  (hunkHeader.atStart? line).map fun m =>
    match (Decimal.readUnsigned lineLimit ((m.group? 1).getD [])) with
    | .ok n => n
    | .error _ => 1

structure Position where
  /-- The number of the next line of the new file. -/
  next : Nat := 1
  inHunk : Bool := false

def Position.advance (p : Position) : Position :=
  { p with next := (p.next + 1) % lineLimit }

def isFileHeader (line : Text) : Bool :=
  "+++".toList.isPrefixOf line || "---".toList.isPrefixOf line

/-- The added lines among the lines from a position on. -/
def addedFrom : Position → List Text → List (Nat × Text)
  | _, [] => []
  | p, line :: lines =>
      match hunkStart? line with
      | some n => addedFrom ⟨n, true⟩ lines
      | none =>
          if !p.inHunk && isFileHeader line then addedFrom p lines
          else
            match line with
            | '\\' :: _ => addedFrom p lines
            | '+' :: text => (p.next, text) :: addedFrom p.advance lines
            | '-' :: _ => addedFrom p lines
            | _ => addedFrom p.advance lines

def addedLines (patch : Text) : List (Nat × Text) :=
  addedFrom {} patch.lines

end RepoAudit.Patch
