import RepoAudit.Performance.Detector
import Mathlib.Tactic

/-!
# Blocks of lines

A block of lines is found at each line that is a header, and the headers stand in the order of the
lines.
-/

namespace RepoAudit.Detector

open Pattern

variable {header : Pattern} {lines : List Text} {line : Text} {index : Nat}

/-- The lines that the pattern finds, each with its place counted from zero. -/
def headerLines (header : Pattern) (lines : List Text) : List (Text × Nat) :=
  lines.zipIdx.filter fun entry => header.occursIn entry.1

theorem mem_headerLines :
    (line, index) ∈ headerLines header lines ↔
      lines[index]? = some line ∧ header.occursIn line = true := by
  rw [headerLines, List.mem_filter, List.mk_mem_zipIdx_iff_getElem?]

theorem headerLines_cons (header : Pattern) (line : Text) (lines : List Text) :
    headerLines header (line :: lines) =
      (if header.occursIn line then [(line, 0)] else []) ++
        (headerLines header lines).map fun (line, index) => (line, index + 1) := by
  rw [headerLines, List.zipIdx_cons, List.zipIdx_succ, List.filter_cons, List.filter_map]
  cases header.occursIn line <;> rfl

theorem blocksFrom_eq (header : Pattern) (number : Nat) (lines : List Text) :
    blocksFrom header number lines =
      (headerLines header lines).map fun (line, index) =>
        (number + index, blockLines (indentation line) (lines.drop (index + 1))) := by
  induction lines generalizing number with
  | nil => rfl
  | cons line lines ih =>
      rw [blocksFrom, headerLines_cons, List.map_append, List.map_map, ih]
      have hlater : ∀ index, number + 1 + index = number + (index + 1) := by omega
      split <;> simp [Function.comp_def, hlater]

theorem pythonBlocks_eq (content : Text) (header : Pattern) :
    pythonBlocks content header =
      (headerLines header content.lines).map fun (line, index) =>
        (index + 1, blockLines (indentation line) (content.lines.drop (index + 1))) := by
  rw [pythonBlocks, blocksFrom_eq]
  simp only [Nat.add_comm]

theorem inBlocks_eq (f : SourceFile) (header : Pattern) (suspicious : Text → Bool)
    (finding : Nat → Finding) :
    inBlocks f header suspicious finding =
      ((headerLines header f.content.lines).filter fun entry =>
        (blockLines (indentation entry.1) (f.content.lines.drop (entry.2 + 1))).any suspicious).map
          fun entry => finding (entry.2 + 1) := by
  rw [inBlocks, pythonBlocks_eq, List.filter_map, List.map_map]
  rfl

theorem pairwise_headerLines (header : Pattern) (lines : List Text) :
    (headerLines header lines).Pairwise fun a b => a.2 < b.2 := by
  have hindices : (lines.zipIdx.map Prod.snd).Pairwise (· < ·) := by
    rw [List.zipIdx_map_snd]
    exact List.pairwise_lt_range'
  exact (List.pairwise_map.mp hindices).sublist List.filter_sublist

end RepoAudit.Detector
