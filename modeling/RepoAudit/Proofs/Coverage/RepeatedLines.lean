import RepoAudit.Proofs.Coverage.Sections
import Mathlib.Data.Finset.Card

/-!
# Lines that are reported more than once

Totals count line records, not lines: a line on which two sections report, one for each test, is
found twice, and hit twice when both of them hit it.  So the totals of a file are those of its lines
exactly where no line has two records.
-/

namespace RepoAudit.Coverage

/-- The lines on which some record reports. -/
def foundLines (lines : List (Nat × Nat)) : Finset Nat :=
  (lines.map Prod.fst).toFinset

/-- The lines with a positive count in some record. -/
def hitLines (lines : List (Nat × Nat)) : Finset Nat :=
  foundLines (lines.filter fun line => 0 < line.2)

/-- No line has two records. -/
def Unrepeated (lines : List (Nat × Nat)) : Prop :=
  lines.Pairwise fun a b => a.1 ≠ b.1

theorem card_foundLines_le (lines : List (Nat × Nat)) : (foundLines lines).card ≤ lines.length := by
  unfold foundLines
  rw [← List.length_map Prod.fst]
  exact List.toFinset_card_le _

theorem card_foundLines_eq_iff (lines : List (Nat × Nat)) :
    lines.length = (foundLines lines).card ↔ Unrepeated lines := by
  have hnodup : Unrepeated lines ↔ (lines.map Prod.fst).Nodup := List.pairwise_map.symm
  unfold foundLines
  rw [hnodup, ← List.length_map Prod.fst, eq_comm]
  exact Multiset.toFinset_card_eq_card_iff_nodup

theorem hit_ofLines (lines : List (Nat × Nat)) :
    (Tally.ofLines lines).hit = (lines.filter fun line => 0 < line.2).length :=
  List.countP_eq_length_filter

/-- The totals of a file are never below the numbers of its found and hit lines, and equal to them
exactly when no line is found, or hit, in two records. -/
theorem totals_eq_line_counts_iff {records : List Record} {file : List String}
    (hfile : file ∈ reportedFiles records) :
    ∃ t, (collect records).lookup file = some t ∧
      (foundLines (linesIn (· == file) records)).card ≤ t.found ∧
      (hitLines (linesIn (· == file) records)).card ≤ t.hit ∧
      (t.found = (foundLines (linesIn (· == file) records)).card ↔
        Unrepeated (linesIn (· == file) records)) ∧
      (t.hit = (hitLines (linesIn (· == file) records)).card ↔
        Unrepeated ((linesIn (· == file) records).filter fun line => 0 < line.2)) := by
  have hstored : (collect records).lookup file =
      some (.ofLines (linesIn (· == file) records)) := by
    rw [lookup_collect, tally?, if_pos hfile]
  refine ⟨_, hstored, card_foundLines_le _, ?_, card_foundLines_eq_iff _, ?_⟩
  · rw [hit_ofLines]
    exact card_foundLines_le _
  · rw [hit_ofLines]
    exact card_foundLines_eq_iff _

/-- Two sections about one file, the second of which reaches one more line. -/
def twoTests : List Record :=
  [.source "a.js", .line 1 1, .line 2 0, .sectionEnd,
    .source "a.js", .line 1 3, .line 2 1, .sectionEnd]

theorem twoTests_totals_ne :
    ["a.js"] ∈ reportedFiles twoTests ∧
      ∃ t, (collect twoTests).lookup ["a.js"] = some t ∧ t.found ≠ 2 ∧ t.hit ≠ 2 := by
  have hfile : ["a.js"] ∈ reportedFiles twoTests := by decide +kernel
  obtain ⟨t, hstored, -, -, hfound, hhit⟩ := totals_eq_line_counts_iff hfile
  have hlines : linesIn (· == ["a.js"]) twoTests = [(1, 1), (2, 0), (1, 3), (2, 1)] := by
    decide +kernel
  rw [hlines] at hfound hhit
  refine ⟨hfile, t, hstored, fun h => ?_, fun h => ?_⟩
  · have hunrepeated := hfound.mp (h.trans (by decide))
    revert hunrepeated
    unfold Unrepeated
    decide
  · have hunrepeated := hhit.mp (h.trans (by decide))
    revert hunrepeated
    unfold Unrepeated
    decide

theorem twoTests_counted_twice :
    (collect twoTests).lookup ["a.js"] = some ⟨4, 3⟩ ∧
      (foundLines (linesIn (· == ["a.js"]) twoTests)).card = 2 ∧
      (hitLines (linesIn (· == ["a.js"]) twoTests)).card = 2 := by
  refine ⟨?_, ?_, ?_⟩
  · rfl
  · decide +kernel
  · decide +kernel

end RepoAudit.Coverage
