import RepoAudit.Proofs.Complexity.Duplication
import RepoAudit.Proofs.Text.Offsets
import Mathlib

/-!
# Short lines

Lines are compared when they have more than ten bytes.  A line of at most ten characters has no more
bytes than that as long as its characters are narrow, and then it can be added or taken out without
any effect.  Of wide characters four are too many already, and the line is compared as if it were
long.
-/

namespace RepoAudit.Complexity

/-- The line has more than ten characters once its blanks are collapsed. -/
def isLong (line : Text) : Bool :=
  10 < (collapsed line).length

theorem keptLines_filter {long : Text → Bool} {lines : List Text}
    (h : ∀ line ∈ lines, long line = false → (collapsed line).byteSize ≤ 10) :
    keptLines (lines.filter long) = keptLines lines := by
  rw [keptLines, keptLines, List.filter_map, List.filter_map, List.filter_filter]
  congr 1
  apply List.filter_congr
  intro line hline
  have hshort := h line hline
  rw [Function.comp_apply]
  cases hlong : long line with
  | true => rw [Bool.and_true]
  | false => simpa using hshort hlong

/-! ## Files of one line -/

/-- A text with the given lines, each ended by a carriage return and a line feed. -/
def ofEndedLines (lines : List Text) : Text :=
  Text.unlines (lines.map (· ++ ['\r']))

theorem lines_ofEndedLines {lines : List Text} (h : ∀ line ∈ lines, '\n' ∉ line) :
    (ofEndedLines lines).lines = lines := by
  have hfeed : ∀ piece ∈ lines.map (· ++ ['\r']), '\n' ∉ piece := by
    rw [List.forall_mem_map]
    intro line hline hmem
    rcases List.mem_append.mp hmem with hmem | hmem
    · exact h line hline hmem
    · exact absurd hmem (by decide)
  have hlines := Text.lines_unlines_append hfeed []
  rw [List.append_nil, Text.lines_nil, List.append_nil, List.map_map] at hlines
  rw [ofEndedLines, hlines]
  have hdrop : ∀ line : Text, (Text.dropReturn ∘ (· ++ ['\r'])) line = line := by
    intro line
    rw [Function.comp_apply, Text.dropReturn_append line (List.cons_ne_nil _ _)]
    exact List.append_nil line
  exact (List.map_congr_left fun line _ => hdrop line).trans (List.map_id lines)

theorem comparedLines_replicate {line : Text} (hline : '\n' ∉ line)
    (hbytes : 10 < (collapsed line).byteSize) (n : Nat) :
    comparedLines (ofEndedLines (List.replicate n line)) = List.replicate n (collapsed line) := by
  have hlines : ∀ other ∈ List.replicate n line, '\n' ∉ other := by
    intro other hother
    rwa [List.eq_of_mem_replicate hother]
  rw [comparedLines, lines_ofEndedLines hlines, List.map_replicate, List.filter_replicate,
    if_pos (by simpa using hbytes)]

/-- A line of more than ten bytes and its copy are all that is duplicated. -/
theorem duplication_replicate {line : Text} (hline : '\n' ∉ line)
    (hbytes : 10 < (collapsed line).byteSize) :
    duplication (ofEndedLines [line]) ≠ duplication (ofEndedLines [line, line]) := by
  have hone : duplicatedCount [collapsed line] = 0 := rfl
  have htwo : duplicatedCount [collapsed line, collapsed line] = 2 := by
    simp [duplicatedCount_eq]
  have hkept := comparedLines_replicate hline hbytes
  rw [duplication_eq, duplication_eq]
  rw [show comparedLines (ofEndedLines [line]) = [collapsed line] from hkept 1,
    show comparedLines (ofEndedLines [line, line]) = [collapsed line, collapsed line] from hkept 2,
    hone, htwo]
  simp only [List.length_cons, List.length_nil]
  decide +kernel

/-- Lines may come and go without any effect exactly when none of them has more than ten bytes. -/
theorem duplication_ignores_iff (long : Text → Bool) :
    (∀ t t' : Text, t.lines.filter long = t'.lines.filter long → duplication t = duplication t') ↔
      ∀ line : Text, '\n' ∉ line → long line = false → (collapsed line).byteSize ≤ 10 := by
  constructor
  · intro h line hline hshort
    by_contra hbytes
    apply duplication_replicate hline (not_le.mp hbytes)
    apply h
    rw [lines_ofEndedLines (by simpa using hline), lines_ofEndedLines (by simpa using hline)]
    simp [hshort]
  · intro h t t' hsame
    have hkept : ∀ t : Text, keptLines (t.lines.filter long) = keptLines t.lines := fun t =>
      keptLines_filter fun line hline => h line (Text.not_mem_of_mem_lines hline)
    apply duplication_of_perm
    rw [← hkept t, ← hkept t', hsame]

/-- Where the lines of at most ten characters have no more bytes than that, only the others count. -/
theorem duplication_eq_of_long_lines {t t' : Text}
    (ht : ∀ line ∈ t.lines, isLong line = false → (collapsed line).byteSize ≤ 10)
    (ht' : ∀ line ∈ t'.lines, isLong line = false → (collapsed line).byteSize ≤ 10)
    (hsame : t.lines.filter isLong = t'.lines.filter isLong) : duplication t = duplication t' := by
  apply duplication_of_perm
  rw [← keptLines_filter ht, ← keptLines_filter ht', hsame]

/-- Two equal lines of five wide characters, and nothing else. -/
def wideLines : Text :=
  "日本語日本\n日本語日本\n".toList

/-- All lines are short, and yet the file is duplicated as a whole. -/
theorem wideLines_duplicated :
    wideLines.lines.filter isLong = (Text.lines []).filter isLong ∧
      duplication wideLines ≠ duplication [] := by
  constructor
  · decide +kernel
  · decide +kernel

end RepoAudit.Complexity
