import RepoAudit.Proofs.Pattern.Matches
import RepoAudit.Proofs.Performance.Blocks
import RepoAudit.Proofs.Text.Search
import Mathlib

/-!
# Loops in the bodies of loops

The bodies of loops are nested.  What is found in the body of an inner loop is found in the body of
an outer loop too, so a loop around a reported one is reported with it.
-/

namespace RepoAudit.Detector

open Pattern

/-! ## Loops -/

/-- A detector that looks into the bodies of loops: line by line in Python, and elsewhere at the text
up to the first closing brace. -/
structure LoopCheck where
  detector : Detector
  inLine : Text → Bool
  inBody : Text → Bool

def nPlusOneCheck : LoopCheck where
  detector := nPlusOneQuery
  inLine line := line.containsAny pythonQueryCalls
  inBody body := body.containsAny queryCalls

def quadraticCheck : LoopCheck where
  detector := quadraticLoop
  inLine line := pythonMembership.occursIn line
  inBody body := body.containsAny searchCalls

def loopChecks : List LoopCheck :=
  [nPlusOneCheck, quadraticCheck]

/-- The header of a loop: a line of a Python file, counted from zero, or a match elsewhere. -/
inductive LoopHeader where
  | line (text : Text) (index : Nat)
  | place (m : Match)

namespace LoopHeader

/-- The number of the line on which the header begins. -/
def number : LoopHeader → Nat
  | .line _ index => index + 1
  | .place m => m.line

/-- The second header lies in the body of the first one.  In Python no line from the one behind the
first header to the second header ends the block; elsewhere no closing brace stands between the end
of the first header and the end of the second. -/
inductive Encloses (f : SourceFile) : LoopHeader → LoopHeader → Prop where
  | line {outer inner : Text} {i j : Nat} (hlt : i < j)
      (hdeeper : ∀ k line, i < k → k ≤ j → f.content.lines[k]? = some line →
        line.isBlankLine = true ∨ indentation outer < indentation line) :
      Encloses f (.line outer i) (.line inner j)
  | place {m n : Match} {between : Text} (hreads : m.stop.Reads between n.start)
      (hbetween : '}' ∉ between) (hmatch : '}' ∉ n.text) :
      Encloses f (.place m) (.place n)

end LoopHeader

/-- The headers of the loops of a file, in order. -/
def loopHeaders (f : SourceFile) : List LoopHeader :=
  if f.isPython then
    (headerLines pythonLoop f.content.lines).map fun entry => .line entry.1 entry.2
  else (scriptLoop.findAll f.content).map .place

namespace LoopCheck

variable {check : LoopCheck} {f : SourceFile}

/-- Something is found in the body behind the header. -/
def finds (check : LoopCheck) (f : SourceFile) : LoopHeader → Bool
  | .line text index =>
      (blockLines (indentation text) (f.content.lines.drop (index + 1))).any check.inLine
  | .place m => check.inBody (braceBody m.stop.rest)

def reported (check : LoopCheck) (f : SourceFile) : List LoopHeader :=
  (loopHeaders f).filter (check.finds f)

theorem detect_eq (hcheck : check ∈ loopChecks) (f : SourceFile) :
    ∃ finding : Nat → Finding, (∀ n, (finding n).line = some n) ∧
      check.detector.detect f =
        if f.isPython then inBlocks f pythonLoop check.inLine finding
        else atMatches f scriptLoop (fun m => check.inBody (braceBody m.stop.rest)) finding := by
  rcases List.mem_cons.mp hcheck with rfl | hcheck
  · exact ⟨_, fun _ => rfl, rfl⟩
  · obtain rfl := List.mem_singleton.mp hcheck
    exact ⟨_, fun _ => rfl, rfl⟩

/-- The findings are those of the reported headers, each at the line of its header. -/
theorem lines_detect (hcheck : check ∈ loopChecks) (f : SourceFile) :
    (check.detector.detect f).map Finding.line =
      (check.reported f).map fun header => some header.number := by
  obtain ⟨finding, hfinding, hdetect⟩ := detect_eq hcheck f
  rw [hdetect, reported, loopHeaders]
  split
  · rw [inBlocks_eq, List.filter_map, List.map_map, List.map_map]
    exact List.map_congr_left fun _ _ => hfinding _
  · rw [atMatches, List.filter_map, List.map_map, List.map_map]
    exact List.map_congr_left fun _ _ => hfinding _

end LoopCheck

/-! ## Bodies in bodies -/

theorem containsAny_of_infix {t t' : Text} (h : t <:+: t') {needles : List String}
    (hfound : t.containsAny needles = true) : t'.containsAny needles = true := by
  obtain ⟨needle, hneedle, hcontains⟩ := List.any_eq_true.mp hfound
  refine List.any_eq_true.mpr ⟨needle, hneedle, ?_⟩
  exact Text.contains_iff.mpr ((Text.contains_iff.mp hcontains).trans h)

theorem braceBody_append {lead : Text} (hlead : '}' ∉ lead) (rest : Text) :
    braceBody (lead ++ rest) = lead ++ braceBody rest := by
  have hpassed : ∀ c ∈ lead, (c != '}') = true := by
    intro c hc
    rw [bne_iff_ne]
    exact fun heq => hlead (heq ▸ hc)
  unfold braceBody
  rw [List.takeWhile_append_of_pos hpassed]
  simp only [List.length_append, List.drop_length_add_append, List.append_assoc]

theorem exists_of_line_mem {f : SourceFile} {text : Text} {index : Nat}
    (h : .line text index ∈ loopHeaders f) :
    f.content.lines[index]? = some text ∧ pythonLoop.occursIn text = true := by
  rw [loopHeaders] at h
  split at h
  · obtain ⟨⟨text, index⟩, hentry, heq⟩ := List.mem_map.mp h
    cases heq
    exact mem_headerLines.mp hentry
  · simp at h

theorem mem_findAll_of_place_mem {f : SourceFile} {m : Match} (h : .place m ∈ loopHeaders f) :
    m ∈ scriptLoop.findAll f.content := by
  rw [loopHeaders] at h
  split at h
  · simp at h
  · simpa using h

/-- A line that heads a loop is not blank. -/
theorem not_isBlankLine_of_loop {line : Text} (h : pythonLoop.occursIn line = true) :
    line.isBlankLine = false := by
  have hmatches : 0 < (pythonLoop.findAll line).length := count_pos_iff.mpr h
  obtain ⟨m, hm⟩ := List.exists_mem_of_length_pos hmatches
  have htext : m.start.text = line := (reads_of_mem_findAll hm).1
  have hmatch := (mem_scan hm).2
  obtain ⟨start, ⟨-, rfl⟩, gap, hgap, stop, hword, -⟩ := (takes_of_matchAt hmatch).2
  obtain ⟨taken, -, hblanks, -⟩ := takes_many.mp hgap
  obtain ⟨word, hmem, hreads, -⟩ := takes_anyWord.mp hword
  have hline : line = m.start.before.reverse ++ (taken ++ (word.toList ++ stop.cursor.rest)) := by
    rw [← htext, Cursor.text, hblanks.rest, hreads.rest]
  have hletter : ∃ c ∈ word.toList, isBlank c = false := by
    rcases List.mem_cons.mp hmem with rfl | hmem
    · exact ⟨'f', by decide, rfl⟩
    · exact ⟨'w', by simp [List.mem_singleton.mp hmem], rfl⟩
  obtain ⟨c, hc, hletter⟩ := hletter
  rw [Text.isBlankLine, List.all_eq_false]
  exact ⟨c, by simp [hline, hc], by simp [hletter]⟩

theorem blockLines_deeper {indent deeper : Nat} (h : indent ≤ deeper) (lines : List Text) :
    blockLines deeper lines <+: blockLines indent lines := by
  have hboth : blockLines deeper (blockLines indent lines) = blockLines deeper lines := by
    unfold blockLines
    rw [List.takeWhile_takeWhile]
    congr 1
    funext line
    have hmono : deeper < indentation line → indent < indentation line := h.trans_lt
    rw [Bool.eq_iff_iff]
    simp only [Bool.or_eq_true, decide_eq_true_eq]
    tauto
  rw [← hboth]
  exact List.takeWhile_prefix _

/-- A block ends in a block around its header no earlier than there. -/
theorem blockLines_sublist {lines : List Text} {indent deeper i j : Nat} (hlt : i < j)
    (hdeeper : ∀ k line, i < k → k ≤ j → lines[k]? = some line →
      line.isBlankLine = true ∨ indent < indentation line) (h : indent ≤ deeper) :
    (blockLines deeper (lines.drop (j + 1))).Sublist (blockLines indent (lines.drop (i + 1))) := by
  have hcut : lines.drop (i + 1) =
      (lines.drop (i + 1)).take (j - i) ++ lines.drop (j + 1) := by
    have hdrop := List.take_append_drop (j - i) (lines.drop (i + 1))
    rwa [List.drop_drop, show i + 1 + (j - i) = j + 1 by omega, eq_comm] at hdrop
  have hpassed : ∀ line ∈ (lines.drop (i + 1)).take (j - i),
      (line.isBlankLine || decide (indent < indentation line)) = true := by
    intro line hline
    obtain ⟨k, hk⟩ := List.mem_iff_getElem?.mp hline
    rw [List.getElem?_take] at hk
    split at hk
    · rw [List.getElem?_drop] at hk
      simpa using hdeeper (i + 1 + k) line (by omega) (by omega) hk
    · cases hk
  have houter : blockLines indent (lines.drop (i + 1)) =
      (lines.drop (i + 1)).take (j - i) ++ blockLines indent (lines.drop (j + 1)) := by
    conv_lhs => rw [hcut]
    exact List.takeWhile_append_of_pos hpassed
  rw [houter]
  exact (blockLines_deeper h _).sublist.trans (List.sublist_append_right _ _)

theorem LoopCheck.finds_of_encloses {check : LoopCheck} (hcheck : check ∈ loopChecks)
    {f : SourceFile} {outer inner : LoopHeader} (hinner : inner ∈ loopHeaders f)
    (hencloses : outer.Encloses f inner) (hfinds : check.finds f inner = true) :
    check.finds f outer = true := by
  cases hencloses with
  | line hlt hdeeper =>
      obtain ⟨hline, hloop⟩ := exists_of_line_mem hinner
      have hindent := (hdeeper _ _ hlt le_rfl hline).resolve_left
        (by simp [not_isBlankLine_of_loop hloop])
      obtain ⟨line, hmem, hfound⟩ := List.any_eq_true.mp hfinds
      have hsublist := blockLines_sublist hlt hdeeper hindent.le
      exact List.any_eq_true.mpr ⟨line, hsublist.subset hmem, hfound⟩
  | @place m n between hreads hbetween hmatch =>
      have hn : n.start.Reads n.text n.stop :=
        (reads_of_mem_findAll (mem_findAll_of_place_mem hinner)).2.1
      have hlead : '}' ∉ between ++ n.text := by simp [hbetween, hmatch]
      have hbody : braceBody m.stop.rest = (between ++ n.text) ++ braceBody n.stop.rest := by
        rw [(hreads.trans hn).rest, braceBody_append hlead]
      have hinfix : braceBody n.stop.rest <:+: braceBody m.stop.rest := by
        rw [hbody]
        exact (List.suffix_append _ _).isInfix
      rcases List.mem_cons.mp hcheck with rfl | hcheck
      · exact containsAny_of_infix hinfix hfinds
      · obtain rfl := List.mem_singleton.mp hcheck
        exact containsAny_of_infix hinfix hfinds

/-- A loop in whose body a reported loop lies is reported too. -/
theorem enclosing_loops_reported {check : LoopCheck} (hcheck : check ∈ loopChecks)
    (f : SourceFile) :
    (check.detector.detect f).map Finding.line =
        (check.reported f).map (fun header => some header.number) ∧
      ∀ outer ∈ loopHeaders f, ∀ inner ∈ check.reported f, outer.Encloses f inner →
        outer ∈ check.reported f := by
  refine ⟨check.lines_detect hcheck f, fun outer houter inner hinner hencloses => ?_⟩
  obtain ⟨hheader, hfinds⟩ := List.mem_filter.mp hinner
  exact List.mem_filter.mpr
    ⟨houter, LoopCheck.finds_of_encloses hcheck hheader hencloses hfinds⟩

/-- A request in a loop in a loop, with an empty line between their headers. -/
def nestedLoops : SourceFile where
  content := "for a in b:\n\n    while c:\n        requests.get(a)\n".toList
  language := .python

theorem nestedLoops_reported :
    nPlusOneCheck ∈ loopChecks ∧
      LoopHeader.line "for a in b:".toList 0 ∈ loopHeaders nestedLoops ∧
      LoopHeader.line "    while c:".toList 2 ∈ nPlusOneCheck.reported nestedLoops ∧
      LoopHeader.Encloses nestedLoops (.line "for a in b:".toList 0)
        (.line "    while c:".toList 2) ∧
      LoopHeader.line "for a in b:".toList 0 ∈ nPlusOneCheck.reported nestedLoops := by
  have hpython : nestedLoops.isPython = true := rfl
  have hcheck : nPlusOneCheck ∈ loopChecks := List.mem_cons_self
  have houter : LoopHeader.line "for a in b:".toList 0 ∈ loopHeaders nestedLoops := by
    rw [loopHeaders, if_pos hpython]
    exact List.mem_map.mpr
      ⟨(_, 0), mem_headerLines.mpr ⟨by decide +kernel, by decide +kernel⟩, rfl⟩
  have hinner : LoopHeader.line "    while c:".toList 2 ∈ nPlusOneCheck.reported nestedLoops := by
    refine List.mem_filter.mpr ⟨?_, by decide +kernel⟩
    rw [loopHeaders, if_pos hpython]
    exact List.mem_map.mpr
      ⟨(_, 2), mem_headerLines.mpr ⟨by decide +kernel, by decide +kernel⟩, rfl⟩
  have hempty : nestedLoops.content.lines[1]? = some [] := by
    decide +kernel
  have hdeeper : ∀ line, nestedLoops.content.lines[2]? = some line →
      indentation "for a in b:".toList < indentation line := by
    have hnext : nestedLoops.content.lines[2]? = some "    while c:".toList := by
      decide +kernel
    rw [hnext]
    rintro line ⟨⟩
    decide +kernel
  have hencloses : LoopHeader.Encloses nestedLoops (.line "for a in b:".toList 0)
      (.line "    while c:".toList 2) := by
    refine .line Nat.zero_lt_two fun k line hlt hle hline => ?_
    obtain rfl | rfl : k = 1 ∨ k = 2 := by omega
    · rw [hempty, Option.some.injEq] at hline
      exact .inl (hline ▸ rfl)
    · exact .inr (hdeeper line hline)
  exact ⟨hcheck, houter, hinner, hencloses,
    (enclosing_loops_reported hcheck nestedLoops).2 _ houter _ hinner hencloses⟩

end RepoAudit.Detector
