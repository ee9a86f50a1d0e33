import RepoAudit.Proofs.PullRequest.LineKinds
import RepoAudit.PullRequest.Review

/-!
# The lines that a match covers

Probes look at the added lines of a file joined by line feeds.  So a match covers lines that follow
each other in this text, and how far they are apart in the new file is decided by the lines of the
patch that were left out between them.
-/

namespace RepoAudit

/-- The number of the line of the last character of a match, counted from one. -/
def Match.lastLine (m : Match) : Nat :=
  m.stop.before.tail.count '\n' + 1

/-- A match covers the lines from one place to another, counted from zero. -/
structure Match.Covers (m : Match) (first last : Nat) : Prop where
  line : m.line = first + 1
  lastLine : m.lastLine = last + 1

theorem Match.ne_nil_of_mem_findAll {pattern : Pattern} {t : Text} {m : Match}
    (hm : m ∈ pattern.findAll t) (hsize : 0 < pattern.minSize) : t ≠ [] := by
  obtain ⟨htext, hreads, hlength⟩ := Pattern.reads_of_mem_findAll hm
  rintro rfl
  obtain ⟨-, hrest⟩ := List.append_eq_nil_iff.mp htext
  have hempty : m.text = [] := (List.append_eq_nil_iff.mp (hreads.rest.symm.trans hrest)).1
  rw [hempty, List.length_nil] at hlength
  omega

theorem Match.exists_covers {pattern : Pattern} {t : Text} {m : Match}
    (hm : m ∈ pattern.findAll t) (hsize : 0 < pattern.minSize) :
    ∃ first last, m.Covers first last ∧ first ≤ last ∧ last ≤ t.count '\n' := by
  obtain ⟨htext, hreads, hlength⟩ := Pattern.reads_of_mem_findAll hm
  have hne : m.text ≠ [] := List.ne_nil_of_length_pos (by omega)
  obtain ⟨init, c, htaken⟩ := (List.eq_nil_or_concat' m.text).resolve_left hne
  have htail : m.stop.before.tail = init.reverse ++ m.start.before := by
    rw [hreads.before, htaken]
    simp
  have hwhole : m.stop.before.reverse ++ m.stop.rest = t := by
    rw [← htext]
    exact hreads.text
  refine ⟨m.start.before.count '\n', m.stop.before.tail.count '\n', ⟨rfl, rfl⟩, ?_, ?_⟩
  · rw [htail, List.count_append]
    exact Nat.le_add_left _ _
  · calc
      m.stop.before.tail.count '\n' ≤ m.stop.before.count '\n' :=
        (List.tail_sublist _).count_le _
      _ = m.stop.before.reverse.count '\n' := (List.count_reverse ..).symm
      _ ≤ t.count '\n' := by
        rw [← hwhole, List.count_append]
        exact Nat.le_add_right _ _

namespace Patch

/-- `middle` are the lines that stand between the added lines `k` and `l`, counted from zero. -/
def Between (kinds : List LineKind) (k l : Nat) (middle : List LineKind) : Prop :=
  ∃ lead first last rest,
    kinds = lead ++ .added first :: (middle ++ .added last :: rest) ∧
      lead.countP LineKind.isAdded = k ∧ k + 1 + middle.countP LineKind.isAdded = l

theorem exists_added_split {kinds : List LineKind} {k : Nat}
    (hk : k < kinds.countP LineKind.isAdded) :
    ∃ lead text rest, kinds = lead ++ .added text :: rest ∧ lead.countP LineKind.isAdded = k := by
  induction kinds generalizing k with
  | nil => simp at hk
  | cons kind kinds ih =>
      cases hkind : kind.isAdded with
      | false =>
          rw [List.countP_cons_of_neg (by simp [hkind])] at hk
          obtain ⟨lead, text, rest, rfl, hlead⟩ := ih hk
          refine ⟨kind :: lead, text, rest, rfl, ?_⟩
          rw [List.countP_cons_of_neg (by simp [hkind]), hlead]
      | true =>
          rw [List.countP_cons_of_pos hkind] at hk
          cases k with
          | zero =>
              cases kind with
              | added text => exact ⟨[], text, kinds, rfl, rfl⟩
              | _ => exact Bool.noConfusion hkind
          | succ k =>
              obtain ⟨lead, text, rest, rfl, hlead⟩ := ih (Nat.lt_of_succ_lt_succ hk)
              refine ⟨kind :: lead, text, rest, rfl, ?_⟩
              rw [List.countP_cons_of_pos hkind, hlead]

theorem exists_between {kinds : List LineKind} {k l : Nat} (hkl : k < l)
    (hl : l < kinds.countP LineKind.isAdded) : ∃ middle, Between kinds k l middle := by
  obtain ⟨lead, first, rest, rfl, hlead⟩ := exists_added_split (hkl.trans hl)
  rw [List.countP_append, List.countP_cons_of_pos rfl, hlead] at hl
  obtain ⟨middle, last, rest, rfl, hmiddle⟩ :=
    exists_added_split (show l - (k + 1) < rest.countP LineKind.isAdded by omega)
  exact ⟨middle, lead, first, last, rest, rfl, hlead, by omega⟩

/-- Within a hunk, two added lines are apart by the added and the context lines between them. -/
theorem Between.number {kinds middle : List LineKind} {next k l : Nat}
    (hbetween : Between kinds k l middle)
    (hmiddle : ∀ kind ∈ middle, kind.isHunkHeader = false)
    (hk : k < (numbered next kinds).length) (hl : l < (numbered next kinds).length) :
    (numbered next kinds)[l].1 =
      ((numbered next kinds)[k].1 + (l - k) + middle.countP LineKind.isContext) % lineLimit := by
  obtain ⟨lead, first, last, rest, rfl, hlead, hcount⟩ := hbetween
  let n := lead.foldl LineKind.after next
  let n' := middle.foldl LineKind.after ((n + 1) % lineLimit)
  have hfirst : numbered next (lead ++ .added first :: (middle ++ .added last :: rest)) =
      numbered next lead ++ (n, first) ::
        numbered ((n + 1) % lineLimit) (middle ++ .added last :: rest) := by
    rw [numbered_append]
    rfl
  have hlast : numbered next (lead ++ .added first :: (middle ++ .added last :: rest)) =
      (numbered next lead ++ (n, first) :: numbered ((n + 1) % lineLimit) middle) ++ (n', last) ::
        numbered ((n' + 1) % lineLimit) rest := by
    rw [hfirst, numbered_append, List.append_assoc, List.cons_append]
    rfl
  have hnumber : n' = (n + (l - k) + middle.countP LineKind.isContext) % lineLimit := by
    calc
      n' = ((n + 1) % lineLimit + middle.countP LineKind.isAdded +
          middle.countP LineKind.isContext) % lineLimit :=
        foldl_after (Nat.mod_lt _ (by decide)) hmiddle
      _ = (n + 1 + (middle.countP LineKind.isAdded + middle.countP LineKind.isContext)) %
          lineLimit := by
        rw [Nat.add_assoc, Nat.mod_add_mod]
      _ = (n + (l - k) + middle.countP LineKind.isContext) % lineLimit := by
        congr 1
        omega
  have hlengthFirst : (numbered next lead).length = k := by
    rw [length_numbered, hlead]
  have hlengthLast : (numbered next lead ++ (n, first) ::
      numbered ((n + 1) % lineLimit) middle).length = l := by
    rw [List.length_append, List.length_cons, length_numbered, length_numbered]
    omega
  rw [List.getElem_of_append hlast hlengthLast, List.getElem_of_append hfirst hlengthFirst, hnumber]

end Patch

namespace Review

open Patch

def patchKinds (f : ChangedFile) : List LineKind :=
  match f.patch with
  | some patch => lineKinds false (Text.lines patch.toList)
  | none => []

theorem addedLines_eq_numbered (f : ChangedFile) : addedLines f = numbered 1 (patchKinds f) := by
  rw [addedLines, patchKinds]
  cases f.patch with
  | some patch => exact Patch.addedLines_eq patch.toList
  | none => rfl

theorem count_addedText (f : ChangedFile) (hne : addedLines f ≠ []) :
    (addedText (addedLines f)).count '\n' + 1 = (addedLines f).length := by
  have hlines : ∀ line ∈ (addedLines f).map Prod.snd, '\n' ∉ line := by
    rw [List.forall_mem_map]
    intro line hline
    rw [addedLines] at hline
    split at hline
    · exact Patch.not_mem_of_mem_addedLines hline
    · exact absurd hline List.not_mem_nil
  rw [addedText, Text.count_join_lineFeed (by simpa using hne) hlines, List.length_map]

theorem minSize_probe_pos : ∀ set ∈ Probe.sets, ∀ probe ∈ set.2, 0 < probe.pattern.minSize := by
  decide

theorem mem_reviewFile {f : ChangedFile} {set : ProbeCategory × List Probe} (hset : set ∈ Probe.sets)
    {probe : Probe} (hprobe : probe ∈ set.2) {m : Match}
    (hm : m ∈ probe.pattern.findAll (addedText (addedLines f))) (hne : addedLines f ≠ []) :
    { file := f.filename, category := set.1, probe := probe.name, severity := probe.severity
      line := newLine? (addedLines f) m.line, message := probe.message } ∈ reviewFile f := by
  rw [reviewFile, if_neg (by simpa using hne), fileFindings]
  refine List.mem_flatMap.mpr ⟨set, hset, List.mem_flatMap.mpr ⟨probe, hprobe, ?_⟩⟩
  exact List.mem_map.mpr ⟨_, List.mem_map.mpr ⟨m, hm, rfl⟩, rfl⟩

/-- A match covers neighbours among the added lines.  In the new file they are apart by what stands
between them in the patch: by nothing, when it is neither a context line nor the header of a hunk. -/
theorem match_covers_added_lines (f : ChangedFile) {set : ProbeCategory × List Probe}
    (hset : set ∈ Probe.sets) {probe : Probe} (hprobe : probe ∈ set.2) {m : Match}
    (hm : m ∈ probe.pattern.findAll (addedText (addedLines f))) :
    ∃ i j, m.Covers i j ∧ ∃ (_ : i ≤ j) (_ : j < (addedLines f).length),
      { file := f.filename, category := set.1, probe := probe.name, severity := probe.severity
        line := some (addedLines f)[i].1, message := probe.message } ∈ reviewFile f ∧
      ∀ k l, i ≤ k → (_ : k < l) → (_ : l ≤ j) → ∃ middle, Between (patchKinds f) k l middle ∧
        ((∀ kind ∈ middle, kind.isHunkHeader = false) →
          (addedLines f)[l].1 =
            ((addedLines f)[k].1 + (l - k) + middle.countP LineKind.isContext) % lineLimit) := by
  have hsize := minSize_probe_pos set hset probe hprobe
  have hne : addedLines f ≠ [] := by
    intro hnil
    rw [hnil] at hm
    exact Match.ne_nil_of_mem_findAll hm hsize rfl
  obtain ⟨i, j, hcovers, hij, hj⟩ := Match.exists_covers hm hsize
  have hj : j < (addedLines f).length := by
    have hcount := count_addedText f hne
    omega
  refine ⟨i, j, hcovers, hij, hj, ?_, ?_⟩
  · have hfinding := mem_reviewFile hset hprobe hm hne
    rw [hcovers.line, newLine?, Nat.add_sub_cancel, List.getElem?_eq_getElem (by omega)] at hfinding
    exact hfinding
  · intro k l _ hkl hlj
    have hcount : (addedLines f).length = (patchKinds f).countP LineKind.isAdded := by
      rw [addedLines_eq_numbered, length_numbered]
    obtain ⟨middle, hbetween⟩ := exists_between hkl
      (show l < (patchKinds f).countP LineKind.isAdded by omega)
    refine ⟨middle, hbetween, fun hmiddle => ?_⟩
    simp only [addedLines_eq_numbered]
    exact hbetween.number hmiddle _ _

/-- A condition and its closing brace, added around a line that stays. -/
def wrappedCall : ChangedFile :=
  { filename := "a.js", patch := some "@@ -1,1 +1,3 @@\n+if (x) \x7b\n keep();\n+\x7d\n" }

def wrappingBlock : Match :=
  ⟨⟨[], "if (x) \x7b\n\x7d".toList⟩, ⟨"if (x) \x7b\n\x7d".toList.reverse, []⟩, []⟩

theorem wrappingBlock_mem_findAll :
    wrappingBlock ∈ Probe.bugProbes[2].pattern.findAll (addedText (addedLines wrappedCall)) := by
  have hfound : Probe.bugProbes[2].pattern.findAll (addedText (addedLines wrappedCall)) =
      [wrappingBlock] := by
    rfl
  rw [hfound]
  exact List.mem_singleton.mpr rfl

theorem wrappingBlock_covers_added_lines :
    Probe.sets[0] ∈ Probe.sets ∧ Probe.bugProbes[2] ∈ Probe.sets[0].2 ∧
      wrappingBlock ∈ Probe.bugProbes[2].pattern.findAll (addedText (addedLines wrappedCall)) ∧
      ∃ i j, wrappingBlock.Covers i j ∧ i ≤ j ∧ j < (addedLines wrappedCall).length := by
  have hset : Probe.sets[0] ∈ Probe.sets := List.getElem_mem _
  have hprobe : Probe.bugProbes[2] ∈ Probe.sets[0].2 := List.getElem_mem _
  obtain ⟨i, j, hcovers, hij, hj, -⟩ :=
    match_covers_added_lines wrappedCall hset hprobe wrappingBlock_mem_findAll
  exact ⟨hset, hprobe, wrappingBlock_mem_findAll, i, j, hcovers, hij, hj⟩

/-- The lines that a match covers need not be consecutive in the new file: the context line between
the two lines of `wrappedCall` is left out of the text that the probes see. -/
theorem wrappingBlock_lines_not_consecutive :
    ¬ ∀ f : ChangedFile, ∀ set ∈ Probe.sets, ∀ probe ∈ set.2,
      ∀ m ∈ probe.pattern.findAll (addedText (addedLines f)), ∀ i j, m.Covers i j →
        ∀ k, i + k ≤ j →
          (addedLines f)[i + k]?.map Prod.fst = (addedLines f)[i]?.map fun line => line.1 + k := by
  intro h
  have hconsecutive := h wrappedCall Probe.sets[0] (List.getElem_mem _) Probe.bugProbes[2]
    (List.getElem_mem _) wrappingBlock wrappingBlock_mem_findAll 0 1 ⟨by decide, by decide⟩ 1 le_rfl
  exact absurd hconsecutive (by decide)

end Review
end RepoAudit
