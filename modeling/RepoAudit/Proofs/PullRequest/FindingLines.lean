import RepoAudit.Proofs.Pattern.Scan
import RepoAudit.Proofs.PullRequest.MatchedLines

/-!
# The lines that findings name

Every match of a probe in the added lines of a file is one finding.  It names the number that the
line in which the match starts has in the new file, and the findings come in the order of the
probes, those of one probe in the order of the patch.
-/

namespace RepoAudit.Review

variable {added : List (Nat × Text)} {m n : Match} {k l : Nat}

/-- The match starts in the added line `k`, counted from zero: before it stand the lines above that
line, each with its line feed, and the beginning of the line. -/
def StartsIn (added : List (Nat × Text)) (m : Match) (k : Nat) : Prop :=
  ∃ above line below lead, added.map Prod.snd = above ++ line :: below ∧ above.length = k ∧
    lead <+: line ∧ m.start.before.reverse = Text.unlines above ++ lead

theorem StartsIn.line_eq (hlines : ∀ line ∈ added, '\n' ∉ line.2) (h : StartsIn added m k) :
    m.line = k + 1 := by
  obtain ⟨above, line, below, lead, hadded, rfl, hlead, hbefore⟩ := h
  have hpieces : ∀ piece ∈ above ++ line :: below, '\n' ∉ piece := by
    rw [← hadded, List.forall_mem_map]
    exact hlines
  rw [List.forall_mem_append, List.forall_mem_cons] at hpieces
  have hnone : lead.count '\n' = 0 :=
    List.count_eq_zero.mpr fun hmem => hpieces.2.1 (hlead.subset hmem)
  have hcount : m.start.before.count '\n' = above.length := by
    rw [← List.count_reverse, hbefore, List.count_append, Text.count_unlines hpieces.1, hnone,
      Nat.add_zero]
  rw [Match.line, Cursor.line, hcount]

theorem StartsIn.lt (h : StartsIn added m k) : k < added.length := by
  obtain ⟨above, line, below, lead, hadded, rfl, -, -⟩ := h
  have hlength := congrArg List.length hadded
  rw [List.length_map, List.length_append, List.length_cons] at hlength
  omega

theorem exists_startsIn {pattern : Pattern} (hne : added ≠ [])
    (hm : m ∈ pattern.findAll (addedText added)) : ∃ k, StartsIn added m k := by
  obtain ⟨htext, -, -⟩ := Pattern.reads_of_mem_findAll hm
  have hprefix : m.start.before.reverse <+: Text.join ['\n'] (added.map Prod.snd) :=
    ⟨m.start.rest, htext⟩
  obtain ⟨above, line, below, lead, hadded, hlead, hbefore⟩ :=
    Text.exists_line_of_prefix (by simpa using hne) hprefix
  exact ⟨above.length, above, line, below, lead, hadded, rfl, hlead, hbefore⟩

theorem not_mem_of_mem_addedLines {f : ChangedFile} {line : Nat × Text}
    (h : line ∈ addedLines f) : '\n' ∉ line.2 := by
  rw [addedLines] at h
  split at h
  · exact Patch.not_mem_of_mem_addedLines h
  · exact absurd h List.not_mem_nil

/-- The matches of all probes in the added lines, category by category and probe by probe. -/
def probeMatches (added : List (Nat × Text)) : List (ProbeCategory × Probe × Match) :=
  Probe.sets.flatMap fun (category, probes) =>
    probes.flatMap fun probe =>
      (probe.pattern.findAll (addedText added)).map fun m => (category, probe, m)

theorem mem_probeMatches {category : ProbeCategory} {probe : Probe} :
    (category, probe, m) ∈ probeMatches added ↔
      ∃ probes, (category, probes) ∈ Probe.sets ∧ probe ∈ probes ∧
        m ∈ probe.pattern.findAll (addedText added) := by
  simp only [probeMatches, List.mem_flatMap, List.mem_map, Prod.mk.injEq, Prod.exists]
  constructor
  · rintro ⟨_, probes, hset, _, hprobe, _, hm, rfl, rfl, rfl⟩
    exact ⟨probes, hset, hprobe, hm⟩
  · rintro ⟨probes, hset, hprobe, hm⟩
    exact ⟨category, probes, hset, probe, hprobe, m, hm, rfl, rfl, rfl⟩

theorem probeMatches_nil : probeMatches [] = [] := by
  rw [List.eq_nil_iff_forall_not_mem]
  rintro ⟨category, probe, m⟩ hmem
  obtain ⟨probes, hset, hprobe, hm⟩ := mem_probeMatches.mp hmem
  exact Match.ne_nil_of_mem_findAll hm (minSize_probe_pos _ hset probe hprobe) rfl

/-- The finding that a match is reported as. -/
def findingOf (f : ChangedFile) (found : ProbeCategory × Probe × Match) : FileFinding :=
  let (category, probe, m) := found
  { file := f.filename, category, probe := probe.name, severity := probe.severity
    line := newLine? (addedLines f) m.line, message := probe.message }

theorem reviewFile_eq (f : ChangedFile) :
    reviewFile f = (probeMatches (addedLines f)).map (findingOf f) := by
  rw [reviewFile]
  split
  · next hempty =>
      rw [List.isEmpty_iff.mp hempty, probeMatches_nil]
      rfl
  · simp only [fileFindings, probeMatches, List.map_flatMap, List.map_map, Probe.findings,
      Function.comp_def, Option.bind_some, findingOf]

/-- The finding tells of the match and names the number of the added line in which it starts. -/
def Locates (f : ChangedFile) (found : ProbeCategory × Probe × Match) (finding : FileFinding) :
    Prop :=
  let (category, probe, m) := found
  ∃ k number text, StartsIn (addedLines f) m k ∧ (addedLines f)[k]? = some (number, text) ∧
    finding = { file := f.filename, category, probe := probe.name, severity := probe.severity
                line := some number, message := probe.message }

theorem locates_findingOf {f : ChangedFile} {found : ProbeCategory × Probe × Match}
    (hfound : found ∈ probeMatches (addedLines f)) : Locates f found (findingOf f found) := by
  obtain ⟨category, probe, m⟩ := found
  obtain ⟨probes, hset, hprobe, hm⟩ := mem_probeMatches.mp hfound
  have hne : addedLines f ≠ [] := by
    intro hnil
    rw [hnil] at hm
    exact Match.ne_nil_of_mem_findAll hm (minSize_probe_pos _ hset probe hprobe) rfl
  obtain ⟨k, hstart⟩ := exists_startsIn hne hm
  have hk := hstart.lt
  have hline := hstart.line_eq fun _ => not_mem_of_mem_addedLines
  refine ⟨k, (addedLines f)[k].1, (addedLines f)[k].2, hstart, List.getElem?_eq_getElem hk, ?_⟩
  rw [findingOf, newLine?, hline, Nat.add_sub_cancel, List.getElem?_eq_getElem hk]
  rfl

/-- The findings of a file are the matches of the probes, one by one in the order of the probes,
each with the number of the line in which it starts.  Of two matches of one probe the earlier one
is found first, and the line in which it starts is not below that of the other. -/
theorem reviewFile_locates_matches (f : ChangedFile) :
    List.Forall₂ (Locates f) (probeMatches (addedLines f)) (reviewFile f) ∧
      ∀ set ∈ Probe.sets, ∀ probe ∈ set.2,
        (probe.pattern.findAll (addedText (addedLines f))).Pairwise fun m n =>
          m.start.Precedes n.start ∧
            ∀ k l, StartsIn (addedLines f) m k → StartsIn (addedLines f) n l → k ≤ l := by
  constructor
  · rw [reviewFile_eq, List.forall₂_map_right_iff, List.forall₂_same]
    exact fun _ => locates_findingOf
  · intro set _ probe _
    refine (Pattern.pairwise_scan probe.pattern 0 [] _).imp ?_
    intro m n hprecedes
    refine ⟨hprecedes, fun k l hk hl => ?_⟩
    have hlines : ∀ line ∈ addedLines f, '\n' ∉ line.2 := fun _ => not_mem_of_mem_addedLines
    have hle : m.line ≤ n.line := hprecedes.line_le
    rw [hk.line_eq hlines, hl.line_eq hlines] at hle
    omega

end RepoAudit.Review
