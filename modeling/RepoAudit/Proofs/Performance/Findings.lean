import RepoAudit.Performance.Analysis
import RepoAudit.Proofs.Ranking
import RepoAudit.Proofs.Repository.Sources
import RepoAudit.Proofs.Tally
import Mathlib

/-!
# Findings and the issues made of them

A performance report has one issue for each finding of a detector in a file that was read.  Sorting
the issues of a file, counting them by kind and by severity and advising on the kinds lose none of
them, whatever the detectors are and whatever names they give.
-/

namespace RepoAudit.Performance

/-! ## The issues of a file -/

/-- The issue says what the finding says.  The name of a detector that no kind is named after stays
in the description. -/
structure Tells (path : String) (f : Finding) (i : Issue) : Prop where
  file : i.file = path
  severity : i.severity = f.severity
  line : i.line = f.line.getD 1
  kind : (∃ kind ∈ IssueKind.builtIn, kind.name = f.detector ∧ i.kind = kind ∧
      i.description = f.message) ∨
    (∀ kind ∈ IssueKind.builtIn, kind.name ≠ f.detector) ∧ i.kind = .other ∧
      i.description = f.detector ++ ": " ++ f.message

theorem tells_ofFinding (path : String) (f : Finding) : Tells path f (Issue.ofFinding path f) := by
  unfold Issue.ofFinding
  cases hname : IssueKind.ofName? f.detector with
  | none =>
      have hother : ∀ kind ∈ IssueKind.builtIn, kind.name ≠ f.detector := by
        intro kind hkind
        simpa using List.find?_eq_none.mp hname kind hkind
      exact ⟨rfl, rfl, rfl, .inr ⟨hother, rfl, rfl⟩⟩
  | some kind =>
      have hmem : kind ∈ IssueKind.builtIn := List.mem_of_find?_eq_some hname
      have hdetector : kind.name = f.detector := by simpa using List.find?_some hname
      exact ⟨rfl, rfl, rfl, .inl ⟨kind, hmem, hdetector, rfl, rfl⟩⟩

theorem IssueKind.rank_injective {a b : IssueKind} (h : a.rank = b.rank) : a = b := by
  cases a <;> cases b <;> simp_all [rank]

theorem Issue.precedes_iff {a b : Issue} :
    a.precedes b = true ↔ a.kind.rank < b.kind.rank ∨ a.kind = b.kind ∧ a.line ≤ b.line := by
  have hkind : a.kind.rank = b.kind.rank ↔ a.kind = b.kind :=
    ⟨IssueKind.rank_injective, congrArg _⟩
  simp [precedes, hkind]

theorem Issue.precedes_trans (a b c : Issue) (hab : a.precedes b = true)
    (hbc : b.precedes c = true) : a.precedes c = true := by
  simp only [precedes, Bool.or_eq_true, Bool.and_eq_true, decide_eq_true_eq, beq_iff_eq] at *
  omega

theorem Issue.precedes_total (a b : Issue) : (a.precedes b || b.precedes a) = true := by
  simp only [precedes, Bool.or_eq_true, Bool.and_eq_true, decide_eq_true_eq, beq_iff_eq]
  omega

/-- The issues in the order of their kinds and lines; equal ones stay in the order in which they
were told. -/
structure Arranged (told issues : List Issue) : Prop where
  perm : issues.Perm told
  sorted : issues.Pairwise fun a b =>
    a.kind.rank < b.kind.rank ∨ a.kind = b.kind ∧ a.line ≤ b.line
  stable : ∀ kind line, (issues.filter fun i => i.kind == kind && i.line == line) =
    told.filter fun i => i.kind == kind && i.line == line

theorem arranged_mergeSort (told : List Issue) : Arranged told (told.mergeSort Issue.precedes) := by
  constructor
  case perm => exact List.mergeSort_perm told Issue.precedes
  case sorted =>
    have hsorted := List.pairwise_mergeSort Issue.precedes_trans Issue.precedes_total told
    exact hsorted.imp Issue.precedes_iff.mp
  case stable =>
    intro kind line
    apply filter_mergeSort Issue.precedes_trans Issue.precedes_total
    intro a b ha hb
    simp only [Bool.and_eq_true, beq_iff_eq] at ha hb
    rw [Issue.precedes_iff]
    right
    exact ⟨ha.1.trans hb.1.symm, (ha.2.trans hb.2.symm).le⟩

/-- The issues are those of the file, one for each finding of a detector in its text. -/
def Reports (v : Volume) (plan : Walk.Plan) (detectors : List Detector) (e : Walk.Entry)
    (issues : List Issue) : Prop :=
  ∃ text told, v.readText (plan.pathTo e) = .ok text ∧
    List.Forall₂ (Tells e.display)
      (detectors.flatMap (·.detect
        { content := text.toList
          language := Language.ofExtension (Path.extensionKey e.relative) })) told ∧
    Arranged told issues

theorem reports_fileIssues {v : Volume} {plan : Walk.Plan} {e : Walk.Entry} {text : String}
    (detectors : List Detector) (hread : v.readText (plan.pathTo e) = .ok text) :
    Reports v plan detectors e (fileIssues detectors e.display
      { content := text.toList
        language := Language.ofExtension (Path.extensionKey e.relative) }) := by
  refine ⟨text, _, hread, ?_, arranged_mergeSort _⟩
  rw [List.forall₂_map_right_iff, List.forall₂_same]
  exact fun f _ => tells_ofFinding e.display f

/-! ## Counts -/

variable {r : Report}

theorem IssueKind.mem_all (kind : IssueKind) : kind ∈ all := by
  cases kind <;> decide

theorem tallies_kindCounts : Tallies Issue.kind r.issues r.kindCounts :=
  tallies_of_keys (by decide) IssueKind.mem_all

theorem tallies_levelCounts : Tallies Issue.severity r.issues r.levelCounts :=
  tallies_of_keys (by decide) fun level => by cases level <;> decide

/-! ## Advice -/

def recommendationFor (kind : IssueKind) (n : Nat) : Recommendation :=
  { category := "performance", priority := kind.severity
    description := kind.advice ++ " (" ++ toString n ++ " occurrences)"
    effort := kind.effort n }

/-- The recommendation is the one for all issues of a kind. -/
structure Advises (r : Report) (kind : IssueKind) (x : Recommendation) : Prop where
  category : x.category = "performance"
  priority : x.priority = kind.severity
  description : x.description =
    kind.advice ++ " (" ++ toString (r.countOfKind kind) ++ " occurrences)"
  effort : x.effort = kind.effort (r.countOfKind kind)

/-- Each kind that occurs is advised on once. -/
theorem exists_kinds_advised (r : Report) :
    ∃ kinds : List IssueKind, kinds.Nodup ∧
      (∀ kind, kind ∈ kinds ↔ ∃ i ∈ r.issues, i.kind = kind) ∧
      List.Forall₂ (Advises r) kinds (Recommendation.byUrgency (recommendations r)) := by
  have htallies := tallies_kindCounts (r := r)
  -- The recommendations are sorted by the severity of their kinds, so the kinds can be too.
  let sorted := r.kindCounts.mergeSort fun a b => a.1.severity.atLeast b.1.severity
  have hperm : sorted.Perm r.kindCounts := List.mergeSort_perm _ _
  refine ⟨sorted.map Prod.fst, ?_, ?_, ?_⟩
  · exact (hperm.map Prod.fst).nodup_iff.mpr htallies.once
  · intro kind
    have hcount : 0 < r.countOfKind kind ↔ ∃ i ∈ r.issues, i.kind = kind := by
      simp [Report.countOfKind, List.countP_pos_iff]
    rw [(hperm.map Prod.fst).mem_iff, ← hcount, List.mem_map]
    constructor
    · rintro ⟨⟨found, n⟩, hmem, rfl⟩
      obtain ⟨rfl, hpos⟩ := (htallies.occurring found n).mp hmem
      exact hpos
    · intro hpos
      exact ⟨(kind, r.countOfKind kind), (htallies.occurring _ _).mpr ⟨rfl, hpos⟩, rfl⟩
  · have hsorted : sorted.map (fun counted => recommendationFor counted.1 counted.2) =
        Recommendation.byUrgency (recommendations r) :=
      List.map_mergeSort fun _ _ _ _ => rfl
    rw [← hsorted, List.forall₂_map_left_iff, List.forall₂_map_right_iff, List.forall₂_same]
    rintro ⟨kind, n⟩ hmem
    obtain ⟨rfl, -⟩ := (htallies.occurring kind n).mp (hperm.mem_iff.mp hmem)
    exact ⟨rfl, rfl, rfl, rfl⟩

/-! ## Whole reports -/

variable {v : Volume} {walk : WalkSettings} {repo : String} {plan : Walk.Plan}

def reportOf (v : Volume) (plan : Walk.Plan) (detectors : List Detector) : Report :=
  let readings := (plan.readings v scannedExtensions "performance").1
  { filesScanned := readings.length
    issues := readings.flatMap fun (e, content) => fileIssues detectors e.display
      { content, language := Language.ofExtension (Path.extensionKey e.relative) } }

theorem analyze_eq_ok (detectors : List Detector) (hrepo : v.isDirectory repo = true)
    (hplan : Walk.Plan.ofSettings repo walk false = .ok plan) :
    analyze v detectors walk repo = .ok (assess (reportOf v plan detectors)
      ((Scan.ofEvents plan.root (plan.events v)).warnings ++
        (plan.readings v scannedExtensions "performance").2)) := by
  rw [analyze, scanRepository_eq_ok hrepo hplan]
  rfl

theorem filesScanned_reportOf (detectors : List Detector) :
    (reportOf v plan detectors).filesScanned = (plan.readFiles v scannedExtensions).length :=
  (forall₂_readings_texts "performance").length_eq.symm

theorem exists_issues_reported (detectors : List Detector) :
    ∃ parts, (reportOf v plan detectors).issues = parts.flatten ∧
      List.Forall₂ (Reports v plan detectors) (plan.readFiles v scannedExtensions) parts := by
  refine ⟨_, List.flatMap_def, ?_⟩
  rw [List.forall₂_map_right_iff]
  apply (forall₂_readings_texts "performance").imp
  rintro e ⟨_, _⟩ ⟨rfl, text, hread, rfl⟩
  exact reports_fileIssues detectors hread

/-- The report has exactly the findings in the files that were read, file by file, its counts cover
all of them, and each kind that occurs is advised on once. -/
structure Complete (v : Volume) (plan : Walk.Plan) (detectors : List Detector)
    (read : List Walk.Entry) (a : Assessment Report) : Prop where
  filesScanned : a.report.filesScanned = read.length
  issues : ∃ parts, a.report.issues = parts.flatten ∧
    List.Forall₂ (Reports v plan detectors) read parts
  byKind : Tallies Issue.kind a.report.issues a.report.kindCounts
  bySeverity : Tallies Issue.severity a.report.issues a.report.levelCounts
  advice : ∃ kinds : List IssueKind, kinds.Nodup ∧
    (∀ kind, kind ∈ kinds ↔ ∃ i ∈ a.report.issues, i.kind = kind) ∧
    List.Forall₂ (Advises a.report) kinds a.recommendations

/-- The performance report of a directory loses no finding and invents none. -/
theorem analyze_keeps_findings (detectors : List Detector) (hv : v.top.WellFormed)
    (hrepo : v.isDirectory repo = true)
    (hplan : Walk.Plan.ofSettings repo walk false = .ok plan) :
    ∃ a read unread, analyze v detectors walk repo = .ok a ∧
      FilesAccounted v plan "performance" scannedExtensions read unread a.warnings ∧
      Complete v plan detectors read a := by
  refine ⟨_, plan.readFiles v scannedExtensions, plan.unreadFiles v scannedExtensions,
    analyze_eq_ok detectors hrepo hplan, readings_account hv (by decide), ?_⟩
  constructor
  case filesScanned => exact filesScanned_reportOf detectors
  case issues => exact exists_issues_reported detectors
  case byKind => exact tallies_kindCounts
  case bySeverity => exact tallies_levelCounts
  case advice => exact exists_kinds_advised _

/-- The finding of a detector of its own name, which gives no line, is kept. -/
theorem mixed_findings_kept :
    ∃ a, analyze mixed [.lineSearch "todo" "x" .low false] {} "/w" = .ok a ∧
      a.report.issues.map (·.description) = ["todo: found x"] ∧
      (a.report.kindCounts.map Prod.snd).sum = 1 := by
  have hrepo : mixed.isDirectory "/w" = true := by cbv
  have hplan : Walk.Plan.ofSettings "/w" {} false = .ok mixedPlan := by cbv
  obtain ⟨a, read, unread, ha, -, hcomplete⟩ :=
    analyze_keeps_findings [.lineSearch "todo" "x" .low false] mixed_wellFormed hrepo hplan
  have hissues : ((analyze mixed [.lineSearch "todo" "x" .low false] {} "/w").toOption.map
      fun a => a.report.issues.map (·.description)) = some ["todo: found x"] := by cbv
  rw [ha] at hissues
  have hdescriptions : a.report.issues.map (·.description) = ["todo: found x"] :=
    Option.some.inj hissues
  refine ⟨a, ha, hdescriptions, ?_⟩
  rw [hcomplete.byKind.total, ← List.length_map (·.description), hdescriptions]
  rfl

end RepoAudit.Performance
