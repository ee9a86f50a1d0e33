import RepoAudit.Proofs.Migration.Listing
import RepoAudit.Proofs.Repository.Accounting

/-!
# Paths as reports write them

Reports write the path of a file with a slash for each backslash.  A backslash may stand in a name,
so two files of one repository can be written alike, and then the reports cannot tell them apart:
the complexity report and the migration plan give one path twice, and the performance report counts
the issues of both files as those of one.  Where no two files are written alike, none of this
happens.
-/

namespace RepoAudit

namespace Walk

variable {v : Volume} {plan : Plan} {extensions : List String} {e f : Entry}

def IsSlash (c : Char) : Prop :=
  c = '/' ∨ c = '\\'

/-- The paths differ at most in which kind of slash stands where. -/
def Entry.WrittenAlike (e f : Entry) : Prop :=
  List.Forall₂ (fun c d => c = d ∨ IsSlash c ∧ IsSlash d) e.relative.toList f.relative.toList

/-- No two of the entries are written alike. -/
def WrittenApart (among : Entry → Prop) : Prop :=
  ∀ e f, among e → among f → e.WrittenAlike f → e = f

/-! ## Written entries -/

def forwardSlash (c : Char) : Char :=
  if c = '\\' then '/' else c

theorem forwardSlash_eq_iff {c d : Char} :
    forwardSlash c = forwardSlash d ↔ c = d ∨ IsSlash c ∧ IsSlash d := by
  unfold forwardSlash IsSlash
  split_ifs <;> grind

theorem toList_display (e : Entry) : e.display.toList = e.relative.toList.map forwardSlash := by
  rw [Entry.display, String.toList_ofList, Text.replaceChar, List.map_eq_flatMap]
  apply List.flatMap_congr
  intro c _
  by_cases hc : c = '\\' <;> simp [forwardSlash, hc]

theorem display_eq_iff : e.display = f.display ↔ e.WrittenAlike f := by
  unfold Entry.WrittenAlike
  rw [← String.toList_inj, toList_display, toList_display, map_eq_map_iff_forall₂]
  simp only [forwardSlash_eq_iff]

theorem display_eq_relative (he : '\\' ∉ e.relative.toList) : e.display = e.relative := by
  have hsame : e.relative.toList.map forwardSlash = e.relative.toList.map id := by
    apply List.map_congr_left
    intro c hc
    have hne : c ≠ '\\' := fun h => he (h ▸ hc)
    simp [forwardSlash, hne]
  rw [← String.toList_inj, toList_display, hsame, List.map_id]

theorem nodup_map_display_iff {es : List Entry} (hes : es.Nodup) :
    (es.map Entry.display).Nodup ↔ WrittenApart (· ∈ es) := by
  rw [List.nodup_map_iff_inj_on hes]
  simp only [display_eq_iff]
  exact ⟨fun h e f he hf => h e he f hf, fun h e he f hf => h e f he hf⟩

theorem WrittenApart.mono {among fewer : Entry → Prop} (h : WrittenApart among)
    (hfewer : ∀ e, fewer e → among e) : WrittenApart fewer :=
  fun e f he hf => h e f (hfewer e he) (hfewer f hf)

theorem eq_of_pathTo_eq (hv : v.top.WellFormed) (he : .visit e ∈ plan.events v)
    (hf : .visit f ∈ plan.events v) (h : plan.pathTo e = plan.pathTo f) : e = f :=
  List.inj_on_of_nodup_map (nodup_paths hv) (mem_scan_entries.mpr he) (mem_scan_entries.mpr hf) h

theorem writtenApart_of_plain (hv : v.top.WellFormed)
    (hplain : ∀ e, .visit e ∈ plan.events v → '\\' ∉ e.relative.toList) :
    WrittenApart fun e => .visit e ∈ plan.events v := by
  intro e f he hf halike
  have hrelative : e.relative = f.relative := by
    rw [← display_eq_relative (hplain e he), ← display_eq_relative (hplain f hf)]
    exact display_eq_iff.mpr halike
  obtain ⟨hne, hnames⟩ := names_of_visit hv he
  obtain ⟨hne', hnames'⟩ := names_of_visit hv hf
  apply eq_of_pathTo_eq hv he hf
  rw [Plan.pathTo, Plan.pathTo, pathOf_eq_join hne hnames, pathOf_eq_join hne' hnames']
  exact congrArg (Path.join plan.root) hrelative

def Plan.Reads (plan : Plan) (v : Volume) (extensions : List String) (e : Entry) : Prop :=
  plan.Selects v extensions e ∧ ∃ text, v.readText (plan.pathTo e) = .ok text

theorem mem_readFiles : e ∈ plan.readFiles v extensions ↔ plan.Reads v extensions e := by
  rw [Plan.readFiles, List.mem_filter, mem_selection, canRead_eq_true_iff]
  rfl

theorem nodup_readFiles (hv : v.top.WellFormed) : (plan.readFiles v extensions).Nodup :=
  (nodup_selection hv).filter _

end Walk

variable {v : Volume} {walk : WalkSettings} {repo : String} {plan : Walk.Plan}
variable {e : Walk.Entry}

/-! ## Reports that list files -/

theorem Complexity.nodup_paths_iff (hv : v.top.WellFormed) (t : Thresholds) :
    ((reportOf v plan t).files.map FileComplexity.path).Nodup ↔
      Walk.WrittenApart (plan.Reads v measuredExtensions) := by
  have hmeasures : Measures v plan t (plan.readFiles v measuredExtensions) (reportOf v plan t) :=
    measures_reportOf t
  obtain ⟨measured, hperm, hmeasured⟩ := hmeasures.files
  have hpaths : (plan.readFiles v measuredExtensions).map Walk.Entry.display =
      measured.map FileComplexity.path := by
    refine map_eq_map_iff_forall₂.mpr (hmeasured.imp ?_)
    rintro e _ ⟨text, -, rfl⟩
    rfl
  rw [(hperm.map _).nodup_iff, ← hpaths, Walk.nodup_map_display_iff (Walk.nodup_readFiles hv)]
  simp only [Walk.mem_readFiles]

theorem Migration.nodup_paths_iff (hv : v.top.WellFormed) (d : Definition) :
    ((reportOf v plan d).files.map AffectedFile.path).Nodup ↔
      Walk.WrittenApart (Affects v plan d) := by
  obtain ⟨affected, hnodup, hmem, hfiles, -⟩ := @exists_affected v plan d hv
  have hpaths : affected.map Walk.Entry.display =
      (reportOf v plan d).files.map AffectedFile.path :=
    map_eq_map_iff_forall₂.mpr (hfiles.imp fun _ _ h => h.path.symm)
  rw [← hpaths, Walk.nodup_map_display_iff hnodup]
  simp only [hmem]

/-! ## Counts by file -/

namespace Performance

/-- The findings in the text of the entry, when it can be read. -/
def findingsIn (v : Volume) (plan : Walk.Plan) (detectors : List Detector) (e : Walk.Entry) :
    List Finding :=
  match v.readText (plan.pathTo e) with
  | .ok text => detectors.flatMap (·.detect
      { content := text.toList
        language := Language.ofExtension (Path.extensionKey e.relative) })
  | .error _ => []

/-- The counts are the numbers of findings in the files that have any, each for itself. -/
def CountsSingly (v : Volume) (plan : Walk.Plan) (detectors : List Detector)
    (counts : List (String × Nat)) : Prop :=
  ∀ path n, (path, n) ∈ counts ↔ ∃ e, plan.Reads v scannedExtensions e ∧ e.display = path ∧
    (findingsIn v plan detectors e).length = n ∧ 0 < n

variable {detectors : List Detector}

theorem map_file_of_tells {path : String} {findings : List Finding} {told : List Issue}
    (h : List.Forall₂ (Tells path) findings told) :
    told.map Issue.file = List.replicate findings.length path := by
  rw [← List.map_const', map_eq_map_iff_forall₂]
  exact h.flip.imp fun _ _ htells => htells.file

theorem map_file_of_reports {issues : List Issue} (h : Reports v plan detectors e issues) :
    issues.map Issue.file = List.replicate (findingsIn v plan detectors e).length e.display := by
  obtain ⟨text, told, hread, htold, harranged⟩ := h
  have hfindings := map_file_of_tells htold
  rw [← List.perm_replicate, findingsIn, hread]
  exact hfindings ▸ harranged.perm.map Issue.file

theorem count_file_flatten {es : List Walk.Entry} {parts : List (List Issue)}
    (h : List.Forall₂ (Reports v plan detectors) es parts) (path : String) :
    (parts.flatten.map Issue.file).count path =
      weightOf Walk.Entry.display (fun e => (findingsIn v plan detectors e).length) es path := by
  induction h with
  | nil => rfl
  | cons hreports _ ih =>
      rw [List.flatten_cons, List.map_append, List.count_append, ih, map_file_of_reports hreports,
        List.count_replicate]
      simp [weightOf]

theorem count_file_eq (detectors : List Detector) (path : String) :
    ((reportOf v plan detectors).issues.map Issue.file).count path =
      weightOf Walk.Entry.display (fun e => (findingsIn v plan detectors e).length)
        (plan.readFiles v scannedExtensions) path := by
  obtain ⟨parts, hissues, hparts⟩ := @exists_issues_reported v plan detectors
  rw [hissues, count_file_flatten hparts]

theorem countsSingly_iff (hv : v.top.WellFormed) (detectors : List Detector) :
    CountsSingly v plan detectors (reportOf v plan detectors).fileCounts ↔
      Walk.WrittenApart fun e => plan.Reads v scannedExtensions e ∧
        findingsIn v plan detectors e ≠ [] := by
  have hread : (plan.readFiles v scannedExtensions).Nodup := Walk.nodup_readFiles hv
  have hsingle := weightOf_single_iff Walk.Entry.display
    (fun e => (findingsIn v plan detectors e).length) hread
  simp only [CountsSingly, Report.fileCounts, mem_tally, count_file_eq]
  simp only [Walk.mem_readFiles] at hsingle
  rw [hsingle]
  simp only [Walk.WrittenApart, Walk.display_eq_iff, List.length_pos_iff]
  constructor
  · intro h e f he hf
    exact h e he.1 f hf.1 he.2 hf.2
  · intro h e he f hf hefound hffound
    exact h e f ⟨he, hefound⟩ ⟨hf, hffound⟩

end Performance

/-! ## Files of a repository -/

/-- Two files of a repository have different paths, and they are written the same exactly when the
paths differ in slashes only.  Each of the reports tells its files apart exactly when no two of them
are written alike, and that is so in every repository without backslashes in its names. -/
theorem reports_tell_apart_iff (hv : v.top.WellFormed) (hrepo : v.isDirectory repo = true)
    (hplan : Walk.Plan.ofSettings repo walk false = .ok plan) (t : Thresholds)
    (detectors : List Detector) {registry : List Migration.Definition} {name : String}
    {d : Migration.Definition} (hname : registry.find? (·.name == name) = some d) :
    (∀ e f, .visit e ∈ plan.events v → .visit f ∈ plan.events v → e ≠ f →
      plan.pathTo e ≠ plan.pathTo f ∧ (e.display = f.display ↔ e.WrittenAlike f)) ∧
    (∃ a, Complexity.analyze v t walk repo = .ok a ∧
      ((a.report.files.map Complexity.FileComplexity.path).Nodup ↔
        Walk.WrittenApart (plan.Reads v Complexity.measuredExtensions))) ∧
    (∃ a, Performance.analyze v detectors walk repo = .ok a ∧
      (Performance.CountsSingly v plan detectors a.report.fileCounts ↔
        Walk.WrittenApart fun e => plan.Reads v Performance.scannedExtensions e ∧
          Performance.findingsIn v plan detectors e ≠ [])) ∧
    (∃ a, Migration.planFrom registry v walk repo name = .ok a ∧
      ((a.report.files.map Migration.AffectedFile.path).Nodup ↔
        Walk.WrittenApart (Migration.Affects v plan d))) ∧
    ((∀ e, .visit e ∈ plan.events v → '\\' ∉ e.relative.toList) →
      Walk.WrittenApart fun e => .visit e ∈ plan.events v) := by
  refine ⟨?_, ⟨_, Complexity.analyze_eq_ok t hrepo hplan, Complexity.nodup_paths_iff hv t⟩,
    ⟨_, Performance.analyze_eq_ok detectors hrepo hplan,
      Performance.countsSingly_iff hv detectors⟩,
    ⟨_, Migration.planFrom_eq_ok hname hrepo hplan, Migration.nodup_paths_iff hv d⟩,
    Walk.writtenApart_of_plain hv⟩
  intro e f he hf hne
  exact ⟨fun hpath => hne (Walk.eq_of_pathTo_eq hv he hf hpath), Walk.display_eq_iff⟩

theorem mixed_told_apart :
    (∃ a, Complexity.analyze mixed {} {} "/w" = .ok a ∧
      (a.report.files.map Complexity.FileComplexity.path).Nodup) ∧
    ∃ a, Migration.planFrom [Migration.letters] mixed {} "/w" "x-to-y" = .ok a ∧
      (a.report.files.map Migration.AffectedFile.path).Nodup := by
  have hrepo : mixed.isDirectory "/w" = true := by cbv
  have hplan : Walk.Plan.ofSettings "/w" {} false = .ok mixedPlan := by cbv
  have hevents : mixedPlan.events mixed = [.visit ⟨["a.js"], false⟩, .visit ⟨["b.js"], false⟩,
      .visit ⟨["c.txt"], false⟩] := by cbv
  have hplain : ∀ e, .visit e ∈ mixedPlan.events mixed → '\\' ∉ e.relative.toList := by
    intro e he
    simp only [hevents, List.mem_cons, Walk.Event.visit.injEq, List.not_mem_nil, or_false] at he
    rcases he with rfl | rfl | rfl <;> decide +kernel
  have hletters : [Migration.letters].find? (·.name == "x-to-y") = some Migration.letters := by cbv
  obtain ⟨-, ⟨a, ha, hpaths⟩, -, ⟨b, hb, hlisted⟩, happart⟩ :=
    reports_tell_apart_iff mixed_wellFormed hrepo hplan {} [] hletters
  have hvisited := happart hplain
  exact ⟨⟨a, ha, hpaths.mpr (hvisited.mono fun e he => he.1.1)⟩,
    ⟨b, hb, hlisted.mpr (hvisited.mono fun e he => he.1.1)⟩⟩

/-- A script in a directory, and one with a backslash in its name. -/
def twins : Volume :=
  { name := "/w"
    top := .directory [
      ("a", .directory [("b.js", .file ⟨#[120]⟩)]), ("a\\b.js", .file ⟨#[120]⟩)] }

def inDirectory : Walk.Entry :=
  ⟨["a", "b.js"], false⟩

def withBackslash : Walk.Entry :=
  ⟨["a\\b.js"], false⟩

theorem twins_wellFormed : twins.top.WellFormed := by
  have ha : (FileTree.directory [("b.js", .file ⟨#[120]⟩)]).WellFormed :=
    .directory (by simp) (by simp [IsSegment]) (by simp [FileTree.WellFormed.file])
  refine .directory ?_ (by simp [IsSegment]) (by simp [ha, FileTree.WellFormed.file])
  have hlt : ("a" : String) < "a\\b.js" := by decide
  simpa using hlt

/-- The two scripts are different files without links, and they have one path in the complexity
report and one count, 2, in the performance report. -/
theorem twins_merged :
    twins.top.WellFormed ∧ twins.top.Linkless ∧ inDirectory ≠ withBackslash ∧
      (∀ e ∈ [inDirectory, withBackslash], .visit e ∈ mixedPlan.events twins ∧
        twins.isFile (mixedPlan.pathTo e) = true ∧ e.display = "a/b.js") ∧
      (∃ a, Complexity.analyze twins {} {} "/w" = .ok a ∧
        ¬ (a.report.files.map Complexity.FileComplexity.path).Nodup) ∧
      ((Performance.analyze twins [.lineSearch "todo" "x" .low false] {} "/w").toOption.map
        fun a => a.report.fileCounts) = some [("a/b.js", 2)] := by
  have hlinks : (FileTree.directory [("b.js", .file ⟨#[120]⟩)]).Linkless :=
    .directory (by simp [FileTree.Linkless.file])
  have hne : inDirectory ≠ withBackslash := by simp [inDirectory, withBackslash]
  have hrepo : twins.isDirectory "/w" = true := by cbv
  have hplan : Walk.Plan.ofSettings "/w" {} false = .ok mixedPlan := by cbv
  have hevents : mixedPlan.events twins = [.visit inDirectory, .visit withBackslash] := by cbv
  have hdisplay : ∀ e ∈ [inDirectory, withBackslash], e.display = "a/b.js" := by
    intro e he
    rcases List.mem_pair.mp he with rfl | rfl <;> decide +kernel
  have hpaths : ∀ e ∈ [inDirectory, withBackslash],
      mixedPlan.pathTo e = "/w/a/b.js" ∨ mixedPlan.pathTo e = "/w/a\\b.js" := by
    intro e he
    rcases List.mem_pair.mp he with rfl | rfl <;> decide +kernel
  have hread : ∀ e ∈ [inDirectory, withBackslash],
      twins.isFile (mixedPlan.pathTo e) = true ∧ twins.readText (mixedPlan.pathTo e) = .ok "x" := by
    intro e he
    rcases hpaths e he with h | h <;> rw [h] <;> constructor <;> cbv
  have hreads : ∀ e ∈ [inDirectory, withBackslash],
      mixedPlan.Reads twins Complexity.measuredExtensions e := by
    intro e he
    have hvisit : .visit e ∈ mixedPlan.events twins := by simpa [hevents] using he
    have hextension : Path.extensionKey e.relative ∈ Complexity.measuredExtensions := by
      rcases List.mem_pair.mp he with rfl | rfl <;> decide +kernel
    exact ⟨⟨hvisit, (hread e he).1, hextension⟩, "x", (hread e he).2⟩
  refine ⟨twins_wellFormed, .directory (by simp [hlinks, FileTree.Linkless.file]), hne,
    fun e he => ⟨(hreads e he).1.1, (hreads e he).1.2.1, hdisplay e he⟩,
    ⟨_, Complexity.analyze_eq_ok {} hrepo hplan, ?_⟩, by cbv⟩
  intro hpaths
  have happart := (Complexity.nodup_paths_iff twins_wellFormed {}).mp hpaths
  have halike : inDirectory.WrittenAlike withBackslash :=
    Walk.display_eq_iff.mp ((hdisplay _ (by simp)).trans (hdisplay _ (by simp)).symm)
  exact hne (happart _ _ (hreads _ (by simp)) (hreads _ (by simp)) halike)

end RepoAudit
