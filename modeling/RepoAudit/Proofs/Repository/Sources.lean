import RepoAudit.Proofs.FileTree.Sight
import RepoAudit.Proofs.FileTree.Visits
import RepoAudit.Proofs.Lists
import RepoAudit.Proofs.Repository.Troubles
import Mathlib

/-!
# What becomes of the files that a walk visits

An analysis of sources is about the regular files that a walk visits with one of its extensions.  A
file whose text can be read is analysed, and any other costs one warning that names it.  So the
files and the warnings of an analysis together are the files it is about, none left out and none
twice.
-/

namespace RepoAudit

/-! ## Visited entries -/

namespace Walk

variable {v : Volume} {plan : Plan} {names : List String} {w : Warning}

theorem source_of_meet_failed {opened : List Open} {here : Location} {t : FileTree}
    (hmeet : plan.meet v opened here names t = .failed w) : w.source = "walker" := by
  cases t with
  | file bytes =>
      simp only [Plan.meet, Plan.meetLeaf] at hmeet
      split at hmeet <;> cases hmeet
  | directory entries =>
      simp only [Plan.meet, Plan.meetDirectory] at hmeet
      split at hmeet <;> cases hmeet
  | link target =>
      simp only [Plan.meet, Plan.meetLink, Plan.meetLeaf, Plan.meetDirectory] at hmeet
      split at hmeet
      · split at hmeet
        · cases hmeet
          rfl
        · split at hmeet
          · cases hmeet
            rfl
          · split at hmeet <;> cases hmeet
        · split at hmeet <;> cases hmeet
      · split at hmeet <;> cases hmeet

theorem source_of_mem_entryEvents {opened : List Open} {here : Location} {below : List String}
    {t : FileTree} (h : .problem names w ∈ entryEvents v plan opened here below t) :
    w.source = "walker" := by
  induction opened, here, below, t using entry_induction v plan with
  | step opened here below t ih =>
      rcases mem_entryEvents.mp h with ⟨_, h⟩ | ⟨other, hmeet, h⟩ | ⟨real, entries, hmeet, h⟩
      · cases h
      · cases h
        exact source_of_meet_failed hmeet
      · rcases h with hown | hbelow
        · obtain ⟨_, h⟩ := Plan.mem_ownVisit hown
          cases h
        · obtain ⟨entry, hentry, h⟩ := mem_directoryEvents.mp hbelow
          exact ih real entries hmeet entry hentry h

theorem source_of_problem (h : .problem names w ∈ plan.events v) : w.source = "walker" := by
  rcases mem_events h with ⟨error, _, h⟩ | ⟨real, entries, _, h⟩
  · cases h
    rfl
  · obtain ⟨entry, _, h⟩ := mem_directoryEvents.mp h
    exact source_of_mem_entryEvents h

theorem pathOf_inj {root : String} {a b : List String} (ha : a ≠ [] ∧ ∀ name ∈ a, IsSegment name)
    (hb : b ≠ [] ∧ ∀ name ∈ b, IsSegment name) (h : pathOf root a = pathOf root b) : a = b := by
  rw [pathOf_eq_join ha.1 ha.2, pathOf_eq_join hb.1 hb.2] at h
  have hjoined := Path.join_cancel (Path.head?_ofSegments_ne_slash ha.2)
    (Path.head?_ofSegments_ne_slash hb.2) h
  rw [← Path.segments_ofSegments ha.1 ha.2, hjoined, Path.segments_ofSegments hb.1 hb.2]

def Plan.pathTo (plan : Plan) (e : Entry) : String :=
  pathOf plan.root e.names

/-- The entry is visited, is a regular file or leads to one, and has one of the extensions. -/
def Plan.Selects (plan : Plan) (v : Volume) (extensions : List String) (e : Entry) : Prop :=
  .visit e ∈ plan.events v ∧ v.isFile (plan.pathTo e) = true ∧
    Path.extensionKey e.relative ∈ extensions

/-- The selected entries in the order of the walk. -/
def Plan.selection (plan : Plan) (v : Volume) (extensions : List String) : List Entry :=
  ((Scan.ofEvents plan.root (plan.events v)).files v).filter fun e =>
    extensions.contains (Path.extensionKey e.relative)

theorem mem_selection {extensions : List String} {e : Entry} :
    e ∈ plan.selection v extensions ↔ plan.Selects v extensions e := by
  rw [Plan.selection, List.mem_filter, Scan.files, List.mem_filter, mem_scan_entries,
    List.contains_iff_mem, and_assoc]
  rfl

theorem selection_sublist (extensions : List String) : (plan.selection v extensions).Sublist
    (Scan.ofEvents plan.root (plan.events v)).entries :=
  List.filter_sublist.trans List.filter_sublist

/-- No two visited entries have the same path. -/
theorem nodup_paths (hv : v.top.WellFormed) :
    ((Scan.ofEvents plan.root (plan.events v)).entries.map plan.pathTo).Nodup := by
  rw [List.Nodup, List.pairwise_map]
  apply (scan_sorted hv plan.root).imp_of_mem
  intro a b ha hb hbefore hpath
  have hnames : a.names = b.names :=
    pathOf_inj (names_of_visit hv (mem_scan_entries.mp ha))
      (names_of_visit hv (mem_scan_entries.mp hb)) hpath
  rw [Entry.relative, Entry.relative, hnames] at hbefore
  exact hbefore.not_below List.prefix_rfl

theorem nodup_selection (hv : v.top.WellFormed) {extensions : List String} :
    (plan.selection v extensions).Nodup :=
  (selection_sublist extensions).nodup (nodup_paths hv).of_map

def Plan.canRead (plan : Plan) (v : Volume) (e : Entry) : Bool :=
  (v.readText (plan.pathTo e)).toBool

theorem canRead_eq_true_iff {e : Entry} :
    plan.canRead v e = true ↔ ∃ text, v.readText (plan.pathTo e) = .ok text := by
  unfold Plan.canRead
  cases v.readText (plan.pathTo e) <;> simp [Except.toBool]

theorem canRead_eq_false_iff {e : Entry} :
    plan.canRead v e = false ↔ ∃ error, v.readText (plan.pathTo e) = .error error := by
  unfold Plan.canRead
  cases v.readText (plan.pathTo e) <;> simp [Except.toBool]

end Walk

/-! ## Accounting for files -/

/-- The warning tells, in the name of the source, why the file cannot be read. -/
def WarnsOf (v : Volume) (plan : Walk.Plan) (source : String) (e : Walk.Entry) (w : Warning) :
    Prop :=
  ∃ error, v.readText (plan.pathTo e) = .error error ∧
    w = { source, path := some (plan.pathTo e), message := error.message }

/-- The selected files are those that were read and those that the warnings of the source are about,
and the other warnings are those of the walk. -/
structure FilesAccounted (v : Volume) (plan : Walk.Plan) (source : String)
    (extensions : List String) (read unread : List Walk.Entry) (warnings : List Warning) :
    Prop where
  files : ∀ e, e ∈ read ++ unread ↔ plan.Selects v extensions e
  once : (read ++ unread).Nodup
  walkOrder : read.Sublist (Scan.ofEvents plan.root (plan.events v)).entries ∧
    unread.Sublist (Scan.ofEvents plan.root (plan.events v)).entries
  text : ∀ e ∈ read, ∃ text, v.readText (plan.pathTo e) = .ok text
  warned : List.Forall₂ (WarnsOf v plan source) unread
    (warnings.filter fun w => w.source == source)
  /-- No two of these warnings name the same path. -/
  named : (unread.map plan.pathTo).Nodup
  walker : (warnings.filter fun w => w.source == "walker") =
    (Scan.ofEvents plan.root (plan.events v)).warnings
  others : ∀ w ∈ warnings, w.source = source ∨ w.source = "walker"

namespace Walk.Plan

variable (plan : Walk.Plan) (v : Volume) (extensions : List String)

def readFiles : List Walk.Entry :=
  (plan.selection v extensions).filter (plan.canRead v)

def unreadFiles : List Walk.Entry :=
  (plan.selection v extensions).filter fun e => !plan.canRead v e

/-- The texts of the selected files and the warnings, as an analysis reads them. -/
def readings (source : String) : List (Walk.Entry × Text) × List Warning :=
  readSources v source (Scan.ofEvents plan.root (plan.events v)) (plan.selection v extensions)

end Walk.Plan

section Readings

variable {v : Volume} {plan : Walk.Plan} {extensions : List String} {source : String}
variable {e : Walk.Entry}

theorem readSource_of_ok {text : String} (hread : v.readText (plan.pathTo e) = .ok text) :
    readSource v source ((Scan.ofEvents plan.root (plan.events v)).pathOf e) = .ok text := by
  change (v.readText (plan.pathTo e)).mapError _ = _
  rw [hread]
  rfl

theorem readSource_of_error {error : ReadError}
    (hread : v.readText (plan.pathTo e) = .error error) :
    readSource v source ((Scan.ofEvents plan.root (plan.events v)).pathOf e) =
      .error { source, path := some (plan.pathTo e), message := error.message } := by
  change (v.readText (plan.pathTo e)).mapError _ = _
  rw [hread]
  rfl

theorem forall₂_readings_texts (source : String) :
    List.Forall₂ (fun e reading => reading.1 = e ∧
        ∃ text, v.readText (plan.pathTo e) = .ok text ∧ reading.2 = text.toList)
      (plan.readFiles v extensions) (plan.readings v extensions source).1 := by
  simp only [Walk.Plan.readFiles, Walk.Plan.readings, readSources, List.filterMap_map]
  apply forall₂_filterMap
  · intro e _ he
    obtain ⟨error, hread⟩ := Walk.canRead_eq_false_iff.mp he
    simp [readSource_of_error hread, Except.toOption]
  · intro e _ he
    obtain ⟨text, hread⟩ := Walk.canRead_eq_true_iff.mp he
    simp [readSource_of_ok hread, hread, Except.toOption]

theorem forall₂_readings_warnings (source : String) :
    List.Forall₂ (WarnsOf v plan source) (plan.unreadFiles v extensions)
      (plan.readings v extensions source).2 := by
  simp only [Walk.Plan.unreadFiles, Walk.Plan.readings, readSources, List.filterMap_map]
  apply forall₂_filterMap
  · intro e _ he
    obtain ⟨text, hread⟩ := Walk.canRead_eq_true_iff.mp (by simpa using he)
    simp [readSource_of_ok hread]
  · intro e _ he
    obtain ⟨error, hread⟩ := Walk.canRead_eq_false_iff.mp (by simpa using he)
    simp [readSource_of_error hread, WarnsOf, hread]

theorem source_of_mem_readings {w : Warning} (hw : w ∈ (plan.readings v extensions source).2) :
    w.source = source := by
  obtain ⟨e, -, error, -, rfl⟩ := mem_readSources_warnings.mp hw
  rfl

theorem source_of_mem_scan {w : Warning}
    (hw : w ∈ (Scan.ofEvents plan.root (plan.events v)).warnings) : w.source = "walker" := by
  obtain ⟨names, hevent⟩ := mem_scan_warnings.mp hw
  exact Walk.source_of_problem hevent

theorem filter_source {warnings : List Warning} {own : String}
    (hown : ∀ w ∈ warnings, w.source = own) (asked : String) :
    (warnings.filter fun w => w.source == asked) = if own = asked then warnings else [] := by
  split
  next heq =>
    apply List.filter_eq_self.mpr
    intro w hw
    simp [hown w hw, heq]
  next hne =>
    apply List.filter_eq_nil_iff.mpr
    intro w hw
    simp [hown w hw, hne]

/-- No two of the files that cannot be read have the same path. -/
theorem nodup_unreadPaths (hv : v.top.WellFormed) :
    ((plan.unreadFiles v extensions).map plan.pathTo).Nodup :=
  ((List.filter_sublist.trans (Walk.selection_sublist extensions)).map plan.pathTo).nodup
    (Walk.nodup_paths hv)

theorem readings_account (hv : v.top.WellFormed) (hsource : source ≠ "walker") :
    FilesAccounted v plan source extensions (plan.readFiles v extensions)
      (plan.unreadFiles v extensions)
      ((Scan.ofEvents plan.root (plan.events v)).warnings ++
        (plan.readings v extensions source).2) := by
  have hselection : (plan.selection v extensions).Nodup := Walk.nodup_selection hv
  have hunread : (plan.unreadFiles v extensions).Sublist
      (Scan.ofEvents plan.root (plan.events v)).entries :=
    List.filter_sublist.trans (Walk.selection_sublist extensions)
  constructor
  case files =>
    intro e
    rw [← Walk.mem_selection, List.mem_append, Walk.Plan.readFiles, Walk.Plan.unreadFiles,
      List.mem_filter, List.mem_filter]
    cases plan.canRead v e <;> simp
  case once =>
    apply (hselection.filter _).append (hselection.filter _)
    intro e hread hunread
    have hcan := (List.mem_filter.mp hread).2
    have hcannot := (List.mem_filter.mp hunread).2
    simp [hcan] at hcannot
  case walkOrder =>
    exact ⟨List.filter_sublist.trans (Walk.selection_sublist extensions), hunread⟩
  case text =>
    intro e he
    exact Walk.canRead_eq_true_iff.mp (List.mem_filter.mp he).2
  case warned =>
    rw [List.filter_append, filter_source fun _ => source_of_mem_scan, if_neg hsource.symm,
      filter_source fun _ => source_of_mem_readings, if_pos rfl, List.nil_append]
    exact forall₂_readings_warnings source
  case named => exact nodup_unreadPaths hv
  case walker =>
    rw [List.filter_append, filter_source fun _ => source_of_mem_scan, if_pos rfl,
      filter_source fun _ => source_of_mem_readings, if_neg hsource, List.append_nil]
  case others =>
    intro w hw
    rcases List.mem_append.mp hw with hwalk | hread
    · exact .inr (source_of_mem_scan hwalk)
    · exact .inl (source_of_mem_readings hread)

end Readings

/-! ## Scans -/

variable {v : Volume} {walk : WalkSettings} {repo : String} {plan : Walk.Plan}

theorem scanRepository_eq_ok {includeDirs : Bool} (hrepo : v.isDirectory repo = true)
    (hplan : Walk.Plan.ofSettings repo walk includeDirs = .ok plan) :
    scanRepository v repo walk includeDirs = .ok (.ofEvents plan.root (plan.events v)) := by
  rw [scanRepository, ensureRepository_eq_ok_iff.mpr hrepo, hplan, (Walk.ofSettings_cases hplan).1]
  rfl

/-! ## A small repository -/

/-- A script that is not text, one that is, and a file of another kind. -/
def mixed : Volume :=
  { name := "/w"
    top := .directory [
      ("a.js", .file ⟨#[255]⟩), ("b.js", .file "x".toUTF8), ("c.txt", .file "x".toUTF8)] }

def mixedPlan : Walk.Plan :=
  { root := "/w", excluded := excludedDirs, ignored := [], includeDirs := false, follow := true }

theorem mixed_wellFormed : mixed.top.WellFormed := by
  refine .directory ?_ (by simp [IsSegment]) (by simp [FileTree.WellFormed.file])
  have hlt : ("a.js" : String) < "b.js" ∧ ("a.js" : String) < "c.txt" ∧
      ("b.js" : String) < "c.txt" := by decide
  simpa [and_assoc] using hlt

end RepoAudit
