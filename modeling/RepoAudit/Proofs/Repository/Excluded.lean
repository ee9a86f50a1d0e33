import RepoAudit.Proofs.FileTree.Excluded
import RepoAudit.Proofs.Repository.Troubles
import RepoAudit.TreeAnalysis
import Mathlib

/-!
# Analyses do not depend on excluded directories

An analysis looks at the entries that a walk visits and, for tooling, at some fixed paths below the
root.  Two repositories that are the same outside excluded directories are walked the same way and
show the same at all these paths, so the analyses of their sources say the same of both.
-/

namespace RepoAudit

/-! ## Reading from two volumes -/

section Congruence

variable {v w : Volume} {source path : String} {s : Scan}

/-- The entries of a scan show the same on both volumes. -/
def Scan.ShownAlike (s : Scan) (v w : Volume) : Prop :=
  ∀ e ∈ s.entries, v.sight (s.pathOf e) = w.sight (s.pathOf e)

theorem readOptional_congr (h : v.sight path = w.sight path) :
    readOptional v source path = readOptional w source path := by
  rw [readOptional, readOptional, Volume.readText_congr h]

theorem Scan.files_congr (h : s.ShownAlike v w) : s.files v = s.files w :=
  List.filter_congr fun e he => Volume.isFile_congr (h e he)

theorem Scan.isDirectory_congr (h : s.ShownAlike v w) {e : Walk.Entry} (he : e ∈ s.entries) :
    v.isDirectory (s.pathOf e) = w.isDirectory (s.pathOf e) :=
  Volume.isDirectory_congr (h e he)

theorem readSources_congr (h : s.ShownAlike v w) {selected : Walk.Entry → Bool} :
    readSources v source s ((s.files v).filter selected) =
      readSources w source s ((s.files w).filter selected) := by
  have hread : ((s.files w).filter selected).map (fun e => (e, readSource v source (s.pathOf e))) =
      ((s.files w).filter selected).map fun e => (e, readSource w source (s.pathOf e)) := by
    apply List.map_congr_left
    intro e he
    have hmem : e ∈ s.entries := List.mem_of_mem_filter (List.mem_of_mem_filter he)
    rw [readSource, readSource, Volume.readText_congr (h e hmem)]
  rw [s.files_congr h, readSources, readSources, hread]

/-- A walk over the path finds the same on both volumes, and what it finds shows the same. -/
structure ScannedAlike (v w : Volume) (path : String) (walk : WalkSettings) (includeDirs : Bool) :
    Prop where
  scan : scanRepository v path walk includeDirs = scanRepository w path walk includeDirs
  shown : ∀ s, scanRepository w path walk includeDirs = .ok s → s.ShownAlike v w

theorem ScannedAlike.bind_congr {walk : WalkSettings} {includeDirs : Bool} {α : Type}
    {f g : Scan → Except Failure α} (h : ScannedAlike v w path walk includeDirs)
    (hrest : ∀ s, scanRepository w path walk includeDirs = .ok s → s.ShownAlike v w → f s = g s) :
    scanRepository v path walk includeDirs >>= f =
      scanRepository w path walk includeDirs >>= g := by
  rw [h.scan]
  cases hscan : scanRepository w path walk includeDirs with
  | error failure => rfl
  | ok s => exact hrest s hscan (h.shown s hscan)

/-- No name on the way points upwards or nowhere, or is that of an excluded directory. -/
def LeadsOutside (file : String) : Prop :=
  ∀ name ∈ Path.segments file, NamesEntry name ∧ isExcludedDir name = false

instance (file : String) : Decidable (LeadsOutside file) :=
  inferInstanceAs (Decidable (∀ name ∈ Path.segments file,
    (name ≠ "" ∧ name ≠ "." ∧ name ≠ "..") ∧ isExcludedDir name = false))

/-- Paths that lead past no excluded directory show the same below a path on both volumes. -/
def RootsAlike (v w : Volume) (repo : String) : Prop :=
  ∀ file, LeadsOutside file → v.sight (Path.join repo file) = w.sight (Path.join repo file)

end Congruence

/-! ## The layout -/

namespace Structure

variable {v w : Volume} {repo : String} {s : Scan}

theorem organization_congr (h : s.ShownAlike v w) : organization v s = organization w s := by
  apply List.foldl_ext
  intro o e he
  rw [Scan.isDirectory_congr h he]

theorem documentation_congr (h : s.ShownAlike v w) : documentation v s = documentation w s := by
  have hdocs : s.entries.foldl (fun d e => d.add (v.isDirectory (s.pathOf e)) e)
      ({} : Documentation) = s.entries.foldl (fun d e => d.add (w.isDirectory (s.pathOf e)) e) {} := by
    apply List.foldl_ext
    intro d e he
    rw [Scan.isDirectory_congr h he]
  have hreadme : (s.entries.find? fun e => isReadme e && !v.isDirectory (s.pathOf e)) =
      s.entries.find? fun e => isReadme e && !w.isDirectory (s.pathOf e) := by
    apply List.find?_congr
    intro e he
    rw [Scan.isDirectory_congr h he]
  simp only [documentation, hdocs, hreadme]
  split
  · rfl
  · split
    · rfl
    next e hfound => rw [readOptional_congr (h e (List.mem_of_find?_eq_some hfound))]

theorem present_congr (h : RootsAlike v w repo) {table : List (String × String)}
    (htable : ∀ row ∈ table, LeadsOutside row.1) : present v repo table = present w repo table := by
  have hfilter : (table.filter fun row => v.isFile (Path.join repo row.1)) =
      table.filter fun row => w.isFile (Path.join repo row.1) :=
    List.filter_congr fun row hrow => Volume.isFile_congr (h row.1 (htable row hrow))
  exact congrArg (List.map Prod.snd) hfilter

theorem integrationServices_congr (h : RootsAlike v w repo) :
    integrationServices v repo = integrationServices w repo := by
  have htable : ∀ row ∈ integrationMarkers, LeadsOutside row.1 := by decide +kernel
  have hfilter : (integrationMarkers.filter fun row => (v.resolve (Path.join repo row.1)).toBool) =
      integrationMarkers.filter fun row => (w.resolve (Path.join repo row.1)).toBool := by
    apply List.filter_congr
    intro row hrow
    rw [Volume.toBool_resolve_eq, Volume.toBool_resolve_eq, h row.1 (htable row hrow)]
  exact congrArg (List.map Prod.snd) hfilter

theorem lookInto_eq (v : Volume) (repo file : String) (look : String → Found) :
    lookInto v repo file look =
      match readOptional v "structure" (Path.join repo file) with
      | .ok (some text) => look text
      | .ok none => ([], [])
      | .error x => ([], [x]) := by
  rfl

theorem lookInto_congr (h : RootsAlike v w repo) {file : String} (hfile : LeadsOutside file)
    (look : String → Found) : lookInto v repo file look = lookInto w repo file look := by
  rw [lookInto_eq, lookInto_eq, readOptional_congr (h file hfile)]

theorem frameworks_congr (h : RootsAlike v w repo) : frameworks v repo = frameworks w repo := by
  have hfiles : ∀ file ∈ ["package.json", "requirements.txt", "setup.py", "pom.xml", "manage.py"],
      LeadsOutside file := by decide +kernel
  have hlook : ∀ file ∈ ["package.json", "requirements.txt", "setup.py", "pom.xml", "manage.py"],
      ∀ look, lookInto v repo file look = lookInto w repo file look := fun file hfile look =>
    lookInto_congr h (hfiles file hfile) look
  have hmanage : v.isFile (Path.join repo "manage.py") = w.isFile (Path.join repo "manage.py") :=
    Volume.isFile_congr (h _ (hfiles _ (by simp)))
  simp only [frameworks, List.map_cons, List.map_nil, hmanage, hlook "package.json" (by simp),
    hlook "requirements.txt" (by simp), hlook "setup.py" (by simp), hlook "pom.xml" (by simp)]

theorem lacksLock_congr (h : RootsAlike v w repo) : lacksLock v repo = lacksLock w repo := by
  have hpackage : LeadsOutside "package.json" := by decide +kernel
  have hlocks : ∀ row ∈ lockFiles, LeadsOutside row.1 := by decide +kernel
  rw [lacksLock, lacksLock, present_congr h hlocks, Volume.isFile_congr (h _ hpackage)]

theorem managersInUse_congr (h : RootsAlike v w repo) :
    managersInUse v repo = managersInUse w repo := by
  have hlocks : ∀ row ∈ lockFiles, LeadsOutside row.1 := by decide +kernel
  have hmanagers : ∀ row ∈ packageManagers, LeadsOutside row.1 := by decide +kernel
  rw [managersInUse, managersInUse, lacksLock_congr h, present_congr h hlocks,
    present_congr h hmanagers]

theorem analyze_congr {walk : WalkSettings} (hscan : ScannedAlike v w repo walk true)
    (hroot : RootsAlike v w repo) : analyze v walk repo = analyze w walk repo := by
  have htools : ∀ row ∈ buildTools, LeadsOutside row.1 := by decide +kernel
  refine hscan.bind_congr fun s _ hs => ?_
  simp only [readSources_congr hs, documentation_congr hs, organization_congr hs,
    frameworks_congr hroot, present_congr hroot htools, managersInUse_congr hroot,
    integrationServices_congr hroot, lacksLock_congr hroot]

end Structure

/-! ## The other analyses of sources -/

section Sources

variable {v w : Volume} {repo : String} {walk : WalkSettings}

theorem Complexity.analyze_congr (h : ScannedAlike v w repo walk false) (thresholds : Thresholds) :
    analyze v thresholds walk repo = analyze w thresholds walk repo := by
  refine h.bind_congr fun s _ hs => ?_
  simp only [readSources_congr hs]

theorem Performance.analyze_congr (h : ScannedAlike v w repo walk false)
    (detectors : List Detector) :
    analyze v detectors walk repo = analyze w detectors walk repo := by
  refine h.bind_congr fun s _ hs => ?_
  simp only [readSources_congr hs]

theorem Migration.analyze_congr (h : ScannedAlike v w repo walk false) (name : String) :
    analyze v walk repo name = analyze w walk repo name := by
  rw [analyze, analyze, planFrom, planFrom]
  cases definitionIn registry name with
  | error failure => rfl
  | ok d =>
      refine h.bind_congr fun s _ hs => ?_
      simp only [readSources_congr hs]

end Sources

/-! ## Repositories that differ in excluded directories -/

section Excluded

variable {v w : Volume} {repo : String} {entries entries' : List (String × FileTree)}

theorem scannedAlike_of_same (h : v.HoldsRepository repo entries)
    (h' : w.HoldsRepository repo entries')
    (hsame : (FileTree.directory entries).withoutExcluded =
      (FileTree.directory entries').withoutExcluded) (walk : WalkSettings) (includeDirs : Bool) :
    ScannedAlike v w repo walk includeDirs := by
  have hensure : ensureRepository v repo = .ok () := ensureRepository_eq_ok_iff.mpr h.isDirectory
  have hensure' : ensureRepository w repo = .ok () := ensureRepository_eq_ok_iff.mpr h'.isDirectory
  cases hplan : Walk.Plan.ofSettings repo walk includeDirs with
  | error e =>
      constructor
      · rw [scanRepository, scanRepository, hensure, hensure', hplan]
        rfl
      · intro s hs
        rw [scanRepository, hensure', hplan] at hs
        cases hs
  | ok plan =>
      have hevents : plan.events v = plan.events w :=
        h.events_eq h' hsame (Walk.ofSettings_cases hplan).1 (Walk.ofSettings_leavesOutFixed hplan)
      constructor
      · rw [scanRepository, scanRepository, hensure, hensure', hplan]
        exact congrArg (fun events => Except.ok (Scan.ofEvents repo events)) hevents
      · intro s hs e he
        rw [scanRepository, hensure', hplan] at hs
        obtain rfl : Scan.ofEvents repo (plan.events w) = s := Except.ok.inj hs
        have hv := h.sight_of_visit hplan (hevents ▸ he)
        have hw := h'.sight_of_visit hplan he
        exact hv.trans (hsame ▸ hw.symm)

theorem rootsAlike_of_same (h : v.HoldsRepository repo entries)
    (h' : w.HoldsRepository repo entries')
    (hsame : (FileTree.directory entries).withoutExcluded =
      (FileTree.directory entries').withoutExcluded) : RootsAlike v w repo := by
  intro file hfile
  have hne : Path.segments file ≠ [] := by simpa [Path.segments] using Text.splitBy_ne_nil _ _
  have hnames : ∀ name ∈ Path.segments file, IsSegment name ∧ NamesEntry name := by
    intro name hname
    have hentry := (hfile name hname).1
    exact ⟨⟨hentry.1, Path.slash_not_mem_of_mem_segments hname⟩, hentry⟩
  have hout : ∀ t : FileTree, t.Outside (Path.segments file) := fun t =>
    .of_names fun name hname => (hfile name hname).2
  have hv := h.sight_join hne hnames (hout _)
  have hw := h'.sight_join hne hnames (hout _)
  rw [Path.ofSegments_segments] at hv hw
  exact hv.trans (hsame ▸ hw.symm)

/-- Two repositories without links that are the same outside the directories with excluded names
get the same layout, complexity and performance analysis and the same plan of any migration. -/
theorem analyses_ignore_excluded (h : v.HoldsRepository repo entries)
    (h' : w.HoldsRepository repo entries')
    (hsame : (FileTree.directory entries).withoutExcluded =
      (FileTree.directory entries').withoutExcluded) (walk : WalkSettings) :
    Structure.analyze v walk repo = Structure.analyze w walk repo ∧
      (∀ thresholds, Complexity.analyze v thresholds walk repo =
        Complexity.analyze w thresholds walk repo) ∧
      (∀ detectors, Performance.analyze v detectors walk repo =
        Performance.analyze w detectors walk repo) ∧
      ∀ name, Migration.analyze v walk repo name = Migration.analyze w walk repo name := by
  have hfiles := scannedAlike_of_same h h' hsame walk false
  have hall := scannedAlike_of_same h h' hsame walk true
  have hroot := rootsAlike_of_same h h' hsame
  exact ⟨Structure.analyze_congr hall hroot, Complexity.analyze_congr hfiles,
    Performance.analyze_congr hfiles, Migration.analyze_congr hfiles⟩

/-! ### An example -/

/-- The sources of `Walk.nested` after another build and with an installed package. -/
def rebuilt : Volume :=
  { name := "r"
    top := .directory [
      ("a", .directory [("build", .directory [("z.js", .file ⟨#[122]⟩)]), ("x", .file ⟨#[]⟩)]),
      ("a.b", .file ⟨#[]⟩),
      ("node_modules", .directory [("m.js", .file ⟨#[109]⟩)])] }

theorem holdsRepository_top (h : (FileTree.directory entries).Ordinary) :
    Volume.HoldsRepository { name := "r", top := .directory entries } "r" entries := by
  have hparts : pathParts "r" = ["r"] := by decide +kernel
  have hstart : Volume.start? { name := "r", top := .directory entries } "r" = some ([], []) := by
    simp [Volume.start?, hparts]
  exact {
    anchored := ⟨"r", [], hparts, by simp, by simp⟩
    wellFormed := h.wellFormed
    resolves := ⟨[], Volume.resolve_of_at? hstart (by simp) rfl (by simp)⟩
    linkless := h.linkless
    undotted := h.undotted }

theorem nested_ordinary : Walk.nested.top.Ordinary := by
  have hbuild : (FileTree.directory [("y", .file ⟨#[]⟩)]).Ordinary :=
    .directory (by simp) (by simp [IsSegment]) (by simp [FileTree.Ordinary.file])
  have ha : (FileTree.directory [
      ("build", .directory [("y", .file ⟨#[]⟩)]), ("x", .file ⟨#[]⟩)]).Ordinary := by
    refine .directory ?_ (by simp [IsSegment]) (by simp [hbuild, FileTree.Ordinary.file])
    have hlt : ("build" : String) < "x" := by decide
    simpa using hlt
  refine .directory ?_ (by simp [IsSegment]) (by simp [ha, FileTree.Ordinary.file])
  have hlt : ("a" : String) < "a.b" := by decide
  simpa using hlt

theorem rebuilt_ordinary : rebuilt.top.Ordinary := by
  have hbuild : (FileTree.directory [("z.js", .file ⟨#[122]⟩)]).Ordinary :=
    .directory (by simp) (by simp [IsSegment]) (by simp [FileTree.Ordinary.file])
  have hmodules : (FileTree.directory [("m.js", .file ⟨#[109]⟩)]).Ordinary :=
    .directory (by simp) (by simp [IsSegment]) (by simp [FileTree.Ordinary.file])
  have ha : (FileTree.directory [
      ("build", .directory [("z.js", .file ⟨#[122]⟩)]), ("x", .file ⟨#[]⟩)]).Ordinary := by
    refine .directory ?_ (by simp [IsSegment]) (by simp [hbuild, FileTree.Ordinary.file])
    have hlt : ("build" : String) < "x" := by decide
    simpa using hlt
  refine .directory ?_ (by simp [IsSegment]) (by simp [ha, hmodules, FileTree.Ordinary.file])
  have hlt : ("a" : String) < "a.b" ∧ ("a" : String) < "node_modules" ∧
      ("a.b" : String) < "node_modules" := by decide
  simpa [and_assoc] using hlt

/-- Neither the build nor the package is seen. -/
theorem rebuilt_analyzed :
    Walk.nested.top ≠ rebuilt.top ∧
      Structure.analyze Walk.nested {} "r" = Structure.analyze rebuilt {} "r" ∧
      ∀ name, Migration.analyze Walk.nested {} "r" name = Migration.analyze rebuilt {} "r" name := by
  have hsame := analyses_ignore_excluded (holdsRepository_top nested_ordinary)
    (holdsRepository_top rebuilt_ordinary) (by cbv) {}
  exact ⟨by simp [Walk.nested, rebuilt], hsame.1, hsame.2.2.2⟩

end Excluded

end RepoAudit
