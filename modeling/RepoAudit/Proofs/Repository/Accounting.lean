import RepoAudit.Complexity.Analysis
import RepoAudit.Proofs.Performance.Findings
import Mathlib

/-!
# Every scanned file is accounted for

The complexity and the performance analysis count each file they are about exactly once: as a file
of the report, or as a warning that its text could not be read.
-/

namespace RepoAudit

variable {v : Volume} {walk : WalkSettings} {repo : String} {plan : Walk.Plan}

namespace Complexity

/-- The report has one file for each that was read, measured on the text of that file. -/
structure Measures (v : Volume) (plan : Walk.Plan) (t : Thresholds) (read : List Walk.Entry)
    (r : Report) : Prop where
  filesAnalyzed : r.summary.filesAnalyzed = read.length
  files : ∃ measured, r.files.Perm measured ∧
    List.Forall₂ (fun e f => ∃ text, v.readText (plan.pathTo e) = .ok text ∧
      f = measureFile t e.display text.toList
        (Language.ofExtension (Path.extensionKey e.relative))) read measured

def reportOf (v : Volume) (plan : Walk.Plan) (t : Thresholds) : Report :=
  .ofFiles t ((plan.readings v measuredExtensions "complexity").1.map fun (e, content) =>
    measureFile t e.display content (Language.ofExtension (Path.extensionKey e.relative)))

theorem analyze_eq_ok (t : Thresholds) (hrepo : v.isDirectory repo = true)
    (hplan : Walk.Plan.ofSettings repo walk false = .ok plan) :
    analyze v t walk repo = .ok (assess (reportOf v plan t)
      ((Scan.ofEvents plan.root (plan.events v)).warnings ++
        (plan.readings v measuredExtensions "complexity").2)) := by
  rw [analyze, scanRepository_eq_ok hrepo hplan]
  rfl

theorem measures_reportOf (t : Thresholds) :
    Measures v plan t (plan.readFiles v measuredExtensions) (reportOf v plan t) := by
  constructor
  case filesAnalyzed =>
    change (List.mergeSort _ _).length = _
    rw [List.length_mergeSort, List.length_map, (forall₂_readings_texts "complexity").length_eq]
  case files =>
    refine ⟨_, List.mergeSort_perm _ _, ?_⟩
    rw [List.forall₂_map_right_iff]
    apply (forall₂_readings_texts "complexity").imp
    rintro e ⟨_, _⟩ ⟨rfl, text, hread, rfl⟩
    exact ⟨text, hread, rfl⟩

end Complexity

end RepoAudit
