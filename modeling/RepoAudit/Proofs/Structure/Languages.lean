import RepoAudit.Proofs.Ranking
import RepoAudit.Proofs.Repository.Sources
import RepoAudit.Proofs.Structure.Troubles
import RepoAudit.Proofs.Tally
import Mathlib

/-!
# Counts of a layout

All the counts of a layout come from one scan.  A file with the extension of a language counts for
that language with its lines, or costs a warning when it cannot be read, and every path of the scan
is a directory or counts as a file.  The manifests and the readme are read once more for what they
tell, so one that cannot be read is warned of again in the same words.
-/

namespace RepoAudit

deriving instance DecidableEq for Warning

namespace Language

theorem mem_all (language : Language) : language ∈ all := by
  cases language <;> decide

theorem name_injective : Function.Injective name := by
  have hnodup : (all.map name).Nodup := by decide +kernel
  intro a b h
  exact List.inj_on_of_nodup_map hnodup (mem_all a) (mem_all b) h

end Language

namespace Structure

/-- The extensions that tell a language. -/
def recognizedExtensions : List String :=
  Language.all.flatMap Language.extensions

theorem languageOf_ne_unknown_iff {e : Walk.Entry} :
    languageOf e ≠ .unknown ↔ Path.extensionKey e.relative ∈ recognizedExtensions := by
  rw [languageOf, Language.ofPath, Path.extensionKey]
  cases Path.extension? e.relative with
  | none => decide +kernel
  | some ext =>
      simp only [Language.ofExtension, recognizedExtensions, List.mem_flatMap]
      cases hfound : Language.all.find?
          (·.extensions.contains (String.ofList (Text.lower ext.toList))) with
      | none =>
          rw [List.find?_eq_none] at hfound
          simpa using hfound
      | some language =>
          have hext : String.ofList (Text.lower ext.toList) ∈ language.extensions := by
            simpa using List.find?_some hfound
          refine iff_of_true ?_ ⟨language, language.mem_all, hext⟩
          rintro rfl
          cases hext

/-! ## Statistics of sources -/

section Statistics

variable (sources : List Source)

end Statistics

/-! ## Counted files -/

section Counts

variable {v : Volume} {walk : WalkSettings} {repo : String} {plan : Walk.Plan} {w : Warning}

/-- The number of lines of the file of an entry, when it can be read. -/
def linesOf (v : Volume) (plan : Walk.Plan) (e : Walk.Entry) : Nat :=
  match v.readText (plan.pathTo e) with
  | .ok text => (Text.lines text.toList).length
  | .error _ => 0

def sourceAt (v : Volume) (plan : Walk.Plan) (e : Walk.Entry) : Source :=
  { path := e.display, language := languageOf e, lines := linesOf v plan e }

/-- The readable files with the extension of a language. -/
def sourcesOf (v : Volume) (plan : Walk.Plan) : List Source :=
  (plan.readFiles v recognizedExtensions).map (sourceAt v plan)

theorem filter_known_eq_selection :
    (((Scan.ofEvents plan.root (plan.events v)).files v).filter fun e =>
      languageOf e != .unknown) = plan.selection v recognizedExtensions := by
  apply List.filter_congr
  intro e _
  rw [Bool.eq_iff_iff, bne_iff_ne, List.contains_iff_mem]
  exact languageOf_ne_unknown_iff

theorem sources_eq : (plan.readings v recognizedExtensions "structure").1.map
      (fun (e, content) => sourceOf e content) = sourcesOf v plan := by
  rw [sourcesOf, map_eq_map_iff_forall₂]
  apply (forall₂_readings_texts "structure").flip.imp
  rintro ⟨_, _⟩ e ⟨rfl, text, hread, rfl⟩
  simp [sourceOf, sourceAt, linesOf, hread]

/-! ### Warnings -/

/-- The report is drawn up from the scan and the files that were read. -/
structure DrawnUp (v : Volume) (plan : Walk.Plan) (a : Assessment Report) : Prop where
  languages : a.report.languages = languageStats (sourcesOf v plan)
  codeFiles : a.report.codeFiles = ((sourcesOf v plan).filter fun s => s.language.isCode).length
  testFiles : a.report.testFiles =
    ((sourcesOf v plan).filter fun s => s.language.isCode).countP fun s => isTestPath s.path
  organization : a.report.organization = organization v (.ofEvents plan.root (plan.events v))
  warnings : a.warnings = (Scan.ofEvents plan.root (plan.events v)).warnings ++
    (plan.readings v recognizedExtensions "structure").2 ++
    (documentation v (Scan.ofEvents plan.root (plan.events v))).2 ++ (frameworks v plan.root).2
  documentation :
    a.report.documentation = (documentation v (.ofEvents plan.root (plan.events v))).1

theorem exists_drawnUp (hrepo : v.isDirectory repo = true)
    (hplan : Walk.Plan.ofSettings repo walk true = .ok plan) :
    ∃ a, analyze v walk repo = .ok a ∧ DrawnUp v plan a := by
  obtain rfl : plan.root = repo := (Walk.ofSettings_cases hplan).1
  have hreadings : plan.readings v recognizedExtensions "structure" =
      readSources v "structure" (.ofEvents plan.root (plan.events v))
        (((Scan.ofEvents plan.root (plan.events v)).files v).filter fun e =>
          languageOf e != .unknown) := by
    rw [filter_known_eq_selection]
    rfl
  rw [analyze, scanRepository_eq_ok hrepo hplan]
  refine ⟨_, rfl, ?_⟩
  constructor
  case languages =>
    rw [← sources_eq, hreadings]
    rfl
  case codeFiles =>
    rw [← sources_eq, hreadings]
    rfl
  case testFiles =>
    rw [← sources_eq, hreadings]
    rfl
  case organization => rfl
  case warnings =>
    rw [hreadings]
    rfl
  case documentation => rfl

end Counts

end Structure
end RepoAudit
