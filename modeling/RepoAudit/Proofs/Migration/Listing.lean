import RepoAudit.Migration.Plan
import RepoAudit.Proofs.Pattern.Matches
import RepoAudit.Proofs.Repository.Sources
import RepoAudit.Proofs.Tally
import RepoAudit.Proofs.Text.ByteOrder
import Mathlib

/-!
# The files of a migration plan

A plan lists the files in which a marker of its migration occurs, whatever registry the migration is
taken from.
-/

namespace RepoAudit

namespace Migration

variable {v : Volume} {walk : WalkSettings} {repo : String} {plan : Walk.Plan} {d : Definition}
variable {e : Walk.Entry}

/-! ## One file -/

/-- The file is about a migration, and one of its markers occurs in the text. -/
def Affects (v : Volume) (plan : Walk.Plan) (d : Definition) (e : Walk.Entry) : Prop :=
  plan.Selects v d.extensions e ∧
    ∃ text, v.readText (plan.pathTo e) = .ok text ∧
      ∃ m ∈ d.markers, m.pattern.occursIn text.toList = true

/-- The markers of the file are those that occur in its text, and all their occurrences count. -/
structure Describes (v : Volume) (plan : Walk.Plan) (d : Definition) (e : Walk.Entry)
    (f : AffectedFile) : Prop where
  path : f.path = e.display
  marks : ∃ text, v.readText (plan.pathTo e) = .ok text ∧
    f.labels = (d.markers.filter fun m => m.pattern.occursIn text.toList).map Marker.label ∧
    f.occurrences = (d.markers.map fun m => m.pattern.count text.toList).sum

theorem occurrences_eq (t : Text) :
    d.occurrences t = (d.markers.filter fun m => m.pattern.occursIn t).map
      fun m => (m, m.pattern.count t) := by
  rw [Definition.occurrences, List.filter_map]
  congr 1
  apply List.filter_congr
  intro m _
  rw [Bool.eq_iff_iff, ← Pattern.count_pos_iff]
  simp

theorem affectedFile?_eq_none (path : String) {t : Text}
    (h : ∀ m ∈ d.markers, ¬ m.pattern.occursIn t = true) : affectedFile? d path t = none := by
  have hfound : d.occurrences t = [] := by
    rw [occurrences_eq, List.filter_eq_nil_iff.mpr h]
    rfl
  simp [affectedFile?, hfound]

theorem affectedFile?_eq_some (path : String) {t : Text} {m : Marker} (hm : m ∈ d.markers)
    (hoccurs : m.pattern.occursIn t = true) :
    affectedFile? d path t = some {
      path
      labels := (d.markers.filter fun m => m.pattern.occursIn t).map Marker.label
      occurrences := (d.markers.map fun m => m.pattern.count t).sum } := by
  have hfound : (d.occurrences t).isEmpty = false := by
    rw [occurrences_eq, List.isEmpty_map, List.isEmpty_eq_false_iff]
    exact List.ne_nil_of_mem (List.mem_filter.mpr ⟨hm, hoccurs⟩)
  have hlabels : (d.occurrences t).map (fun found => found.1.label) =
      (d.markers.filter fun m => m.pattern.occursIn t).map Marker.label := by
    rw [occurrences_eq, List.map_map]
    rfl
  have hsum : sumOf ((d.occurrences t).map Prod.snd) =
      (d.markers.map fun m => m.pattern.count t).sum := by
    calc
      sumOf ((d.occurrences t).map Prod.snd) =
          ((d.markers.map fun m => (m, m.pattern.count t)).map Prod.snd).sum :=
        sum_filter_pos _
      _ = (d.markers.map fun m => m.pattern.count t).sum := by
        rw [List.map_map]
        rfl
  simp [affectedFile?, hfound, hlabels, hsum]

/-! ## The listed files -/

def marked (v : Volume) (plan : Walk.Plan) (d : Definition) (e : Walk.Entry) : Bool :=
  (v.readText (plan.pathTo e)).toOption.any fun text =>
    d.markers.any (·.pattern.occursIn text.toList)

theorem marked_iff : marked v plan d e = true ↔
    ∃ text, v.readText (plan.pathTo e) = .ok text ∧
      ∃ m ∈ d.markers, m.pattern.occursIn text.toList = true := by
  unfold marked
  cases v.readText (plan.pathTo e) <;> simp [Except.toOption]

def filesOf (v : Volume) (plan : Walk.Plan) (d : Definition) : List AffectedFile :=
  (plan.readings v d.extensions "migration").1.filterMap fun (e, content) =>
    affectedFile? d e.display content

theorem forall₂_filesOf : List.Forall₂ (Describes v plan d)
    ((plan.selection v d.extensions).filter (marked v plan d)) (filesOf v plan d) := by
  simp only [filesOf, Walk.Plan.readings, readSources, List.filterMap_map, List.filterMap_filterMap]
  apply forall₂_filterMap
  · intro e _ he
    cases hread : v.readText (plan.pathTo e) with
    | error error => simp [readSource_of_error hread, Except.toOption]
    | ok text =>
        have hnone : affectedFile? d e.display text.toList = none := by
          apply affectedFile?_eq_none
          intro m hm hoccurs
          exact Bool.false_ne_true (he.symm.trans (marked_iff.mpr ⟨text, hread, m, hm, hoccurs⟩))
        simp [readSource_of_ok hread, Except.toOption, hnone]
  · intro e _ he
    obtain ⟨text, hread, m, hm, hoccurs⟩ := marked_iff.mp he
    have hsome := affectedFile?_eq_some e.display hm hoccurs
    refine ⟨_, Eq.trans ?_ hsome, rfl, text, hread, rfl, rfl⟩
    simp [readSource_of_ok hread, Except.toOption]

def reportOf (v : Volume) (plan : Walk.Plan) (d : Definition) : Plan :=
  ⟨d, (filesOf v plan d).mergeSort fun a b => nameLe a.path b.path⟩

theorem planFrom_eq_ok {registry : List Definition} {name : String}
    (hname : registry.find? (·.name == name) = some d) (hrepo : v.isDirectory repo = true)
    (hplan : Walk.Plan.ofSettings repo walk false = .ok plan) :
    planFrom registry v walk repo name = .ok (assess (reportOf v plan d)
      ((Scan.ofEvents plan.root (plan.events v)).warnings ++
        (plan.readings v d.extensions "migration").2)) := by
  rw [planFrom, definitionIn, hname, scanRepository_eq_ok hrepo hplan]
  rfl

/-- The plan lists the affected files, in the order of their paths, and what it says of the effort,
the steps and the advice follows. -/
structure Lists (v : Volume) (plan : Walk.Plan) (d : Definition) (a : Assessment Plan) :
    Prop where
  definition : a.report.definition = d
  files : ∃ affected : List Walk.Entry, affected.Nodup ∧
    (∀ e, e ∈ affected ↔ Affects v plan d e) ∧
    List.Forall₂ (Describes v plan d) affected a.report.files ∧
    a.report.effort = .ofFileCount affected.length
  sorted : a.report.files.Pairwise fun f g => f.path ≤ g.path
  steps : a.report.steps.map Prod.fst = d.steps
  numbered : a.report.steps.map Prod.snd = List.range' 1 d.steps.length
  advice : a.recommendations = [] ↔ a.report.files = []

theorem exists_affected (hv : v.top.WellFormed) :
    ∃ affected : List Walk.Entry, affected.Nodup ∧
      (∀ e, e ∈ affected ↔ Affects v plan d e) ∧
      List.Forall₂ (Describes v plan d) affected (reportOf v plan d).files ∧
      (reportOf v plan d).effort = .ofFileCount affected.length := by
  have hperm : (reportOf v plan d).files.Perm (filesOf v plan d) := List.mergeSort_perm _ _
  -- The entries follow the files into the order of the paths.
  obtain ⟨affected, hentries, hfiles⟩ :
      Relation.Comp List.Perm (List.Forall₂ (Describes v plan d))
        ((plan.selection v d.extensions).filter (marked v plan d)) (reportOf v plan d).files := by
    rw [← List.forall₂_comp_perm_eq_perm_comp_forall₂]
    exact ⟨_, forall₂_filesOf, hperm.symm⟩
  refine ⟨affected, ?_, ?_, hfiles, ?_⟩
  · exact hentries.nodup_iff.mp ((Walk.nodup_selection hv).filter _)
  · intro e
    rw [← hentries.mem_iff, List.mem_filter, Walk.mem_selection, marked_iff]
    rfl
  · rw [Plan.effort, hfiles.length_eq]

def letters : Definition where
  name := "x-to-y"
  source := "x"
  target := "y"
  extensions := ["js"]
  markers := [{ label := "letter", pattern := .literal "x" }]
  steps := genericSteps "x" "y"

end Migration
end RepoAudit
