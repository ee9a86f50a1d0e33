import RepoAudit.Complexity.Analysis
import RepoAudit.Proofs.FileTree.Lookup
import RepoAudit.Proofs.Ranking
import RepoAudit.Proofs.Repository.Sources
import Mathlib

/-!
# The parts of a complexity report agree

Scores, priorities, the items of a refactoring and the recommendations are all made from the same
comparisons of metrics with thresholds, at different places.  What a report says at one place fits
what it says at the others.
-/

namespace RepoAudit.Complexity

/-- The metrics that have a threshold. -/
inductive Metric where
  | cyclomatic
  | functionLength
  | nestingDepth
  | duplication

namespace Metric

def all : List Metric :=
  [cyclomatic, functionLength, nestingDepth, duplication]

/-- The metric lies above its threshold. -/
def exceeds (t : Thresholds) (m : Metrics) : Metric → Bool
  | cyclomatic => t.cyclomatic < m.cyclomatic
  | functionLength => t.functionLength < m.functionLength
  | nestingDepth => t.nestingDepth < m.nestingDepth
  | duplication => t.duplication < m.duplication

end Metric

def exceeded (t : Thresholds) (m : Metrics) : List Metric :=
  Metric.all.filter (Metric.exceeds t m)

variable {t : Thresholds} {m : Metrics} {f : FileComplexity} {r : Refactoring}
variable {files : List FileComplexity}

/-! ## Scores and items -/

theorem score_eq (m : Metrics) (t : Thresholds) : score m t = 2 * (exceeded t m).length := by
  have hcomparisons : score m t = 2 * (Metric.all.map (Metric.exceeds t m)).count true := rfl
  rw [hcomparisons, List.count, List.countP_map, exceeded, ← List.countP_eq_length_filter]
  congr 2
  funext metric
  simp

theorem length_filter_excesses (m : Metrics) (t : Thresholds) :
    ((excesses m t).filter Excess.exceeded).length = (exceeded t m).length := by
  have hcomparisons : (excesses m t).map Excess.exceeded = Metric.all.map (Metric.exceeds t m) := rfl
  have hcounts := congrArg (List.countP id) hcomparisons
  rw [List.countP_map, List.countP_map, Function.id_comp, Function.id_comp] at hcounts
  rw [← List.countP_eq_length_filter, hcounts, exceeded, List.countP_eq_length_filter]

/-- The score and the priority are those that the metrics call for. -/
structure Scored (t : Thresholds) (f : FileComplexity) : Prop where
  score : f.score = 2 * (exceeded t f.metrics).length
  priority : f.priority = priorityOf f.score

theorem measureFile_scored (t : Thresholds) (path : String) (content : Text)
    (language : Language) : Scored t (measureFile t path content language) where
  score := score_eq _ _
  priority := rfl

/-- A file has to be refactored. -/
def isFlagged (f : FileComplexity) : Bool :=
  f.priority == .high || f.priority == .critical

/-- The refactoring is that of the file. -/
structure Refactors (t : Thresholds) (f : FileComplexity) (r : Refactoring) : Prop where
  path : r.path = f.path
  priority : r.priority = f.priority
  score : r.score = f.score
  issues : r.issues.length = (exceeded t f.metrics).length
  suggestions : r.suggestions.length = (exceeded t f.metrics).length
  effort : r.effort = "2-4 hours" ↔ 3 ≤ (exceeded t f.metrics).length

theorem refactoring?_of_unflagged (hf : isFlagged f = false) : refactoring? t f = none := by
  rw [refactoring?]
  cases hpriority : f.priority with
  | low => rfl
  | medium => rfl
  | high => simp [isFlagged, hpriority] at hf
  | critical => simp [isFlagged, hpriority] at hf

theorem priorityOf_eq_critical_iff {score : Nat} : priorityOf score = .critical ↔ 6 ≤ score := by
  unfold priorityOf
  split_ifs <;> simp <;> omega

theorem exists_refactoring (hscored : Scored t f) (hf : isFlagged f = true) :
    ∃ r, refactoring? t f = some r ∧ Refactors t f r := by
  obtain ⟨effort, heffort, hlong⟩ : ∃ effort, effort? f.priority = some effort ∧
      (effort = "2-4 hours" ↔ f.priority = .critical) := by
    cases hpriority : f.priority with
    | low => simp [isFlagged, hpriority] at hf
    | medium => simp [isFlagged, hpriority] at hf
    | high => exact ⟨"1-2 hours", rfl, by simp⟩
    | critical => exact ⟨"2-4 hours", rfl, by simp⟩
  rw [refactoring?, heffort]
  refine ⟨_, rfl, rfl, rfl, rfl, ?_, ?_, ?_⟩
  · rw [List.length_map, length_filter_excesses]
  · rw [List.length_map, length_filter_excesses]
  · rw [hlong, hscored.priority, priorityOf_eq_critical_iff, hscored.score]
    omega

/-! ## Reports -/

theorem precedes_eq : precedes = ranksBefore (fun f => f.metrics.cyclomatic) (·.path) := by
  rfl

theorem summarize_counts (files : List FileComplexity) :
    (summarize files).critical + (summarize files).high + (summarize files).medium +
      (summarize files).low = files.length := by
  simp only [summarize]
  induction files with
  | nil => rfl
  | cons f files ih =>
      simp only [List.countP_cons, List.length_cons, ← ih]
      cases f.priority <;> simp <;> omega

/-- The recommendation is to do the refactoring. -/
structure Advises (r : Refactoring) (x : Recommendation) : Prop where
  priority : x.priority = r.priority
  description : x.description = "Refactor " ++ r.path ++ ": " ++ "; ".intercalate r.issues
  effort : x.effort = r.effort

theorem forall₂_recommendations (rs : List Refactoring) :
    List.Forall₂ Advises rs (recommendations rs) := by
  rw [recommendations, List.forall₂_map_right_iff, List.forall₂_same]
  exact fun r _ => ⟨rfl, rfl, rfl⟩

theorem filter_recommendations (rs : List Refactoring) (level : Level) :
    (recommendations rs).filter (fun x => x.priority == level) =
      recommendations (rs.filter fun r => r.priority == level) := by
  rw [recommendations, List.filter_map]
  rfl

/-- What a complexity analysis says of the files, of the refactorings and in its recommendations
fits together. -/
structure Consistent (t : Thresholds) (a : Assessment Report) : Prop where
  sorted : a.report.files.Pairwise fun f g =>
    g.metrics.cyclomatic < f.metrics.cyclomatic ∨
      f.metrics.cyclomatic = g.metrics.cyclomatic ∧ f.path ≤ g.path
  analyzed : a.report.summary.filesAnalyzed = a.report.files.length
  counts : a.report.summary.critical + a.report.summary.high + a.report.summary.medium +
    a.report.summary.low = a.report.summary.filesAnalyzed
  scores : ∀ f ∈ a.report.files, f.score = 2 * (exceeded t f.metrics).length
  refactorings :
    List.Forall₂ (Refactors t) (a.report.files.filter isFlagged) a.report.refactorings
  /-- The most urgent recommendations come first. -/
  urgency : a.recommendations.Pairwise fun x y => x.priority.atLeast y.priority = true
  advice : ∀ level, List.Forall₂ Advises
    (a.report.refactorings.filter fun r => r.priority == level)
    (a.recommendations.filter fun x => x.priority == level)

theorem assess_consistent (hfiles : ∀ f ∈ files, Scored t f) (warnings : List Warning) :
    Consistent t (assess (.ofFiles t files) warnings) := by
  have hscored : ∀ f ∈ files.mergeSort precedes, Scored t f := fun f hf =>
    hfiles f (List.mem_mergeSort.mp hf)
  constructor
  case sorted =>
    have hsorted : (files.mergeSort precedes).Pairwise fun f g => precedes f g = true := by
      rw [precedes_eq]
      exact List.pairwise_mergeSort ranksBefore_trans ranksBefore_total files
    exact hsorted.imp fun h => ranksBefore_iff.mp (precedes_eq ▸ h)
  case analyzed => rfl
  case counts => exact summarize_counts _
  case scores => exact fun f hf => (hscored f hf).score
  case refactorings =>
    exact forall₂_filterMap (fun f _ => refactoring?_of_unflagged) fun f hf =>
      exists_refactoring (hscored f hf)
  case urgency => exact Recommendation.pairwise_byUrgency _
  case advice =>
    intro level
    have hadvice : (assess (.ofFiles t files) warnings).recommendations.filter
        (fun x => x.priority == level) = recommendations
          ((Report.ofFiles t files).refactorings.filter fun r => r.priority == level) :=
      (Recommendation.filter_byUrgency _ level).trans (filter_recommendations _ level)
    rw [hadvice]
    exact forall₂_recommendations _

variable {v : Volume} {walk : WalkSettings} {repo : String} {plan : Walk.Plan}

/-- Every complexity analysis of a directory gives a report whose parts fit together. -/
theorem analyze_consistent (t : Thresholds) (hrepo : v.isDirectory repo = true)
    (hplan : Walk.Plan.ofSettings repo walk false = .ok plan) :
    ∃ a, analyze v t walk repo = .ok a ∧ Consistent t a := by
  have hscan : scanRepository v repo walk false = .ok (Scan.ofEvents repo (plan.events v)) := by
    rw [scanRepository, ensureRepository_eq_ok_iff.mpr hrepo, hplan]
    rfl
  rw [analyze, hscan]
  refine ⟨_, rfl, assess_consistent ?_ _⟩
  intro f hf
  obtain ⟨source, -, rfl⟩ := List.mem_map.mp hf
  exact measureFile_scored t _ _ _

def scripted : Volume :=
  { name := "/w", top := .directory [("a.js", .file "if (a && b) {}".toUTF8)] }

theorem scripted_consistent :
    ∃ a, analyze scripted { cyclomatic := 1 } {} "/w" = .ok a ∧
      Consistent { cyclomatic := 1 } a := by
  have hstart : scripted.start? "/w" = some ([], []) := by decide +kernel
  have hrepo : scripted.isDirectory "/w" = true := by
    rw [Volume.isDirectory, Volume.resolve_of_at? hstart (by simp) rfl (by simp [scripted])]
    rfl
  have hplan : Walk.Plan.ofSettings "/w" {} false = .ok {
      root := "/w", excluded := excludedDirs, ignored := [], includeDirs := false
      follow := true } := by cbv
  exact analyze_consistent { cyclomatic := 1 } hrepo hplan

end RepoAudit.Complexity
