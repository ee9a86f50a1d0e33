import RepoAudit.Proofs.CommandLine.AllAnalyses
import Mathlib.Tactic

/-!
# Plain cells

The categories and the efforts of all advice are words of the program.  Whatever is analyzed, no bar
and no end of a line occurs in them.
-/

namespace RepoAudit

/-- A character that ends a line of Markdown. -/
def isLineEnd (c : Char) : Bool :=
  c == '\n' || c == '\r'

/-- No line ends in the text. -/
def Unbroken (t : Text) : Prop :=
  ∀ c ∈ t, isLineEnd c = false

instance (t : Text) : Decidable (Unbroken t) :=
  List.decidableBAll _ t

def IsPlainCell (s : String) : Prop :=
  ∀ c ∈ s.toList, c ≠ '|' ∧ isLineEnd c = false

instance (s : String) : Decidable (IsPlainCell s) :=
  List.decidableBAll _ s.toList

def PlainAdvice (rs : List Recommendation) : Prop :=
  ∀ r ∈ rs, IsPlainCell r.category ∧ IsPlainCell r.effort

variable {c : Prop} [Decidable c] {rs more : List Recommendation} {r : Recommendation}

@[simp] theorem isPlainCell_ite {s t : String} :
    IsPlainCell (if c then s else t) ↔ if c then IsPlainCell s else IsPlainCell t := by
  split <;> rfl

@[simp] theorem plainAdvice_nil : PlainAdvice [] :=
  List.forall_mem_nil _

@[simp] theorem plainAdvice_cons : PlainAdvice (r :: rs) ↔
    (IsPlainCell r.category ∧ IsPlainCell r.effort) ∧ PlainAdvice rs :=
  List.forall_mem_cons

@[simp] theorem plainAdvice_append :
    PlainAdvice (rs ++ more) ↔ PlainAdvice rs ∧ PlainAdvice more :=
  List.forall_mem_append

@[simp] theorem plainAdvice_ite :
    PlainAdvice (if c then rs else more) ↔ if c then PlainAdvice rs else PlainAdvice more := by
  split <;> rfl

theorem plainAdvice_byUrgency (h : PlainAdvice rs) : PlainAdvice (Recommendation.byUrgency rs) :=
  fun r hr => h r (List.mem_mergeSort.mp hr)

/-! ## The advice of each analysis -/

theorem Structure.plain_recommendations (r : Structure.Report) :
    PlainAdvice (Structure.recommendations r) := by
  unfold Structure.recommendations Structure.testAdvice
  simp +decide

theorem Dependencies.plain_recommendations (r : Dependencies.Report) :
    PlainAdvice (Dependencies.recommendations r) := by
  unfold Dependencies.recommendations
  simp +decide

theorem Licenses.plain_recommendations (r : Licenses.Report) :
    PlainAdvice (Licenses.recommendations r) := by
  unfold Licenses.recommendations Recommendation.informational
  simp +decide

theorem Performance.plain_recommendations (r : Performance.Report) :
    PlainAdvice (Performance.recommendations r) := by
  intro x hx
  obtain ⟨⟨kind, n⟩, -, rfl⟩ := List.mem_map.mp hx
  constructor
  · change IsPlainCell "performance"
    decide
  · change IsPlainCell (kind.effort n)
    unfold IssueKind.effort
    cases kind <;> simp +decide [IssueKind.efforts]

theorem Complexity.plain_recommendations (thresholds : Thresholds) (files : List FileComplexity) :
    PlainAdvice (Complexity.recommendations (Report.ofFiles thresholds files).refactorings) := by
  intro x hx
  obtain ⟨refactoring, hrefactoring, rfl⟩ := List.mem_map.mp hx
  obtain ⟨f, -, hf⟩ := List.mem_filterMap.mp hrefactoring
  obtain ⟨effort, heffort, rfl⟩ := Option.map_eq_some_iff.mp hf
  constructor
  · change IsPlainCell "complexity"
    decide
  · change IsPlainCell effort
    cases hpriority : f.priority <;> rw [hpriority] at heffort <;> cases heffort <;> decide

theorem Review.plain_recommendations (r : Review.Report) :
    PlainAdvice (Review.recommendations r) := by
  unfold Review.recommendations
  cases r.coverage <;> simp +decide

theorem Contributors.plain_recommendations (r : Contributors.Report) :
    PlainAdvice (Contributors.recommendations r) := by
  unfold Contributors.recommendations
  cases r.topReviewer? <;> simp +decide

theorem IssueTracker.plain_recommendations (bottlenecks : List Bottleneck) :
    PlainAdvice (bottlenecks.map recommendation) := by
  intro x hx
  obtain ⟨b, -, rfl⟩ := List.mem_map.mp hx
  change IsPlainCell (remedy b.kind).1 ∧ IsPlainCell (remedy b.kind).2.2
  cases b.kind with
  | signal kind => cases kind <;> decide
  | labelConcentration => decide

theorem Migration.plain_recommendations (p : Migration.Plan) :
    PlainAdvice (Migration.recommendations p) := by
  have heffort : IsPlainCell p.effort.time := by
    cases p.effort <;> decide
  unfold Migration.recommendations
  simp +decide [heffort]

/-! ## The advice of a run -/

variable {v : Volume} {settings : Settings} {repo : String} {a : Assessment Report}

theorem TreeAnalysis.plain_of_analyze {analysis : TreeAnalysis}
    (h : analysis.analyze v settings repo = .ok a) : PlainAdvice a.recommendations := by
  cases analysis
  all_goals
    rw [analyze, map_eq_ok_iff] at h
    obtain ⟨own, h, rfl⟩ := h
    change PlainAdvice own.recommendations
    -- The repository has been read without a failure, and the report is made.
    obtain ⟨_, -, h⟩ := bind_eq_ok_iff.mp h
  case layout =>
    rw [← Except.ok.inj h]
    exact plainAdvice_byUrgency (Structure.plain_recommendations _)
  case complexity =>
    rw [← Except.ok.inj h]
    exact plainAdvice_byUrgency (Complexity.plain_recommendations _ _)
  case dependencies =>
    rw [← Except.ok.inj h]
    exact plainAdvice_byUrgency (Dependencies.plain_recommendations _)
  case licenses =>
    obtain ⟨_, -, h⟩ := bind_eq_ok_iff.mp h
    rw [← Except.ok.inj h]
    exact plainAdvice_byUrgency (Licenses.plain_recommendations _)
  case performance =>
    rw [← Except.ok.inj h]
    exact plainAdvice_byUrgency (Performance.plain_recommendations _)

theorem TreeAnalysis.plain_of_analyzeAll {found : List (Assessment Report)}
    (h : analyzeAll v settings repo = .ok found) : ∀ a ∈ found, PlainAdvice a.recommendations := by
  intro a ha
  rw [analyzeAll_eq, mapM_eq_ok_iff] at h
  have hok : Except.ok a ∈ tasks v settings repo := by
    rw [h]
    exact List.mem_map_of_mem ha
  obtain ⟨analysis, -, hanalysis⟩ := List.mem_map.mp hok
  exact plain_of_analyze hanalysis

theorem CommandLine.plain_of_assessPull {input : String} {lcov : Option String}
    (h : assessPull v input lcov = .ok a) : PlainAdvice a.recommendations := by
  obtain ⟨pull, -, h⟩ := bind_eq_ok_iff.mp h
  cases lcov with
  | none =>
      rw [← Except.ok.inj h]
      exact plainAdvice_byUrgency (Review.plain_recommendations _)
  | some path =>
      obtain ⟨source, -, h⟩ := bind_eq_ok_iff.mp h
      rw [← Except.ok.inj h]
      exact plainAdvice_byUrgency (Review.plain_recommendations _)

theorem Migration.plain_of_analyze {walk : WalkSettings} {name : String} {a : Assessment Plan}
    (h : analyze v walk repo name = .ok a) : PlainAdvice a.recommendations := by
  obtain ⟨d, -, h⟩ := bind_eq_ok_iff.mp h
  obtain ⟨scan, -, h⟩ := bind_eq_ok_iff.mp h
  cases h
  exact plainAdvice_byUrgency (Migration.plain_recommendations _)

theorem CommandLine.plain_of_assessments {now : Timestamp} {command : Command}
    {found : List (Assessment Report)} (h : assessments v now settings command = .ok found) :
    ∀ a ∈ found, PlainAdvice a.recommendations := by
  cases command with
  | tree analysis path =>
      obtain ⟨a, ha, h⟩ := bind_eq_ok_iff.mp h
      cases h
      rw [List.forall_mem_singleton]
      exact TreeAnalysis.plain_of_analyze (mapError_eq_ok_iff.mp ha)
  | all path jobs =>
      exact TreeAnalysis.plain_of_analyzeAll (mapError_eq_ok_iff.mp h)
  | pull input lcov =>
      obtain ⟨a, ha, h⟩ := bind_eq_ok_iff.mp h
      cases h
      rw [List.forall_mem_singleton]
      exact plain_of_assessPull (mapError_eq_ok_iff.mp ha)
  | contributors input =>
      obtain ⟨activity, -, h⟩ := bind_eq_ok_iff.mp h
      cases h
      rw [List.forall_mem_singleton]
      exact plainAdvice_byUrgency (Contributors.plain_recommendations _)
  | issues issues pulls =>
      obtain ⟨⟨issues, pulls⟩, -, h⟩ := bind_eq_ok_iff.mp h
      cases ha : IssueTracker.analyze? settings.issueSettings now issues pulls with
      | none =>
          simp only [ha] at h
          exact absurd h throw_ne_ok
      | some a =>
          simp only [ha] at h
          cases h
          obtain ⟨limit, -, rfl⟩ := Option.map_eq_some_iff.mp ha
          rw [List.forall_mem_singleton]
          exact plainAdvice_byUrgency (IssueTracker.plain_recommendations _)
  | migrate path migration =>
      obtain ⟨a, ha, h⟩ := bind_eq_ok_iff.mp h
      cases h
      rw [List.forall_mem_singleton]
      exact Migration.plain_of_analyze (mapError_eq_ok_iff.mp ha)
  | listMigrations =>
      cases h
      exact List.forall_mem_nil _

end RepoAudit
