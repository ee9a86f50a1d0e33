import RepoAudit.Proofs.CommandLine.Output
import RepoAudit.Proofs.Licenses.Troubles
import RepoAudit.Proofs.Lists
import RepoAudit.Proofs.WorkerPool
import Mathlib

/-!
# All analyses at once

The analyses of a tree can be asked for together or one by one.  Together they succeed when each
does alone, with the same assessments, and it makes no difference how many workers they are shared
out among, or in which order these get to them.
-/

namespace RepoAudit

/-! ## Why an analysis of a tree fails -/

/-- The failure to get at the repository, or else that of a pattern. -/
def RootFailure (v : Volume) (walk : WalkSettings) (repo : String) (f : Failure) : Prop :=
  ensureRepository v repo = .error f ∨
    ensureRepository v repo = .ok () ∧
      ∃ e, Walk.readPatterns walk.ignorePatterns = .error e ∧ f = .badPattern e

variable {v : Volume} {walk : WalkSettings} {settings : Settings} {repo : String} {f f' : Failure}

theorem RootFailure.unique (h : RootFailure v walk repo f) (h' : RootFailure v walk repo f') :
    f = f' := by
  rcases h with h | ⟨hok, e, he, rfl⟩ <;> rcases h' with h' | ⟨hok', e', he', rfl⟩
  · exact Except.error.inj (h.symm.trans h')
  · simp [h] at hok'
  · simp [h'] at hok
  · rw [Except.error.inj (he.symm.trans he')]

theorem rootFailure_of_scan {includeDirs : Bool} {ρ : Type} {rest : Scan → Except Failure ρ}
    (hrest : ∀ scan, ∃ a, rest scan = .ok a)
    (h : scanRepository v repo walk includeDirs >>= rest = .error f) :
    RootFailure v walk repo f := by
  rw [scanRepository, Walk.Plan.ofSettings] at h
  cases hensure : ensureRepository v repo with
  | error e =>
      rw [hensure] at h
      exact .inl (hensure.trans (congrArg _ (Except.error.inj h)))
  | ok =>
      refine .inr ⟨hensure, ?_⟩
      rw [hensure] at h
      cases hread : Walk.readPatterns walk.ignorePatterns with
      | error e =>
          rw [hread] at h
          exact ⟨e, rfl, (Except.error.inj h).symm⟩
      | ok globs =>
          rw [hread] at h
          obtain ⟨a, ha⟩ := hrest (Scan.ofEvents repo (Walk.Plan.events _ v))
          exact absurd (ha.symm.trans h) (by simp)

theorem rootFailure_of_ensure {ρ : Type} {rest : Except Failure ρ}
    (hrest : v.isDirectory repo = true → ∃ a, rest = .ok a)
    (h : (ensureRepository v repo >>= fun _ => rest) = .error f) : RootFailure v walk repo f := by
  cases hensure : ensureRepository v repo with
  | error e =>
      rw [hensure] at h
      exact .inl (hensure.trans (congrArg _ (Except.error.inj h)))
  | ok =>
      obtain ⟨a, ha⟩ := hrest (ensureRepository_eq_ok_iff.mp hensure)
      rw [hensure, ha] at h
      cases h

theorem map_eq_error_iff {α β ε : Type} {x : Except ε α} {g : α → β} {e : ε} :
    x.map g = .error e ↔ x = .error e := by
  cases x <;> simp [Except.map]

namespace TreeAnalysis

variable {analysis : TreeAnalysis}

theorem rootFailure_of_error (h : analysis.analyze v settings repo = .error f) :
    RootFailure v settings.walk repo f := by
  cases analysis with
  | layout => exact rootFailure_of_scan (fun _ => ⟨_, rfl⟩) (map_eq_error_iff.mp h)
  | complexity => exact rootFailure_of_scan (fun _ => ⟨_, rfl⟩) (map_eq_error_iff.mp h)
  | performance => exact rootFailure_of_scan (fun _ => ⟨_, rfl⟩) (map_eq_error_iff.mp h)
  | dependencies => exact rootFailure_of_ensure (fun _ => ⟨_, rfl⟩) (map_eq_error_iff.mp h)
  | licenses =>
      refine rootFailure_of_ensure (fun hdirectory => ?_) (map_eq_error_iff.mp h)
      obtain ⟨file, hfile⟩ := Licenses.exists_licenseFile? hdirectory
      rw [hfile]
      exact ⟨_, rfl⟩

/-- What the analyses come to, in the order of reports. -/
def tasks (v : Volume) (settings : Settings) (repo : String) :
    List (Except Failure (Assessment Report)) :=
  all.map fun analysis => analysis.analyze v settings repo

/-- The analyses put together for all reports at once are those of the single ones. -/
theorem tasks_eq (v : Volume) (settings : Settings) (repo : String) :
    (Analyzer.ofSettings settings).map (fun analyze => analyze v repo) = tasks v settings repo :=
  rfl

theorem analyzeAll_eq (v : Volume) (settings : Settings) (repo : String) :
    analyzeAll v settings repo = (tasks v settings repo).mapM id := by
  rw [analyzeAll, ← tasks_eq, List.mapM_map]
  rfl

theorem analyzeAll_eq_ok_iff {found : List (Assessment Report)} :
    analyzeAll v settings repo = .ok found ↔
      List.Forall₂ (fun analysis a => analysis.analyze v settings repo = .ok a) all found := by
  rw [analyzeAll_eq, mapM_eq_ok_iff, tasks, map_eq_map_iff_forall₂]

theorem mem_all (analysis : TreeAnalysis) : analysis ∈ all := by
  cases analysis <;> simp [all]

theorem tasks_fail_alike {e e' : Failure} (h : .error e ∈ tasks v settings repo)
    (h' : .error e' ∈ tasks v settings repo) : e = e' := by
  obtain ⟨_, -, he⟩ := List.mem_map.mp h
  obtain ⟨_, -, he'⟩ := List.mem_map.mp h'
  exact (rootFailure_of_error he).unique (rootFailure_of_error he')

theorem exists_analyzeAll_iff : (∃ found, analyzeAll v settings repo = .ok found) ↔
    ∀ analysis : TreeAnalysis, ∃ a, analysis.analyze v settings repo = .ok a := by
  constructor
  · rintro ⟨found, hfound⟩ analysis
    rw [analyzeAll_eq, mapM_eq_ok_iff] at hfound
    have htask : analysis.analyze v settings repo ∈ tasks v settings repo :=
      List.mem_map_of_mem (mem_all analysis)
    rw [hfound] at htask
    obtain ⟨a, -, ha⟩ := List.mem_map.mp htask
    exact ⟨a, ha.symm⟩
  · intro h
    choose found hfound using h
    refine ⟨all.map found, analyzeAll_eq_ok_iff.mpr ?_⟩
    simpa [List.forall₂_map_right_iff, List.forall₂_same] using fun analysis _ => hfound analysis

end TreeAnalysis

namespace CommandLine

/-- What an invocation reports. -/
def results (v : Volume) (now : Timestamp) (i : Invocation) : Except RunError (List Result) := do
  let settings ← settingsFor v i
  let found ← assessments v now settings i.command
  return found.map fun a => { assessment := a, generatedAt := now }

theorem reportText_eq (v : Volume) (now : Timestamp) (i : Invocation) :
    reportText v now i = do
      let found ← results v now i
      let settings ← settingsFor v i
      return (formatFor i settings).render false found := by
  rw [reportText, results]
  cases settingsFor v i with
  | error e => rfl
  | ok settings =>
      cases hfound : assessments v now settings i.command <;>
        simp [bind, Except.bind, hfound, pure, Except.pure]

/-- Whether a text can be delivered does not depend on what it says. -/
theorem deliver_ok_iff (v : Volume) (output : Option String) (text other : String) :
    (∃ said, (deliver v output text).answer = .ok said) ↔
      ∃ said, (deliver v output other).answer = .ok said := by
  cases output with
  | none => simp [deliver]
  | some path =>
      simp only [deliver]
      rcases v.makeDirectories ((Path.ancestors path (Path.segments path).length).drop 1) with
        ⟨made, _ | e⟩
      · simp only [Volume.writeFile]
        cases made.start? path with
        | none => simp
        | some found =>
            obtain ⟨start, parts⟩ := found
            cases htarget : Volume.writeTarget made.top Volume.maxLinks start parts <;>
              simp [htarget, Except.map]
      · simp

variable {i : Invocation} {path : String} {jobs : Nat} {now : Timestamp}

/-- Asks for all analyses of a tree. -/
def together (i : Invocation) (path : String) (jobs : Nat) : Invocation :=
  { i with command := .all path jobs }

/-- Asks for one of them. -/
def alone (i : Invocation) (path : String) (analysis : TreeAnalysis) : Invocation :=
  { i with command := .tree analysis path }

theorem results_together_eq_ok_iff {found : List Result} :
    results v now (together i path jobs) = .ok found ↔
      ∃ settings, settingsFor v (together i path jobs) = .ok settings ∧
        ∃ assessed, TreeAnalysis.analyzeAll v settings path = .ok assessed ∧
          assessed.map (fun a => { assessment := a, generatedAt := now }) = found := by
  simp only [results, bind_eq_ok_iff, pure_eq_ok_iff, together, assessments, during,
    mapError_eq_ok_iff]

/-- A single analysis is run with the settings with which all are. -/
theorem results_alone_eq_ok_iff {analysis : TreeAnalysis} {found : List Result} :
    results v now (alone i path analysis) = .ok found ↔
      ∃ settings, settingsFor v (together i path jobs) = .ok settings ∧
        ∃ a, analysis.analyze v settings path = .ok a ∧
          [{ assessment := a, generatedAt := now }] = found := by
  simp only [results, bind_eq_ok_iff, pure_eq_ok_iff, alone, assessments, during,
    mapError_eq_ok_iff]
  constructor
  · rintro ⟨settings, hok, _, ⟨a, ha, rfl⟩, rfl⟩
    exact ⟨settings, hok, a, ha, rfl⟩
  · rintro ⟨settings, hok, a, ha, rfl⟩
    exact ⟨settings, hok, _, ⟨a, ha, rfl⟩, rfl⟩

theorem exists_results_iff (v : Volume) (i : Invocation) (path : String) (jobs : Nat)
    (now : Timestamp) (times : TreeAnalysis → Timestamp) :
    (∃ found, results v now (together i path jobs) = .ok found) ↔
      ∀ analysis, ∃ found, results v (times analysis) (alone i path analysis) = .ok found := by
  simp only [results_together_eq_ok_iff, @results_alone_eq_ok_iff v i path jobs]
  constructor
  · rintro ⟨_, settings, hsettings, assessed, hall, -⟩ analysis
    obtain ⟨a, ha⟩ := TreeAnalysis.exists_analyzeAll_iff.mp ⟨assessed, hall⟩ analysis
    exact ⟨_, settings, hsettings, a, ha, rfl⟩
  · intro h
    obtain ⟨-, settings, hsettings, -⟩ := h .layout
    have hall : ∀ analysis : TreeAnalysis, ∃ a, analysis.analyze v settings path = .ok a := by
      intro analysis
      obtain ⟨-, other, hother, a, ha, -⟩ := h analysis
      obtain rfl := Except.ok.inj (hsettings.symm.trans hother)
      exact ⟨a, ha⟩
    obtain ⟨assessed, hassessed⟩ := TreeAnalysis.exists_analyzeAll_iff.mpr hall
    exact ⟨_, settings, hsettings, assessed, hassessed, rfl⟩

theorem exists_answer_iff (h : i.command ≠ .listMigrations) :
    (∃ said, (run v now i).answer = .ok said) ↔
      (∃ found, results v now i = .ok found) ∧ ∃ said, (deliver v i.output "").answer = .ok said := by
  rw [run_eq h, reportText_eq]
  cases hfound : results v now i with
  | error e => simp [bind, Except.bind]
  | ok found =>
      rw [results, bind_eq_ok_iff] at hfound
      obtain ⟨settings, hsettings, -⟩ := hfound
      simp only [hsettings, bind, Except.bind, pure, Except.pure, Except.ok.injEq, exists_eq',
        true_and]
      exact deliver_ok_iff _ _ _ _

/-- All analyses together have results, and are delivered, exactly when each alone is.  Their
results are then those of the single ones, in the order of reports and but for their times, and
every order in which any number of workers takes the analyses leads to this answer. -/
theorem together_reports_each_alone (v : Volume) (i : Invocation) (path : String) (jobs : Nat)
    (now : Timestamp) (times : TreeAnalysis → Timestamp) :
    ((∃ said, (run v now (together i path jobs)).answer = .ok said) ↔
      ∀ analysis, ∃ said, (run v (times analysis) (alone i path analysis)).answer = .ok said) ∧
    ((∃ found, results v now (together i path jobs) = .ok found) ↔
      ∀ analysis, ∃ found, results v (times analysis) (alone i path analysis) = .ok found) ∧
    (∀ found, results v now (together i path jobs) = .ok found →
      List.Forall₂ (fun analysis r => ∃ single,
        results v (times analysis) (alone i path analysis) = .ok [single] ∧
          single.assessment = r.assessment) TreeAnalysis.all found) ∧
    ∀ settings processors, 0 < processors → ∀ answer,
      Pool.Answers (Pool.workers processors jobs)
          ((Analyzer.ofSettings settings).map fun analyze => analyze v path) answer ↔
        answer = TreeAnalysis.analyzeAll v settings path := by
  have hresults := exists_results_iff v i path jobs now times
  refine ⟨?_, hresults, ?_, ?_⟩
  · have htogether : (together i path jobs).command ≠ .listMigrations := by simp [together]
    have halone : ∀ analysis, (alone i path analysis).command ≠ .listMigrations := by simp [alone]
    simp only [exists_answer_iff htogether, exists_answer_iff (halone _), hresults]
    constructor
    · exact fun h analysis => ⟨h.1 analysis, h.2⟩
    · exact fun h => ⟨fun analysis => (h analysis).1, (h .layout).2⟩
  · intro found hfound
    obtain ⟨settings, hsettings, assessed, hassessed, rfl⟩ := results_together_eq_ok_iff.mp hfound
    rw [List.forall₂_map_right_iff]
    refine (TreeAnalysis.analyzeAll_eq_ok_iff.mp hassessed).imp fun analysis a ha => ?_
    exact ⟨_, results_alone_eq_ok_iff.mpr ⟨settings, hsettings, a, ha, rfl⟩, rfl⟩
  · intro settings processors hprocessors answer
    have hworkers : 0 < Pool.workers processors jobs := by
      rw [Pool.workers]
      split <;> assumption
    rw [TreeAnalysis.tasks_eq, TreeAnalysis.analyzeAll_eq]
    exact Pool.answers_iff hworkers fun e e' => TreeAnalysis.tasks_fail_alike

end CommandLine
end RepoAudit
