import RepoAudit.Proofs.Except
import RepoAudit.WorkerPool
import Mathlib

/-!
# What workers make of their tasks

Whatever order the workers take, a pool comes to an end, and its answer has the values of all tasks
in their order, or the failure of one of them.  So where all failures are the same, the answer is
that of the tasks done one after the other.
-/

namespace RepoAudit

variable {α ε : Type} {tasks : List (Except ε α)} {values : List α} {e : ε}

/-! ## One task after the other -/

theorem mapM_eq_ok_iff : tasks.mapM id = .ok values ↔ tasks = values.map Except.ok := by
  induction tasks generalizing values with
  | nil => cases values <;> simp [pure, Except.pure]
  | cons task tasks ih =>
      rw [List.mapM_cons, bind_eq_ok_iff]
      constructor
      · rintro ⟨value, rfl, hrest⟩
        obtain ⟨rest, hrest, heq⟩ := bind_eq_ok_iff.mp hrest
        rw [← pure_eq_ok_iff.mp heq, List.map_cons, ← ih.mp hrest]
      · intro h
        cases values with
        | nil => cases h
        | cons value values =>
            obtain ⟨rfl, hrest⟩ := List.cons_eq_cons.mp h
            exact ⟨value, rfl, bind_eq_ok_iff.mpr ⟨values, ih.mpr hrest, rfl⟩⟩

theorem error_mem_of_mapM (h : tasks.mapM id = .error e) : .error e ∈ tasks := by
  induction tasks with
  | nil => simp [pure, Except.pure] at h
  | cons task tasks ih =>
      rw [List.mapM_cons] at h
      cases task with
      | error e' =>
          obtain rfl : e' = e := by simpa [bind, Except.bind] using h
          exact List.mem_cons_self
      | ok value =>
          cases hrest : tasks.mapM id with
          | error e' =>
              obtain rfl : e' = e := by simpa [bind, Except.bind, hrest] using h
              exact List.mem_cons_of_mem _ (ih hrest)
          | ok rest => simp [bind, Except.bind, hrest, pure, Except.pure] at h

namespace Pool

variable {workers : Nat} {p q : Pool α ε}

/-! ## What every step preserves -/

/-- The places hold what their tasks come to, and the kept failure is that of a task. -/
structure Consistent (tasks : List (Except ε α)) (p : Pool α ε) : Prop where
  tasks_eq : p.jobs.map Prod.fst = tasks
  filled : ∀ task value, (task, Slot.filled value) ∈ p.jobs → task = .ok value
  empty : ∀ task, (task, Slot.empty) ∈ p.jobs → ∃ e, p.failure = some e
  failure : ∀ e, p.failure = some e → .error e ∈ tasks

theorem consistent_ofTasks (tasks : List (Except ε α)) : Consistent tasks (ofTasks tasks) := by
  constructor <;> simp [ofTasks, Function.comp_def]

theorem Step.consistent (hstep : Step workers p q) (h : Consistent tasks p) :
    Consistent tasks q := by
  obtain ⟨htasks, hfilled, hempty, hfailure⟩ := h
  cases hstep with
  | begin =>
      refine ⟨by simpa using htasks, fun task value hmem => ?_, fun task hmem => ?_, hfailure⟩
      · exact hfilled task value (by simpa using hmem)
      · exact hempty task (by simpa using hmem)
  | fill =>
      refine ⟨by simpa using htasks, fun task value hmem => ?_, fun task hmem => ?_, hfailure⟩
      · rcases List.mem_append.mp hmem with hbefore | hafter
        · exact hfilled task value (by simp [hbefore])
        · rcases List.mem_cons.mp hafter with heq | hafter
          · cases heq
            rfl
          · exact hfilled task value (by simp [hafter])
      · exact hempty task (by simpa using hmem)
  | @fail before after e failure =>
      refine ⟨by simpa using htasks, fun task value hmem => ?_, fun task _ => ?_, fun e' he' => ?_⟩
      · exact hfilled task value (by simpa using hmem)
      · cases failure with
        | none => exact ⟨e, rfl⟩
        | some kept => exact ⟨kept, rfl⟩
      · cases failure with
        | none =>
            obtain rfl : e = e' := by simpa using he'
            rw [← htasks]
            simp
        | some kept => exact hfailure e' he'
  | @leave before after task e =>
      refine ⟨by simpa using htasks, fun task value hmem => ?_, fun task _ => ⟨e, rfl⟩, hfailure⟩
      exact hfilled task value (by simpa using hmem)

theorem consistent_of_reach (h : Relation.ReflTransGen (Step workers) (ofTasks tasks) p) :
    Consistent tasks p := by
  induction h with
  | refl => exact consistent_ofTasks tasks
  | tail _ hstep ih => exact hstep.consistent ih

/-! ## The end -/

theorem Consistent.filled_of_over (h : Consistent tasks p) (hover : p.isOver = true)
    (hnone : p.failure = none) : ∀ job ∈ p.jobs, ∃ value, job = (.ok value, .filled value) := by
  rintro ⟨task, slot⟩ hjob
  cases slot with
  | filled value =>
      obtain rfl := h.filled task value hjob
      exact ⟨value, rfl⟩
  | empty =>
      obtain ⟨e, he⟩ := h.empty task hjob
      simp [hnone] at he
  | waiting | running => simpa [Slot.isOver] using List.all_eq_true.mp hover _ hjob

/-- The answer has the value of every task, in their order, or there is none for a task that has
failed. -/
theorem Consistent.answer_cases (h : Consistent tasks p) (hover : p.isOver = true) :
    (∃ values, p.answer = .ok values ∧ tasks = values.map .ok) ∨
      ∃ e, p.answer = .error e ∧ .error e ∈ tasks := by
  cases hfailure : p.failure with
  | some e => exact .inr ⟨e, by rw [answer, hfailure], h.failure e hfailure⟩
  | none =>
      refine .inl ⟨p.jobs.filterMap fun job => job.2.value?, by rw [answer, hfailure], ?_⟩
      have hfilled := h.filled_of_over hover hfailure
      rw [← h.tasks_eq]
      generalize p.jobs = jobs at hfilled
      induction jobs with
      | nil => rfl
      | cons job jobs ih =>
          obtain ⟨⟨value, rfl⟩, hjobs⟩ := List.forall_mem_cons.mp hfilled
          simp [Slot.value?, ih hjobs]

/-- Where all failures are the same, the answer is that of the tasks done in their order. -/
theorem Consistent.answer_eq (h : Consistent tasks p) (hover : p.isOver = true)
    (halike : ∀ e e', .error e ∈ tasks → .error e' ∈ tasks → e = e') :
    p.answer = tasks.mapM id := by
  rcases h.answer_cases hover with ⟨values, hanswer, htasks⟩ | ⟨e, hanswer, hmem⟩
  · rw [hanswer, mapM_eq_ok_iff.mpr htasks]
  · rw [hanswer]
    cases hall : tasks.mapM id with
    | error e' => rw [halike e e' hmem (error_mem_of_mapM hall)]
    | ok values => simp [mapM_eq_ok_iff.mp hall] at hmem

/-! ## Progress -/

def load (p : Pool α ε) : Nat :=
  (p.jobs.map fun job => match job.2 with
    | .waiting => 2
    | .running => 1
    | .filled _ | .empty => 0).sum

theorem Step.load_lt (hstep : Step workers p q) : q.load < p.load := by
  cases hstep <;> simp [load]

theorem exists_running (h : 0 < p.running) :
    ∃ before task after, p.jobs = before ++ (task, Slot.running) :: after := by
  obtain ⟨⟨task, slot⟩, hmem, hrunning⟩ := List.countP_pos_iff.mp h
  obtain ⟨before, after, hjobs⟩ := List.append_of_mem hmem
  cases slot with
  | running => exact ⟨before, task, after, hjobs⟩
  | waiting | filled value | empty => simp [Slot.isRunning] at hrunning

theorem exists_waiting (hover : ¬ p.isOver = true) (hidle : p.running = 0) :
    ∃ before task after, p.jobs = before ++ (task, Slot.waiting) :: after := by
  rw [isOver, List.all_eq_true] at hover
  push Not at hover
  obtain ⟨⟨task, slot⟩, hmem, hopen⟩ := hover
  obtain ⟨before, after, hjobs⟩ := List.append_of_mem hmem
  cases slot with
  | waiting => exact ⟨before, task, after, hjobs⟩
  | running =>
      have hnot := List.countP_eq_zero.mp hidle _ hmem
      simp [Slot.isRunning] at hnot
  | filled value | empty => simp [Slot.isOver] at hopen

theorem exists_step (hworkers : 0 < workers) (hover : ¬ p.isOver = true) :
    ∃ q, Step workers p q := by
  obtain ⟨jobs, failure⟩ := p
  rcases Nat.eq_zero_or_pos (running ⟨jobs, failure⟩) with hidle | hbusy
  · obtain ⟨before, task, after, hjobs⟩ := exists_waiting hover hidle
    obtain rfl : jobs = _ := hjobs
    exact ⟨_, .begin (by rwa [hidle])⟩
  · obtain ⟨before, task, after, hjobs⟩ := exists_running hbusy
    obtain rfl : jobs = _ := hjobs
    cases task with
    | ok value => exact ⟨_, .fill⟩
    | error e => exact ⟨_, .fail⟩

/-- From wherever a pool is, it comes to an end. -/
theorem exists_over (hworkers : 0 < workers) (p : Pool α ε) :
    ∃ q, Relation.ReflTransGen (Step workers) p q ∧ q.isOver = true := by
  induction hload : p.load using Nat.strong_induction_on generalizing p with
  | _ n ih =>
      by_cases hover : p.isOver = true
      · exact ⟨p, .refl, hover⟩
      · obtain ⟨next, hstep⟩ := exists_step hworkers hover
        obtain ⟨q, hreach, hq⟩ := ih next.load (hload ▸ hstep.load_lt) next rfl
        exact ⟨q, .head hstep hreach, hq⟩

/-- The answer that some order of the workers leads to. -/
def Answers (workers : Nat) (tasks : List (Except ε α)) (answer : Except ε (List α)) : Prop :=
  ∃ p, Relation.ReflTransGen (Step workers) (ofTasks tasks) p ∧ p.isOver = true ∧ p.answer = answer

/-- Where all failures are the same, there is one answer, and every order leads to it. -/
theorem answers_iff (hworkers : 0 < workers)
    (halike : ∀ e e', .error e ∈ tasks → .error e' ∈ tasks → e = e')
    {answer : Except ε (List α)} : Answers workers tasks answer ↔ answer = tasks.mapM id := by
  constructor
  · rintro ⟨p, hreach, hover, rfl⟩
    exact (consistent_of_reach hreach).answer_eq hover halike
  · rintro rfl
    obtain ⟨p, hreach, hover⟩ := exists_over hworkers (ofTasks tasks)
    exact ⟨p, hreach, hover, (consistent_of_reach hreach).answer_eq hover halike⟩

end Pool
end RepoAudit
