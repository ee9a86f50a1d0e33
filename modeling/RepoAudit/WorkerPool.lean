/-!
# Tasks shared out among workers

Tasks are begun in any order, each when a worker is free, and the value of a task is put into its
own place.  The failure of a task is kept unless one is kept already, and once there is one, tasks
that have not been begun may be left out.
-/

namespace RepoAudit

inductive Slot (α : Type) where
  | waiting
  | running
  | filled (value : α)
  /-- The task has failed, or was left out. -/
  | empty
  deriving DecidableEq

namespace Slot

variable {α : Type}

def isRunning : Slot α → Bool
  | running => true
  | _ => false

def isOver : Slot α → Bool
  | filled _ | empty => true
  | _ => false

def value? : Slot α → Option α
  | filled value => some value
  | _ => none

end Slot

/-- Tasks, by what each comes to, with the places for their values. -/
structure Pool (α ε : Type) where
  jobs : List (Except ε α × Slot α)
  failure : Option ε := none

namespace Pool

variable {α ε : Type}

/-- As many as were asked for, or one for each processor. -/
def workers (processors jobs : Nat) : Nat :=
  if 0 < jobs then jobs else processors

def ofTasks (tasks : List (Except ε α)) : Pool α ε :=
  { jobs := tasks.map fun task => (task, .waiting) }

def running (p : Pool α ε) : Nat :=
  p.jobs.countP fun job => job.2.isRunning

def isOver (p : Pool α ε) : Bool :=
  p.jobs.all fun job => job.2.isOver

/-- The values in the order of the tasks, or the failure that was kept. -/
def answer (p : Pool α ε) : Except ε (List α) :=
  match p.failure with
  | some e => .error e
  | none => .ok (p.jobs.filterMap fun job => job.2.value?)

/-- What one worker may do next. -/
inductive Step (workers : Nat) : Pool α ε → Pool α ε → Prop
  | begin {before after : List (Except ε α × Slot α)} {task : Except ε α} {failure : Option ε}
      (hfree : running ⟨before ++ (task, .waiting) :: after, failure⟩ < workers) :
      Step workers ⟨before ++ (task, .waiting) :: after, failure⟩
        ⟨before ++ (task, .running) :: after, failure⟩
  | fill {before after : List (Except ε α × Slot α)} {value : α} {failure : Option ε} :
      Step workers ⟨before ++ (.ok value, .running) :: after, failure⟩
        ⟨before ++ (.ok value, .filled value) :: after, failure⟩
  | fail {before after : List (Except ε α × Slot α)} {e : ε} {failure : Option ε} :
      Step workers ⟨before ++ (.error e, .running) :: after, failure⟩
        ⟨before ++ (.error e, .empty) :: after, failure <|> some e⟩
  | leave {before after : List (Except ε α × Slot α)} {task : Except ε α} {e : ε} :
      Step workers ⟨before ++ (task, .waiting) :: after, some e⟩
        ⟨before ++ (task, .empty) :: after, some e⟩

end Pool
end RepoAudit
