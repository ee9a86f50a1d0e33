import RepoAudit.Proofs.FileTree.Lookup
import RepoAudit.Proofs.FileTree.Visits
import Mathlib.Logic.Relation

/-!
# The walk entry by entry

A walk can be run with a stack of open directories, each with the entries that are still to come.
One step takes the next entry of the innermost directory or leaves a directory that has none left.
Run from the root it halts, after having told the events of the walk.  A link back to a directory
on the stack costs one warning, and nothing else is told of it or of what lies below it.
-/

namespace RepoAudit.Walk

/-- An open directory: where it really is, the names that lead to it, and what is still to come. -/
structure Frame where
  here : Location
  names : List String
  pending : List (String × FileTree)

def Plan.opened (plan : Plan) (stack : List Frame) : List Open :=
  stack.map fun frame => (frame.here, pathOf plan.root frame.names)

/-- What a step tells, and the stack after it.  Nothing follows when no directory is open. -/
def Plan.step (plan : Plan) (v : Volume) : List Frame → Option (List Event × List Frame)
  | [] => none
  | ⟨_, _, []⟩ :: outer => some ([], outer)
  | ⟨here, names, (name, t) :: pending⟩ :: outer =>
      let stack := ⟨here, names, pending⟩ :: outer
      let below := names ++ [name]
      match plan.meet v (plan.opened stack) (here ++ [name]) below t with
      | .pruned => some ([], stack)
      | .visited => some ([.visit ⟨below, false⟩], stack)
      | .failed warning => some ([.problem below warning], stack)
      | .entered real entries => some (plan.ownVisit below, ⟨real, below, entries⟩ :: stack)

/-- At most `n` steps: what they tell, and the stack after them. -/
def Plan.run (plan : Plan) (v : Volume) : ℕ → List Frame → List Event × List Frame
  | 0, stack => ([], stack)
  | n + 1, stack =>
      match plan.step v stack with
      | none => ([], stack)
      | some (events, next) =>
          let (later, last) := plan.run v n next
          (events ++ later, last)

/-- What is told of the root, and the stack with which the walk begins. -/
def Plan.begin (plan : Plan) (v : Volume) : List Event × List Frame :=
  match v.resolve plan.root with
  | .error e => ([.problem [] (failure plan.root e)], [])
  | .ok (real, .directory entries) => ([], [⟨real, [], entries⟩])
  | .ok _ => ([], [])

def Plan.walk (plan : Plan) (v : Volume) (n : ℕ) : List Event × List Frame :=
  let (first, stack) := plan.begin v
  let (later, last) := plan.run v n stack
  (first ++ later, last)

def Plan.remaining (plan : Plan) (v : Volume) : List Frame → List Event
  | [] => []
  | frame :: outer =>
      directoryEvents v plan (plan.opened (frame :: outer)) frame.here frame.names
          frame.pending ++ plan.remaining v outer

variable {v : Volume} {plan : Plan} {stack next outer : List Frame} {events : List Event}
variable {here : Location} {names : List String} {name : String} {t : FileTree}
variable {pending : List (String × FileTree)}

/-! ## What a step tells -/

/-- What is still to come in an open directory is well-formed, and what the directories around it
still hold lies elsewhere. -/
def Plan.Orderly (plan : Plan) (v : Volume) : List Frame → Prop
  | [] => True
  | frame :: outer =>
      (FileTree.directory frame.pending).WellFormed ∧
        (∀ e ∈ plan.remaining v outer, ¬ frame.names <+: e.names) ∧ plan.Orderly v outer

theorem Plan.Orderly.rest
    (horderly : plan.Orderly v (⟨here, names, (name, t) :: pending⟩ :: outer)) :
    plan.Orderly v (⟨here, names, pending⟩ :: outer) := by
  obtain ⟨hwf, houter, hrest⟩ := horderly
  refine ⟨?_, houter, hrest⟩
  cases hwf with
  | directory sorted segments below =>
      exact .directory (List.pairwise_cons.mp sorted).2
        (fun entry hentry => segments entry (List.mem_cons_of_mem _ hentry))
        (fun entry hentry => below entry (List.mem_cons_of_mem _ hentry))

end RepoAudit.Walk
