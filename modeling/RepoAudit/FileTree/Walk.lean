import RepoAudit.FileTree.Basic
import RepoAudit.Finding
import RepoAudit.Glob
import RepoAudit.Path

/-!
# Walking a repository

Entries are visited before what they contain and in the order of their names.  Some directory names
are never entered, and patterns leave further entries out.  A link is followed to what its path
leads to, unless that is a directory the walk is still inside: such a cycle is reported and not
entered.  So each directory entered through a link is one that was not open before.  A directory
inside it may be open already, but it is a smaller tree than the one it stands in, and the two
together end the walk.
-/

namespace RepoAudit

/-- What the walk leaves out, besides the fixed names, and whether it follows links. -/
structure WalkSettings where
  excludeDirs : List String := []
  ignorePatterns : List String := []
  followSymlinks : Bool := true

/-- Directories that hold generated or foreign files. -/
def excludedDirs : List String :=
  ["node_modules", ".git", "dist", "build", "target", "bin", "obj"]

def isExcludedDir (name : String) : Bool :=
  excludedDirs.contains name

namespace Walk

/-- A walk over the directory `root`, ready to start. -/
structure Plan where
  root : String
  excluded : List String
  ignored : List Glob
  includeDirs : Bool
  follow : Bool

/-- Patterns as values, or the error of the first one that is malformed. -/
def readPatterns : List String → Except Glob.Error (List Glob)
  | [] => .ok []
  | p :: ps => do
      let glob ← Glob.ofText p
      let globs ← readPatterns ps
      return glob :: globs

def Plan.ofSettings (root : String) (settings : WalkSettings) (includeDirs : Bool) :
    Except Glob.Error Plan := do
  let ignored ← readPatterns settings.ignorePatterns
  return {
    root, ignored, includeDirs
    excluded := excludedDirs ++ settings.excludeDirs
    follow := settings.followSymlinks }

/-- An entry below the root: the names that lead to it. -/
structure Entry where
  names : List String
  isDirectory : Bool

def Entry.relative (e : Entry) : String :=
  Path.ofSegments e.names

/-- What the walk tells about an entry, which the names lead to. -/
inductive Event where
  | visit (entry : Entry)
  | problem (names : List String) (warning : Warning)

def Event.names : Event → List String
  | .visit entry => entry.names
  | .problem names _ => names

def pathOf (root : String) (names : List String) : String :=
  names.foldl Path.join root

def Plan.prunes (plan : Plan) (names : List String) (isDirectory : Bool) : Bool :=
  (isDirectory && plan.excluded.contains (names.getLast?.getD "")) ||
    plan.ignored.any (·.matchesPath (Path.ofSegments names))

def failure (path : String) (error : SystemError) : Warning :=
  { source := "walker", path := some path
    message := "IO error for operation on " ++ path ++ ": " ++ error.message }

def cycle (path ancestor : String) : Warning :=
  { source := "walker", path := some path
    message := "symlink cycle back to " ++ ancestor ++ "; not descending" }

/-- An open directory: where it really is, and the path the walk took to it. -/
abbrev Open := Location × String

/-- What becomes of an entry that the walk meets. -/
inductive Outcome where
  /-- Left out, with all that lies below it. -/
  | pruned
  | visited
  | failed (warning : Warning)
  /-- The directory is opened; it is really at `real`. -/
  | entered (real : Location) (entries : List (String × FileTree))

def Plan.meetLeaf (plan : Plan) (names : List String) : Outcome :=
  if plan.prunes names false then .pruned else .visited

def Plan.meetDirectory (plan : Plan) (names : List String) (real : Location)
    (entries : List (String × FileTree)) : Outcome :=
  if plan.prunes names true then .pruned else .entered real entries

/-- What becomes of a link.  `opened` holds the open directories, innermost first. -/
def Plan.meetLink (plan : Plan) (v : Volume) (opened : List Open) (names : List String) : Outcome :=
  let path := pathOf plan.root names
  if plan.follow then
    match v.resolve path with
    | .error e => .failed (failure path e)
    | .ok (real, .directory entries) =>
        match opened.find? (·.1 == real) with
        | some (_, ancestor) => .failed (cycle path ancestor)
        | none => plan.meetDirectory names real entries
    | .ok _ => plan.meetLeaf names
  else plan.meetLeaf names

/-- What becomes of the entry of a directory; `here` is the place of the entry itself. -/
def Plan.meet (plan : Plan) (v : Volume) (opened : List Open) (here : Location)
    (names : List String) : FileTree → Outcome
  | .file _ => plan.meetLeaf names
  | .directory entries => plan.meetDirectory names here entries
  | .link _ => plan.meetLink v opened names

/-- The directories of a volume that are not open. -/
def unopened (v : Volume) (opened : List Open) : Nat :=
  (v.top.directories []).countP fun place => !opened.any (·.1 == place)

theorem unopened_cons_le (v : Volume) (opened : List Open) (o : Open) :
    unopened v (o :: opened) ≤ unopened v opened := by
  apply List.countP_mono_left
  intro place _ hplace
  simp only [List.any_cons, Bool.not_or, Bool.and_eq_true] at hplace
  exact hplace.2

theorem countP_lt_countP {α : Type} {p q : α → Bool} {l : List α} {a : α} (hmem : a ∈ l)
    (himp : ∀ x, p x → q x) (hp : p a = false) (hq : q a) : l.countP p < l.countP q := by
  induction l with
  | nil => simp at hmem
  | cons b l ih =>
      have hle : l.countP p ≤ l.countP q := List.countP_mono_left fun x _ => himp x
      rw [List.countP_cons, List.countP_cons]
      rcases List.mem_cons.mp hmem with rfl | htail
      · simp [hp, hq]
        omega
      · have hlt := ih htail
        have hhead : (if p b = true then 1 else 0) ≤ if q b = true then 1 else 0 := by
          by_cases hb : p b = true
          · simp [hb, himp b hb]
          · simp [hb]
        omega

/-- Opening a directory of the volume that was not open leaves fewer unopened. -/
theorem unopened_cons_lt {v : Volume} {opened : List Open} {o : Open}
    {entries : List (String × FileTree)} (hplace : v.top.at? o.1 = some (.directory entries))
    (hnew : opened.any (·.1 == o.1) = false) :
    unopened v (o :: opened) < unopened v opened := by
  have hmem := FileTree.mem_directories_of_at? [] hplace
  apply countP_lt_countP (a := o.1) (by simpa using hmem)
  · intro place hopen
    simp only [List.any_cons, Bool.not_or, Bool.and_eq_true] at hopen
    exact hopen.2
  · simp
  · simp [hnew]

/-- A directory is opened where it stands, or through a link when it was not open before. -/
theorem Plan.entered_cases {plan : Plan} {v : Volume} {opened : List Open} {here : Location}
    {names : List String} {t : FileTree} {real : Location} {entries : List (String × FileTree)}
    (hmeet : plan.meet v opened here names t = .entered real entries) :
    plan.prunes names true = false ∧
      ((t = .directory entries ∧ real = here) ∨
        ((∃ target, t = .link target) ∧ plan.follow ∧
          v.resolve (pathOf plan.root names) = .ok (real, .directory entries) ∧
          opened.any (·.1 == real) = false)) := by
  cases t with
  | file bytes =>
      simp only [meet, meetLeaf] at hmeet
      split at hmeet <;> simp at hmeet
  | directory inside =>
      simp only [meet, meetDirectory] at hmeet
      split at hmeet
      next => simp at hmeet
      next hkept =>
        simp only [Outcome.entered.injEq] at hmeet
        obtain ⟨rfl, rfl⟩ := hmeet
        exact ⟨by simpa using hkept, .inl ⟨rfl, rfl⟩⟩
  | link target =>
      simp only [meet, meetLink, meetLeaf, meetDirectory] at hmeet
      split at hmeet
      next hfollow =>
        split at hmeet
        next => simp at hmeet
        next place inside hresolve =>
          split at hmeet
          next => simp at hmeet
          next hnone =>
            split at hmeet
            next => simp at hmeet
            next hkept =>
              simp only [Outcome.entered.injEq] at hmeet
              obtain ⟨rfl, rfl⟩ := hmeet
              refine ⟨by simpa using hkept, .inr ⟨⟨target, rfl⟩, hfollow, hresolve, ?_⟩⟩
              simpa using hnone
        next => split at hmeet <;> simp at hmeet
      next => split at hmeet <;> simp at hmeet

/-- Going into a directory leaves fewer directories unopened, or goes down in a tree. -/
theorem Plan.entered_decreasing {plan : Plan} {v : Volume} {opened : List Open} {here : Location}
    {names : List String} {t : FileTree} {real : Location} {entries : List (String × FileTree)}
    (hmeet : plan.meet v opened here names t = .entered real entries) :
    Prod.Lex (· < ·) (· < ·)
      (unopened v ((real, pathOf plan.root names) :: opened), sizeOf entries)
      (unopened v opened, sizeOf t) := by
  obtain ⟨_, ⟨rfl, rfl⟩ | ⟨_, _, hresolve, hnew⟩⟩ := entered_cases hmeet
  · rcases Nat.lt_or_eq_of_le (unopened_cons_le v opened (real, pathOf plan.root names)) with
      hlt | heq
    · exact .left _ _ hlt
    · rw [heq]
      exact .right _ (by simp)
  · exact .left _ _ (unopened_cons_lt (Volume.at?_of_resolve hresolve) hnew)

mutual

/-- The events of one entry and what lies below it. -/
def entryEvents (v : Volume) (plan : Plan) (opened : List Open) (here : Location)
    (names : List String) (t : FileTree) : List Event :=
  match hmeet : plan.meet v opened here names t with
  | .pruned => []
  | .visited => [.visit ⟨names, false⟩]
  | .failed warning => [.problem names warning]
  | .entered real entries =>
      (if plan.includeDirs then [.visit ⟨names, true⟩] else []) ++
        directoryEvents v plan ((real, pathOf plan.root names) :: opened) real names entries
  termination_by (unopened v opened, sizeOf t)
  decreasing_by exact Plan.entered_decreasing hmeet

def directoryEvents (v : Volume) (plan : Plan) (opened : List Open) (here : Location)
    (names : List String) : List (String × FileTree) → List Event
  | [] => []
  | (name, t) :: entries =>
      entryEvents v plan opened (here ++ [name]) (names ++ [name]) t ++
        directoryEvents v plan opened here names entries
  termination_by entries => (unopened v opened, sizeOf entries)

end

/-- Everything the walk meets, in order.  The root itself is not visited. -/
def Plan.events (plan : Plan) (v : Volume) : List Event :=
  match v.resolve plan.root with
  | .error e => [.problem [] (failure plan.root e)]
  | .ok (real, .directory entries) =>
      directoryEvents v plan [(real, plan.root)] real [] entries
  | .ok _ => []

end Walk

/-- What a walk found: the entries in order and the problems met on the way. -/
structure Scan where
  root : String
  entries : List Walk.Entry
  warnings : List Warning

namespace Scan

def ofEvents (root : String) (events : List Walk.Event) : Scan :=
  { root
    entries := events.filterMap fun
      | .visit e => some e
      | .problem _ _ => none
    warnings := events.filterMap fun
      | .visit _ => none
      | .problem _ w => some w }

def pathOf (s : Scan) (e : Walk.Entry) : String :=
  Walk.pathOf s.root e.names

/-- The entries that are regular files, or links to one. -/
def files (s : Scan) (v : Volume) : List Walk.Entry :=
  s.entries.filter fun e => v.isFile (s.pathOf e)

end Scan

/-- The path below the root, with a slash for each backslash. -/
def Walk.Entry.display (e : Walk.Entry) : String :=
  String.ofList (Text.replaceChar e.relative.toList '\\' ['/'])

end RepoAudit
