import RepoAudit.Text.Basic

/-!
# File trees

The files that an analysis looks at, as a value.  A `Volume` is a tree under the name of its top
directory, with a working directory in it.  Looking a path up follows symbolic links, at most forty
of them, and fails the way a file system does.
-/

namespace RepoAudit

inductive FileTree where
  | file (bytes : ByteArray)
  | link (target : String)
  /-- Entries are sorted by name, each name once. -/
  | directory (entries : List (String × FileTree))
  deriving Inhabited

inductive SystemError where
  | notFound
  | alreadyExists
  | notADirectory
  | isADirectory
  | tooManyLinks
  deriving DecidableEq

def SystemError.message : SystemError → String
  | .notFound => "No such file or directory (os error 2)"
  | .alreadyExists => "File exists (os error 17)"
  | .notADirectory => "Not a directory (os error 20)"
  | .isADirectory => "Is a directory (os error 21)"
  | .tooManyLinks => "Too many levels of symbolic links (os error 40)"

/-- Why a file could not be read as text. -/
inductive ReadError where
  | system (error : SystemError)
  | notText
  deriving DecidableEq

def ReadError.message : ReadError → String
  | .system error => error.message
  | .notText => "stream did not contain valid UTF-8"

/-- A place in a tree: the names on the way down from the top, none of them a link. -/
abbrev Location := List String

namespace FileTree

def child? (t : FileTree) (name : String) : Option FileTree :=
  match t with
  | .directory entries => entries.lookup name
  | _ => none

def at? (t : FileTree) : Location → Option FileTree
  | [] => some t
  | name :: rest => (t.child? name).bind (·.at? rest)

theorem at?_append (t : FileTree) (place rest : Location) :
    t.at? (place ++ rest) = (t.at? place).bind (·.at? rest) := by
  induction place generalizing t with
  | nil => simp [at?]
  | cons name place ih => simp [at?, ih, Option.bind_assoc]

def isDirectory : FileTree → Bool
  | .directory _ => true
  | _ => false

def isFile : FileTree → Bool
  | .file _ => true
  | _ => false

mutual

/-- The locations of the directories of a tree that stands at `here`. -/
def directories (here : Location) : FileTree → List Location
  | .directory entries => here :: directoriesAmong here entries
  | _ => []

def directoriesAmong (here : Location) : List (String × FileTree) → List Location
  | [] => []
  | (name, t) :: entries => t.directories (here ++ [name]) ++ directoriesAmong here entries

end

theorem directories_child_subset (here : Location) {name : String} {t : FileTree}
    {entries : List (String × FileTree)} (hlookup : entries.lookup name = some t) :
    t.directories (here ++ [name]) ⊆ directoriesAmong here entries := by
  induction entries with
  | nil => simp at hlookup
  | cons entry entries ih =>
      obtain ⟨other, sub⟩ := entry
      rw [directoriesAmong]
      rw [List.lookup_cons] at hlookup
      split at hlookup
      next heq =>
        obtain rfl : name = other := by simpa using heq
        obtain rfl : sub = t := by simpa using hlookup
        exact List.subset_append_left _ _
      next =>
        exact List.Subset.trans (ih hlookup) (List.subset_append_right _ _)

/-- Every directory that a location leads to is among the directories of the tree. -/
theorem mem_directories_of_at? {t : FileTree} {place : Location}
    {entries : List (String × FileTree)} (here : Location)
    (hplace : t.at? place = some (.directory entries)) :
    here ++ place ∈ t.directories here := by
  induction place generalizing t here with
  | nil =>
      obtain rfl : t = .directory entries := by simpa [at?] using hplace
      simp [directories]
  | cons name rest ih =>
      rw [at?, Option.bind_eq_some_iff] at hplace
      obtain ⟨sub, hsub, hrest⟩ := hplace
      cases t with
      | file bytes => simp [child?] at hsub
      | link target => simp [child?] at hsub
      | directory siblings =>
          have hmem := directories_child_subset here hsub (ih (here ++ [name]) hrest)
          rw [directories]
          exact List.mem_cons_of_mem _ (by simpa using hmem)

/-- Puts an entry in its place among sorted entries, over an earlier one of the same name. -/
def insertEntry (name : String) (t : FileTree) : List (String × FileTree) → List (String × FileTree)
  | [] => [(name, t)]
  | (other, old) :: rest =>
      if name == other then (name, t) :: rest
      else if nameLe name other then (name, t) :: (other, old) :: rest
      else (other, old) :: insertEntry name t rest

/-- Puts a tree at a location, creating the directories on the way. -/
def insertAt (new : FileTree) : Location → FileTree → FileTree
  | [], _ => new
  | name :: rest, t =>
      let entries := match t with
        | .directory entries => entries
        | _ => []
      let old := (entries.lookup name).getD (.directory [])
      .directory (insertEntry name (insertAt new rest old) entries)

end FileTree

/-- The parts of a path between its separators. -/
def pathParts (path : String) : List String :=
  (Text.splitBy (· == '/') path.toList).map String.ofList

/-- The text of a file: its bytes, when they are UTF-8. -/
def decodeBytes (bytes : ByteArray) : Except ReadError String :=
  match String.fromUTF8? bytes with
  | some s => .ok s
  | none => .error .notText

structure Volume where
  name : String
  top : FileTree
  /-- The working directory. -/
  working : Location := []

namespace Volume

/-- What links are allowed on the way to one file. -/
def maxLinks : Nat := 40

/-- Follows the parts of a path from a directory.  With `follow` unset a link in the last place is
the answer itself. -/
def resolveFrom (top : FileTree) (follow : Bool) (links : Nat) (here : Location) :
    List String → Except SystemError (Location × FileTree)
  | [] =>
      match top.at? here with
      | some t => .ok (here, t)
      | none => .error .notFound
  | part :: rest =>
      match top.at? here with
      | none => .error .notFound
      | some (.directory entries) =>
          if part == "" || part == "." then resolveFrom top follow links here rest
          else if part == ".." then resolveFrom top follow links here.dropLast rest
          else
            match entries.lookup part with
            | none => .error .notFound
            | some (.link target) =>
                if rest.isEmpty && !follow then .ok (here ++ [part], .link target)
                else
                  match links with
                  | 0 => .error .tooManyLinks
                  | links + 1 =>
                      if target.toList.head? == some '/' then .error .notFound
                      else resolveFrom top follow links here (pathParts target ++ rest)
            | some _ => resolveFrom top follow links (here ++ [part]) rest
      | some _ => .error .notADirectory
  termination_by parts => (links, parts.length)

/-- What a look-up answers stands where it says. -/
theorem at?_of_resolveFrom {top : FileTree} {follow : Bool} {links : Nat} {here real : Location}
    {parts : List String} {t : FileTree}
    (hresolve : resolveFrom top follow links here parts = .ok (real, t)) :
    top.at? real = some t := by
  fun_induction resolveFrom top follow links here parts with
  | case1 _ _ _ hhere =>
      simp only [Except.ok.injEq, Prod.mk.injEq] at hresolve
      obtain ⟨rfl, rfl⟩ := hresolve
      exact hhere
  | case4 _ _ _ _ _ _ _ ih => exact ih hresolve
  | case5 _ _ _ _ _ _ _ _ ih => exact ih hresolve
  | case7 _ _ _ _ _ hhere _ _ _ hlookup _ =>
      simp only [Except.ok.injEq, Prod.mk.injEq] at hresolve
      obtain ⟨rfl, rfl⟩ := hresolve
      simp [FileTree.at?_append, hhere, FileTree.at?, FileTree.child?, hlookup]
  | case10 _ _ _ _ _ _ _ _ _ _ _ _ ih => exact ih hresolve
  | case11 _ _ _ _ _ _ _ _ _ _ _ ih => exact ih hresolve
  | case2 | case3 | case6 | case8 | case9 | case12 => simp at hresolve

/-- The path of a location. -/
def pathTo (v : Volume) (here : Location) : String :=
  v.name ++ String.join (here.map ("/" ++ ·))

/-- Where a path starts, and the parts to follow from there.  A path that begins with the name of
the volume starts at its top, any other in the working directory.  Nothing is known outside. -/
def start? (v : Volume) (path : String) : Option (Location × List String) :=
  let parts := pathParts path
  let top := pathParts v.name
  if path.isEmpty then none
  else if top.isPrefixOf parts then some ([], parts.drop top.length)
  else if path.toList.head? == some '/' then none
  else some (v.working, parts)

/-- What a path leads to. -/
def resolve (v : Volume) (path : String) : Except SystemError (Location × FileTree) :=
  match v.start? path with
  | some (here, parts) => resolveFrom v.top true maxLinks here parts
  | none => .error .notFound

theorem at?_of_resolve {v : Volume} {path : String} {real : Location} {t : FileTree}
    (hresolve : v.resolve path = .ok (real, t)) : v.top.at? real = some t := by
  unfold resolve at hresolve
  split at hresolve
  · exact at?_of_resolveFrom hresolve
  · simp at hresolve

def isDirectory (v : Volume) (path : String) : Bool :=
  match v.resolve path with
  | .ok (_, t) => t.isDirectory
  | .error _ => false

def isFile (v : Volume) (path : String) : Bool :=
  match v.resolve path with
  | .ok (_, t) => t.isFile
  | .error _ => false

/-- The text of the file at a path. -/
def readText (v : Volume) (path : String) : Except ReadError String :=
  match v.resolve path with
  | .error e => .error (.system e)
  | .ok (_, .file bytes) => decodeBytes bytes
  | .ok _ => .error (.system .isADirectory)

/-- The names in the directory at a path, in order. -/
def entryNames (v : Volume) (path : String) : Except SystemError (List String) :=
  match v.resolve path with
  | .error e => .error e
  | .ok (_, .directory entries) => .ok (entries.map Prod.fst)
  | .ok _ => .error .notADirectory

end Volume
end RepoAudit
