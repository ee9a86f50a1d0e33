import RepoAudit.FileTree.Basic
import RepoAudit.Path

/-!
# Writing into a file tree

Creating directories and files.  A link in the last place is followed when a file is written, so
the file at its end changes.
-/

namespace RepoAudit.Volume

/-- The parts of a path without the empty ones at its end. -/
def namedParts (parts : List String) : List String :=
  (parts.reverse.dropWhile (· == "")).reverse

/-- Creates an empty directory in a directory that exists. -/
def makeDirectory (v : Volume) (path : String) : Except SystemError Volume :=
  match v.start? path with
  | none => .error .notFound
  | some (start, parts) =>
      let parts := namedParts parts
      match resolveFrom v.top false maxLinks start parts with
      | .ok _ => .error .alreadyExists
      | .error .notFound =>
          match parts.getLast?, resolveFrom v.top true maxLinks start parts.dropLast with
          | some name, .ok (here, .directory _) =>
              if name == "." || name == ".." then .error .notFound
              else .ok { v with top := FileTree.insertAt (.directory []) (here ++ [name]) v.top }
          | _, .ok _ => .error .notADirectory
          | _, .error e => .error e
      | .error e => .error e

/-- What creating directories leaves: the volume with those that were created, and the error that
stopped it, if one did. -/
structure Creation where
  volume : Volume
  error? : Option SystemError := none

/-- Creates the first of the directories, and before it those above it that are missing. -/
def makeDirectories (v : Volume) : List String → Creation
  | [] => ⟨v, none⟩
  | path :: above =>
      if path.isEmpty then ⟨v, none⟩
      else
        match v.makeDirectory path with
        | .ok made => ⟨made, none⟩
        | .error .notFound =>
            match makeDirectories v above with
            | ⟨v, some e⟩ => ⟨v, some e⟩
            | ⟨v, none⟩ =>
                match v.makeDirectory path with
                | .ok made => ⟨made, none⟩
                | .error e => if v.isDirectory path then ⟨v, none⟩ else ⟨v, some e⟩
        | .error e => if v.isDirectory path then ⟨v, none⟩ else ⟨v, some e⟩

/-- Where the file is that writing to a path changes or creates. -/
def writeTarget (top : FileTree) (links : Nat) (here : Location) :
    List String → Except SystemError Location
  | [] => .error .isADirectory
  | part :: rest =>
      match top.at? here with
      | some (.directory entries) =>
          if part == "" || part == "." then writeTarget top links here rest
          else if part == ".." then writeTarget top links here.dropLast rest
          else
            match entries.lookup part with
            | none =>
                if rest.isEmpty then .ok (here ++ [part])
                else if rest.all (· == "") then .error .isADirectory
                else .error .notFound
            | some (.link target) =>
                match links with
                | 0 => .error .tooManyLinks
                | links + 1 =>
                    if target.toList.head? == some '/' then .error .notFound
                    else writeTarget top links here (pathParts target ++ rest)
            | some (.file _) =>
                if rest.isEmpty then .ok (here ++ [part]) else .error .notADirectory
            | some (.directory _) => writeTarget top links (here ++ [part]) rest
      | some _ => .error .notADirectory
      | none => .error .notFound
  termination_by parts => (links, parts.length)

/-- Writes a file, in place of what it held before. -/
def writeFile (v : Volume) (path text : String) : Except SystemError Volume :=
  match v.start? path with
  | none => .error .notFound
  | some (start, parts) =>
      (writeTarget v.top maxLinks start parts).map fun target =>
        { v with top := FileTree.insertAt (.file text.toUTF8) target v.top }

end RepoAudit.Volume
