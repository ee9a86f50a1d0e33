import RepoAudit.Text.Basic

/-!
# Paths

Paths are text with `/` between their segments.  An empty segment, and a `.` that does not stand
first, name nothing and are passed over.
-/

namespace RepoAudit.Path

def segments (path : String) : List String :=
  (Text.splitBy (· == '/') path.toList).map String.ofList

def ofSegments (segments : List String) : String :=
  "/".intercalate segments

def join (base name : String) : String :=
  if name.toList.head? == some '/' || base.isEmpty then name
  else if base.toList.getLast? == some '/' then base ++ name
  else base ++ "/" ++ name

/-- Of segments in reverse order, those from the last one that names something. -/
def dropUnnamed : List String → List String
  | [] => []
  | [first] => [first]
  | last :: rest => if last == "" || last == "." then dropUnnamed rest else last :: rest

/-- The path without its last named segment, when it has one. -/
def parent? (path : String) : Option String :=
  match dropUnnamed (segments path).reverse with
  | [] | [""] => none
  | _ :: rest =>
      match (dropUnnamed rest).reverse with
      | [""] => some "/"
      | kept => some (ofSegments kept)

/-- The path and the paths above it, nearest first, at most `depth` in all. -/
def ancestors (path : String) : (depth : Nat) → List String
  | 0 => []
  | depth + 1 =>
      path :: match parent? path with
        | some parent => ancestors parent depth
        | none => []

/-- The last named segment, unless it only points upwards or nowhere. -/
def fileName? (path : String) : Option String :=
  match dropUnnamed (segments path).reverse with
  | [] => none
  | last :: _ => if last == "" || last == "." || last == ".." then none else some last

/-- What follows the last dot of a file name, unless that dot comes first. -/
def nameExtension? (name : String) : Option String :=
  let reversed := name.toList.reverse
  let ext := reversed.takeWhile (· != '.')
  match reversed.drop ext.length with
  | '.' :: _ :: _ => some (String.ofList ext.reverse)
  | _ => none

def extension? (path : String) : Option String :=
  (fileName? path).bind nameExtension?

/-- The extension in small letters, empty when there is none. -/
def extensionKey (path : String) : String :=
  match extension? path with
  | some ext => String.ofList (Text.lower ext.toList)
  | none => ""

end RepoAudit.Path
