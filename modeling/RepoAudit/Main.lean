import RepoAudit.CommandLine.Run
import RepoAudit.CommandLine.Usage
import Std.Time.DateTime.Timestamp

/-!
# The program

The part of the file system that an invocation can reach is read into a volume, the invocation is
run on it, and a report that was written there is written to the same place outside.
-/

namespace RepoAudit.Survey

/-- The location of a path, seen from a directory. -/
def locate (here : Location) (path : String) : Location :=
  let start := if path.toList.head? == some '/' then [] else here
  (pathParts path).foldl (fun above part =>
    if part == "" || part == "." then above
    else if part == ".." then above.dropLast
    else above ++ [part]) start

def pathOf (here : Location) : String :=
  "/" ++ "/".intercalate here

/-- The path from a directory to a location: up to the top, then down. -/
def climb (here target : Location) : String :=
  "/".intercalate (here.map (fun _ => "..") ++ target)

/-- What is known so far: the tree, the locations read with all they hold, and where links lead. -/
structure Known where
  top : FileTree := .directory []
  read : List Location := []
  targets : List Location := []

abbrev Surveyor := StateT Known IO

/-- A link to the real place of what it leads to.  One that leads nowhere leads to a name that is
not there, and one that never ends to itself. -/
def readLink (here : Location) (entry : IO.FS.DirEntry) : Surveyor FileTree := do
  try
    let _ ← entry.path.metadata
    let target := locate [] (← IO.FS.realPath entry.path).toString
    modify fun k => { k with targets := target :: k.targets }
    return .link (climb here target)
  catch
    | .noFileOrDirectory .. => return .link (entry.fileName ++ ".missing")
    | _ => return .link entry.fileName

/-- The tree below an entry of the directory `here`. -/
partial def readEntry (here : Location) (entry : IO.FS.DirEntry) : Surveyor FileTree := do
  match (← entry.path.symlinkMetadata).type with
  | .dir =>
      let inside := here ++ [entry.fileName]
      let mut entries := []
      for e in ← entry.path.readDir do
        entries := FileTree.insertEntry e.fileName (← readEntry inside e) entries
      return .directory entries
  | .symlink => readLink here entry
  | _ => return .file (← IO.FS.readBinFile entry.path)

/-- The nearest directory above a location that is there, without what it holds. -/
def addAbove (here : Location) : Surveyor Unit := do
  for n in (List.range here.length).reverse do
    let above := here.take (n + 1)
    if ((← get).top.at? above).isSome then return
    let entry : IO.FS.DirEntry := ⟨pathOf above.dropLast, above.getLastD ""⟩
    if ← entry.path.isDir then
      modify fun k => { k with top := FileTree.insertAt (.directory []) above k.top }
      return

/-- Reads what is at a location, if anything is, and then what its links lead to. -/
partial def add (here : Location) : Surveyor Unit := do
  if (← get).read.any (·.isPrefixOf here) then return
  modify fun k => { k with read := here :: k.read }
  let entry : IO.FS.DirEntry := ⟨pathOf here.dropLast, here.getLastD ""⟩
  if ← entry.path.pathExists then
    let found ← readEntry here.dropLast entry
    modify fun k => { k with top := FileTree.insertAt found here k.top }
  else addAbove here
  let targets := (← get).targets
  modify fun k => { k with targets := [] }
  for target in targets do add target

end RepoAudit.Survey

namespace RepoAudit.CommandLine

/-- The paths that a command reads. -/
def Command.inputs : Command → List String
  | .tree _ path | .migrate path _ | .all path _ => [path]
  | .pull input lcov => input :: lcov.toList
  | .contributors input => [input]
  | .issues feed pulls => feed :: pulls.toList
  | .listMigrations => []

/-- The volume that an invocation can look at, from a working directory. -/
def Invocation.survey (i : Invocation) (working : Location) : IO Volume := do
  let v : Volume := ⟨"", .directory [], working⟩
  let start := Survey.locate working (i.command.start v)
  let settings := (List.range (start.length + 1)).map fun n => start.take n ++ [Config.fileName]
  let inputs := (i.command.inputs ++ i.config.toList).map (Survey.locate working)
  let all : Survey.Surveyor Unit := do
    Survey.addAbove working
    for here in inputs ++ settings do Survey.add here
    for path in i.output.toList do Survey.addAbove (Survey.locate working path)
  let ((), known) ← all.run {}
  return { v with top := known.top }

/-- The present time. -/
def presentTime : IO Timestamp := do
  let now ← Std.Time.Timestamp.now
  return ⟨now.toSecondsSinceUnixEpoch.toInt, now.val.nano.val.toNat⟩

/-- Writes the file that a run left in its volume. -/
def store (v : Volume) (path : String) : IO Unit := do
  match v.readText path with
  | .error _ => return
  | .ok text =>
      if let some parent := Path.parent? path then
        if !parent.isEmpty then IO.FS.createDirAll parent
      IO.FS.writeFile path text

def execute (i : Invocation) : IO UInt32 := do
  let working := Survey.locate [] (← IO.currentDir).toString
  let v ← i.survey working
  let outcome := run v (← presentTime) i
  match outcome.answer with
  | .error e =>
      IO.eprintln ("Error: " ++ e.message)
      return 1
  | .ok text =>
      match i.command, i.output with
      | .listMigrations, _ | _, none => IO.print text
      | _, some path => store outcome.volume path
      return 0

end RepoAudit.CommandLine

open RepoAudit.CommandLine in
def main (args : List String) : IO UInt32 := do
  match Invocation.ofArguments args with
  | .ok i => execute i
  | .error e =>
      if e.isAnswer then
        IO.print e.message
        return 0
      else
        IO.eprint e.message
        return 2
