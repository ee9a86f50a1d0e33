import RepoAudit.CommandLine.Flag

/-!
# Reading arguments

Arguments are read from left to right.  The value that follows its flag, and a path, are looked at
only when the next flag or path, or the end, comes; a value attached to its flag at once.  So of
two faults the one that is met first in this order is reported.
-/

namespace RepoAudit.CommandLine

/-- What has been given but not yet looked at. -/
inductive Pending where
  | flag (flag : Flag) (value : Option String)
  | path (value : String)

structure Reading where
  /-- Values that have been accepted. -/
  values : List (Flag × String) := []
  path : Option String := none
  listed : Bool := false
  verbosity : Nat := 0
  pending : Option Pending := none
  /-- After `--` everything is a path. -/
  pathsOnly : Bool := false

namespace Reading

def value? (r : Reading) (f : Flag) : Option String :=
  r.values.lookup f

/-- A flag stands last that takes a value. -/
def awaitsValue (r : Reading) : Option Flag :=
  match r.pending with
  | some (.flag f none) => some f
  | _ => none

def accept (r : Reading) (f : Flag) (value : String) : Except UsageError Reading :=
  if (r.value? f).isSome then .error .conflict
  else
    match f.refusal? value with
    | some e => .error e
    | none => .ok { r with values := r.values ++ [(f, value)] }

/-- Looks at what is pending. -/
def settle (r : Reading) : Except UsageError Reading :=
  let settled := { r with pending := none }
  match r.pending with
  | none => .ok r
  | some (.flag _ none) => .error .invalidValue
  | some (.flag f (some value)) => settled.accept f value
  | some (.path value) =>
      if value.isEmpty then .error .invalidValue else .ok { settled with path := some value }

/-- A flag with the value attached to it. -/
def giveAttached (r : Reading) (f : Flag) (value : String) : Except UsageError Reading := do
  (← r.settle).accept f value

/-- A flag whose value is to follow. -/
def giveOpen (r : Reading) (f : Flag) : Except UsageError Reading := do
  return { ← r.settle with pending := some (.flag f none) }

/-- A flag without a value. -/
def giveBare (r : Reading) (f : Flag) : Except UsageError Reading := do
  let r ← r.settle
  match f with
  | .help => throw .helpRequested
  | .version => throw .versionRequested
  | .list => if r.listed then throw .conflict else return { r with listed := true }
  | _ => return { r with verbosity := r.verbosity + 1 }

/-- An argument that begins with two dashes, without them. -/
def readLong (flags : List Flag) (r : Reading) (arg : Text) : Except UsageError Reading :=
  let name := Text.before arg '='
  match flags.find? fun f => f.longName == String.ofList name, arg.drop name.length with
  | none, _ => .error .unknownArgument
  | some f, [] => if f.takesValue then r.giveOpen f else r.giveBare f
  | some f, _ :: value =>
      if f.takesValue then r.giveAttached f (String.ofList value) else .error .surplusValue

/-- The letters after a single dash: flags, of which the last may have its value attached. -/
def readShort (flags : List Flag) : Reading → Text → Except UsageError Reading
  | r, [] => .ok r
  | r, c :: rest =>
      match flags.find? fun f => f.shortName? == some c with
      | none => .error .unknownArgument
      | some f =>
          if f.takesValue then
            match rest with
            | [] => r.giveOpen f
            | '=' :: value => r.giveAttached f (String.ofList value)
            | value => r.giveAttached f (String.ofList value)
          else
            match r.giveBare f with
            | .ok r => readShort flags r rest
            | .error e => .error e

def hasPath (r : Reading) : Bool :=
  r.path.isSome ||
    match r.pending with
    | some (.path _) => true
    | _ => false

end Reading

/-- A word that names a command, or asks for help like one. -/
def isCommandWord (word : String) : Bool :=
  word == "help" || (CommandName.ofText? word).isSome

/-- An argument where no path may stand. -/
def strayError (command : Option CommandName) (pathsOnly : Bool) (arg : String) : UsageError :=
  match command with
  | some _ => .unknownArgument
  | none => if pathsOnly && isCommandWord arg then .unknownArgument else .unknownCommand

def readPath (command : Option CommandName) (r : Reading) (arg : String) :
    Except UsageError Reading :=
  if command.any CommandName.takesPath && !r.hasPath then do
    return { ← r.settle with pending := some (.path arg) }
  else .error (strayError command r.pathsOnly arg)

/-- One argument that names no command. -/
def readArgument (command : Option CommandName) (r : Reading) (arg : String) :
    Except UsageError Reading :=
  if r.pathsOnly then readPath command r arg
  else
    match arg.toList with
    | ['-', '-'] => .ok { r with pathsOnly := true }
    | '-' :: '-' :: long => r.readLong (flagsOf command) long
    | '-' :: c :: rest => r.readShort (flagsOf command) (c :: rest)
    | _ =>
        match r.awaitsValue with
        | some f => .ok { r with pending := some (.flag f (some arg)) }
        | none => readPath command r arg

/-- The arguments of a command. -/
def readCommand (command : CommandName) : Reading → List String → Except UsageError Reading
  | r, [] => .ok r
  | r, arg :: args => do
      let r ← readArgument (some command) r arg
      readCommand command r args

/-- What is answered to `help` and the words after it. -/
def helpAnswer : List String → UsageError
  | [] => .helpRequested
  | [word] => if isCommandWord word then .helpRequested else .unknownCommand
  | _ => .unknownCommand

/-- The arguments up to the name of a command, that name, and the arguments after it. -/
def readLeading : Reading → List String →
    Except UsageError (Reading × Option (CommandName × List String))
  | r, [] => .ok (r, none)
  | r, arg :: args => do
      if !r.pathsOnly && r.awaitsValue.isNone then
        if arg == "help" then throw (helpAnswer args)
        if let some command := CommandName.ofText? arg then return (r, some (command, args))
      let r ← readArgument none r arg
      readLeading r args

end RepoAudit.CommandLine
