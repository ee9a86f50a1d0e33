import RepoAudit.Json.Basic

/-!
# JSON as it stands in a text

A `Node` is a value together with what an error about it has to name: the byte offsets at which
reading stands after it.  A text that stops being JSON still has a node, cut off by a `Break`, so a
reader that refuses an earlier part does so before the break is reached.  Reading a value and
skipping over one that nobody asked for meet the same break with different faults.
-/

namespace RepoAudit.Json

inductive Cause where
  | listEnds
  | objectEnds
  | stringEnds
  | valueEnds
  | noColon
  | noListSeparator
  | noObjectSeparator
  | badName
  | noValue
  | badEscape
  | badNumber
  | numberTooLarge
  | loneSurrogate
  | halfSurrogate
  | controlCharacter
  | keyNotText
  | trailingComma
  | trailingText
  | tooDeep
  | wrongType (found expected : String)
  | wrongValue (found expected : String)
  | wrongLength (length : Nat) (expected : String)
  | missingField (name : String)
  | duplicateField (name : String)
  | noVariant (type : String)

def Cause.message : Cause → String
  | .listEnds => "EOF while parsing a list"
  | .objectEnds => "EOF while parsing an object"
  | .stringEnds => "EOF while parsing a string"
  | .valueEnds => "EOF while parsing a value"
  | .noColon => "expected `:`"
  | .noListSeparator => "expected `,` or `]`"
  | .noObjectSeparator => "expected `,` or `\x7d`"
  | .badName => "expected ident"
  | .noValue => "expected value"
  | .badEscape => "invalid escape"
  | .badNumber => "invalid number"
  | .numberTooLarge => "number out of range"
  | .loneSurrogate => "lone leading surrogate in hex escape"
  | .halfSurrogate => "unexpected end of hex escape"
  | .controlCharacter => "control character (\\u0000-\\u001F) found while parsing a string"
  | .keyNotText => "key must be a string"
  | .trailingComma => "trailing comma"
  | .trailingText => "trailing characters"
  | .tooDeep => "recursion limit exceeded"
  | .wrongType found expected => "invalid type: " ++ found ++ ", expected " ++ expected
  | .wrongValue found expected => "invalid value: " ++ found ++ ", expected " ++ expected
  | .wrongLength length expected => "invalid length " ++ toString length ++ ", expected " ++ expected
  | .missingField name => "missing field `" ++ name ++ "`"
  | .duplicateField name => "duplicate field `" ++ name ++ "`"
  | .noVariant type => "data did not match any variant of untagged enum " ++ type

structure Fault where
  cause : Cause
  offset : Nat

/-- The line, from one, and the bytes of that line before the offset. -/
def lineAndColumn : (offset : Nat) → Text → (line column : Nat) → Nat × Nat
  | _, [], line, column => (line, column)
  | offset, c :: rest, line, column =>
      if offset = 0 then (line, column)
      else if c == '\n' then lineAndColumn (offset - 1) rest (line + 1) 0
      else lineAndColumn (offset - c.utf8Size) rest line (column + min c.utf8Size offset)

def Fault.message (f : Fault) (t : Text) : String :=
  let (line, column) := lineAndColumn f.offset t 1 0
  f.cause.message ++ " at line " ++ toString line ++ " column " ++ toString column

/-- The place where a text stops being JSON. -/
structure Break where
  whenRead : Fault
  whenSkipped : Fault

/-- A break that readers and skippers report alike. -/
def Break.plain (cause : Cause) (offset : Nat) : Break :=
  ⟨⟨cause, offset⟩, ⟨cause, offset⟩⟩

/-- Where reading stands when a list is left after one of its items, and what is wrong with leaving
it there: nothing when the list ends. -/
structure Exit where
  offset : Nat
  fault : Option Fault

inductive Node where
  | null (stop : Nat)
  | bool (value : Bool) (stop : Nat)
  | int (value : Int) (stop : Nat)
  | float (value : Except Fault Float) (stop : Nat)
  | text (value : Except Fault String) (stop : Nat)
  /-- `deep` marks a list or an object nested deeper than readers follow. -/
  | array (start : Nat) (deep : Bool) (items : List Node) (exits : List Exit)
      (close : Except Break Nat)
  /-- Each member has its name, the offset at which reading stands after the name, and its value. -/
  | object (start : Nat) (deep : Bool) (members : List (Except Fault String × Nat × Node))
      (close : Except Break Nat)
  | broken (cut : Break)
  deriving Inhabited

/-- The offset a complaint about the type of a value names. -/
def Node.typeOffset : Node → Nat
  | .null stop | .bool _ stop | .int _ stop | .float _ stop | .text _ stop => stop
  | .array start .. | .object start .. => start
  | .broken b => b.whenRead.offset

mutual

/-- What goes wrong when the value is skipped over. -/
def Node.skip : Node → Except Fault Unit
  | .null _ | .bool .. | .int .. | .float .. | .text .. => .ok ()
  | .array _ _ items _ close => do
      Node.skipItems items
      discard (close.mapError Break.whenSkipped)
  | .object _ _ members close => do
      Node.skipMembers members
      discard (close.mapError Break.whenSkipped)
  | .broken b => .error b.whenSkipped

def Node.skipItems : List Node → Except Fault Unit
  | [] => .ok ()
  | item :: items => do
      item.skip
      Node.skipItems items

def Node.skipMembers : List (Except Fault String × Nat × Node) → Except Fault Unit
  | [] => .ok ()
  | (_, _, value) :: members => do
      value.skip
      Node.skipMembers members

end

mutual

/-- The value that stands here, read as it is. -/
def Node.value : Node → Except Fault Json
  | .null _ => .ok .null
  | .bool b _ => .ok (.bool b)
  | .int n _ => .ok (.int n)
  | .float f _ => f.map .float
  | .text s _ => s.map .str
  | .array start deep items _ close => do
      if deep then throw ⟨.tooDeep, start + 1⟩
      let values ← Node.itemValues items
      discard (close.mapError Break.whenRead)
      return .arr values
  | .object start deep members close => do
      if deep then throw ⟨.tooDeep, start + 1⟩
      let values ← Node.memberValues members
      discard (close.mapError Break.whenRead)
      return sortedObject values
  | .broken b => .error b.whenRead

def Node.itemValues : List Node → Except Fault (List Json)
  | [] => .ok []
  | item :: items => do
      let value ← item.value
      let values ← Node.itemValues items
      return value :: values

def Node.memberValues :
    List (Except Fault String × Nat × Node) → Except Fault (List (String × Json))
  | [] => .ok []
  | (name, _, node) :: members => do
      let name ← name
      let value ← node.value
      let values ← Node.memberValues members
      return (name, value) :: values

end

end RepoAudit.Json
