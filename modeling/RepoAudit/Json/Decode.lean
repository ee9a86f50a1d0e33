import RepoAudit.Json.Reader
import RepoAudit.Text.Printable

/-!
# Typed payloads

A decoder turns a node into a value of a payload type or refuses it.  A record stands in a text as
an object with named members or as a list of its fields in order.  Members nobody knows are
skipped, a known one may stand only once, and the first refusal in the order of the text counts.
-/

namespace RepoAudit.Json

/-- Why a node was refused.  A refusal without a place gets the place at which reading stands when
the container around it is left. -/
inductive Refusal where
  | placed (fault : Fault)
  | unplaced (cause : Cause)

abbrev Decoder (α : Type) := Node → Except Refusal α

def Refusal.placeAt (offset : Nat) : Refusal → Refusal
  | .placed fault => .placed fault
  | .unplaced cause => .placed ⟨cause, offset⟩

def Refusal.message (t : Text) : Refusal → String
  | .placed fault => fault.message t
  | .unplaced cause => cause.message

def orRefuse (r : Except Fault α) : Except Refusal α :=
  r.mapError .placed

/-- A character of a quoted string as complaints show it. -/
def showChar (c : Char) : Text :=
  match c with
  | '"' => ['\\', '"']
  | '\\' => ['\\', '\\']
  | '\n' => ['\\', 'n']
  | '\r' => ['\\', 'r']
  | '\t' => ['\\', 't']
  | _ =>
      if c.toNat = 0 then ['\\', '0']
      else if isPrintable c then [c]
      else ['\\', 'u', '\x7b'] ++ Nat.toDigits 16 c.toNat ++ ['\x7d']

/-- A node in a complaint about its type. -/
def Node.describe : Node → Except Fault String
  | .null _ => .ok "null"
  | .bool b _ => .ok ("boolean `" ++ (if b then "true" else "false") ++ "`")
  | .int n _ => .ok ("integer `" ++ toString n ++ "`")
  | .float f _ => f.map fun f => "floating point `" ++ (Decimal.ofFloat f).withFraction ++ "`"
  | .text s _ =>
      s.map fun s => "string " ++ String.ofList ('"' :: s.toList.flatMap showChar ++ ['"'])
  | .array .. => .ok "sequence"
  | .object .. => .ok "map"
  | .broken b => .error b.whenRead

def wrongType (expected : String) (node : Node) : Except Refusal α := do
  let found ← orRefuse node.describe
  throw (.placed ⟨.wrongType found expected, node.typeOffset⟩)

/-! ## Plain values -/

def decodeNat : Decoder Nat
  | .int n stop =>
      if 0 ≤ n then .ok n.toNat
      else .error (.placed ⟨.wrongValue ("integer `" ++ toString n ++ "`") "u64", stop⟩)
  | node => wrongType "u64" node

def intToFloat (n : Int) : Float :=
  if n < 0 then -(-n).toNat.toUInt64.toFloat else n.toNat.toUInt64.toFloat

def decodeFloat : Decoder Float
  | .int n _ => .ok (intToFloat n)
  | .float f _ => orRefuse f
  | node => wrongType "f64" node

def decodeText : Decoder String
  | .text s _ => orRefuse s
  | node => wrongType "a string" node

/-- Nothing in place of `null`. -/
def decodeOption (decode : Decoder α) : Decoder (Option α)
  | .null _ => .ok none
  | node => (decode node).map some

def decodeValue : Decoder Json :=
  fun node => orRefuse node.value

/-! ## Lists -/

def decodeItems (decode : Decoder α) : List Node → List Exit → Except Refusal (List α)
  | [], _ => .ok []
  | item :: items, exits => do
      let offset := (exits.head?.map Exit.offset).getD 0
      let value ← (decode item).mapError (Refusal.placeAt offset)
      let values ← decodeItems decode items exits.tail
      return value :: values

def decodeList (decode : Decoder α) : Decoder (List α)
  | .array start deep items exits close => do
      if deep then throw (.placed ⟨.tooDeep, start + 1⟩)
      let values ← decodeItems decode items exits
      discard (orRefuse (close.mapError Break.whenRead))
      return values
  | node => wrongType "a sequence" node

/-! ## Records -/

/-- A field of a record: the names it may stand under, whether it has to be there, and how its
value enters the record. -/
structure FieldRule (α : Type) where
  name : String
  aliases : List String := []
  required : Bool := false
  read : Node → α → Except Refusal α

/-- A field whose decoded value is put into the record. -/
def field (name : String) (decode : Decoder β) (put : β → α → α) : FieldRule α :=
  { name, read := fun node a => (decode node).map (put · a) }

def FieldRule.mandatory (f : FieldRule α) : FieldRule α :=
  { f with required := true }

def FieldRule.alsoCalled (f : FieldRule α) (aliases : List String) : FieldRule α :=
  { f with aliases }

def FieldRule.answersTo (f : FieldRule α) (name : String) : Bool :=
  f.name == name || f.aliases.contains name

/-- Reads the members in their order; gives the record and the names of the fields that were
there. -/
def decodeMembers (fields : List (FieldRule α)) :
    (seen : List String) → α → List (Except Fault String × Nat × Node) →
      Except Refusal (α × List String)
  | seen, a, [] => .ok (a, seen)
  | seen, a, (name, stand, node) :: members => do
      let name ← orRefuse name
      match fields.find? (·.answersTo name) with
      | none =>
          orRefuse node.skip
          decodeMembers fields seen a members
      | some f =>
          if seen.contains f.name then throw (.placed ⟨.duplicateField f.name, stand⟩)
          let a ← f.read node a
          decodeMembers fields (f.name :: seen) a members

def elementCount (n : Nat) : String :=
  toString n ++ (if n = 1 then " element" else " elements")

/-- Reads the fields in their order from the items of a list. -/
def decodePositions (expected : String) (close : Except Break Nat) :
    (index : Nat) → List (FieldRule α) → α → List Node → (last : Option Exit) → List Exit →
      Except Refusal α
  | _, [], a, _, last, _ => do
      match last with
      | none => pure ()
      | some exit =>
          match exit.fault with
          | none => pure ()
          | some fault => throw (.placed fault)
      return a
  | index, f :: fields, a, item :: items, _, exits => do
      let offset := (exits.head?.map Exit.offset).getD 0
      let a ← (f.read item a).mapError (Refusal.placeAt offset)
      decodePositions expected close (index + 1) fields a items exits.head? exits.tail
  | index, f :: fields, a, [], _, exits => do
      let stop ← orRefuse (close.mapError Break.whenRead)
      if f.required then throw (.placed ⟨.wrongLength index expected, stop⟩)
      decodePositions expected close (index + 1) fields a [] none exits

/-- A record of the named type, which starts out as `empty`. -/
def decodeRecord (type : String) (fields : List (FieldRule α)) (empty : α) : Decoder α
  | .object start deep members close => do
      if deep then throw (.placed ⟨.tooDeep, start + 1⟩)
      let (a, seen) ← decodeMembers fields [] empty members
      let stop ← orRefuse (close.mapError Break.whenRead)
      match fields.find? fun f => f.required && !seen.contains f.name with
      | some f => throw (.placed ⟨.missingField f.name, stop⟩)
      | none => return a
  | .array start deep items exits close => do
      if deep then throw (.placed ⟨.tooDeep, start + 1⟩)
      let expected := "struct " ++ type ++ " with " ++ elementCount fields.length
      decodePositions expected close 0 fields empty items none exits
  | node => wrongType ("struct " ++ type) node

/-- A record that must stand as an object. -/
def decodeObject (fields : List (FieldRule α)) (empty : α) : Decoder α
  | node@(.object ..) => decodeRecord "" fields empty node
  | node => wrongType "a map" node

/-- The first of the forms that accepts a value which is JSON throughout. -/
def decodeVariant (type : String) (forms : List (Decoder α)) : Decoder α :=
  fun node => do
    discard (orRefuse node.value)
    match forms.findSome? fun form => (form node).toOption with
    | some a => return a
    | none => throw (.unplaced (.noVariant type))

/-- A payload that takes up the whole text. -/
def decodeWhole (decode : Decoder α) (t : Text) : Except Refusal α := do
  let document := Document.ofText t
  let value ← decode document.root
  match document.trailing with
  | none => return value
  | some fault => throw (.placed fault)

end RepoAudit.Json
