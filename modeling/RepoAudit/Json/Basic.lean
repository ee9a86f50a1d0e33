import RepoAudit.Text.Basic
import RepoAudit.Decimal.Shortest

/-!
# JSON values

Reports are written as JSON and payloads are read from it.  Members keep their order.  A value read
from a text has its members sorted by name, each name once, with its last value.
-/

namespace RepoAudit

inductive Json where
  | null
  | bool (value : Bool)
  | int (value : Int)
  | float (value : Float)
  | str (value : String)
  | arr (items : List Json)
  | obj (members : List (String × Json))
  deriving Inhabited

namespace Json

def nat (n : Nat) : Json :=
  .int n

def strings (ss : List String) : Json :=
  .arr (ss.map .str)

def ofOption (encode : α → Json) : Option α → Json
  | none => .null
  | some a => encode a

def list (encode : α → Json) (xs : List α) : Json :=
  .arr (xs.map encode)

/-- The value of a member, when this is an object that has it. -/
def get? (j : Json) (name : String) : Option Json :=
  match j with
  | .obj members => members.lookup name
  | _ => none

def str? : Json → Option String
  | .str s => some s
  | _ => none

def items? : Json → Option (List Json)
  | .arr items => some items
  | _ => none

def members? : Json → Option (List (String × Json))
  | .obj members => some members
  | _ => none

/-- Puts a member in its place among sorted members, over an earlier one of the same name. -/
def insertMember (name : String) (value : Json) : List (String × Json) → List (String × Json)
  | [] => [(name, value)]
  | (other, old) :: rest =>
      if name == other then (name, value) :: rest
      else if nameLe name other then (name, value) :: (other, old) :: rest
      else (other, old) :: insertMember name value rest

/-- An object whose members are sorted by name; of equal names the last value stays. -/
def sortedObject (members : List (String × Json)) : Json :=
  .obj (members.foldl (fun sorted (name, value) => insertMember name value sorted) [])

end Json
end RepoAudit
