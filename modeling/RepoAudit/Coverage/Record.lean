import RepoAudit.Decimal.Unsigned

/-!
# Coverage records

A coverage report is a list of records, one a line: a kind, a colon and fields between commas.
-/

namespace RepoAudit.Coverage

open Decimal (UnsignedError readUnsigned)

/-- The records as far as line coverage needs them; every other kind is `other`. -/
inductive Record where
  | source (path : String)
  | line (number count : Nat)
  | sectionEnd
  | other

inductive RecordError where
  | unknownRecord
  | tooManyFields
  | missingField (name : String)
  | badField (name : String) (error : UnsignedError)

def RecordError.message : RecordError → String
  | .unknownRecord => "unknown record"
  | .tooManyFields => "too many fields found"
  | .missingField name => "field `" ++ name ++ "` not found"
  | .badField name error => "invalid value of field `" ++ name ++ "`: " ++ error.message

/-- The fields not read yet. -/
abbrev Fields := List Text

/-- Reads the next field as a number below the limit. -/
def takeNumber (name : String) (limit : Nat) : Fields → Except RecordError (Nat × Fields)
  | [] => .error (.missingField name)
  | f :: fields =>
      match readUnsigned limit f with
      | .ok n => .ok (n, fields)
      | .error e => .error (.badField name e)

/-- Reads the next field as a number, or as `-` for none. -/
def takeOptionalNumber (name : String) (limit : Nat) : Fields → Except RecordError Fields
  | ['-'] :: fields => .ok fields
  | fields => (takeNumber name limit fields).map Prod.snd

def takeText (name : String) : Fields → Except RecordError Unit
  | [] => .error (.missingField name)
  | _ :: _ => .ok ()

def noMore : Fields → Except RecordError Unit
  | [] => .ok ()
  | _ :: _ => .error .tooManyFields

/-- A record of one number. -/
def readTotal (name : String) (fields : Fields) : Except RecordError Record := do
  let (_, fields) ← takeNumber name UInt32.size fields
  noMore fields
  return .other

def Record.ofLine (t : Text) : Except RecordError Record := do
  let kind := t.before ':'
  let body := t.drop (kind.length + 1)
  let fields := Text.splitBy (· == ',') body
  match String.ofList kind with
  | "TN" => return .other
  | "SF" => return .source (String.ofList body)
  | "FN" =>
      let (_, fields) ← takeNumber "start_line" UInt32.size fields
      takeText "name" fields
      return .other
  | "FNDA" =>
      let (_, fields) ← takeNumber "count" UInt64.size fields
      takeText "name" fields
      return .other
  | "FNF" | "BRF" | "LF" => readTotal "found" fields
  | "FNH" | "BRH" | "LH" => readTotal "hit" fields
  | "BRDA" =>
      let (_, fields) ← takeNumber "line" UInt32.size fields
      let (_, fields) ← takeNumber "block" UInt32.size fields
      let (_, fields) ← takeNumber "branch" UInt32.size fields
      let fields ← takeOptionalNumber "taken" UInt64.size fields
      noMore fields
      return .other
  | "DA" =>
      let (number, fields) ← takeNumber "line" UInt32.size fields
      let (count, _) ← takeNumber "count" UInt64.size fields
      return .line number count
  | "end_of_record" => return .sectionEnd
  | _ => throw .unknownRecord

end RepoAudit.Coverage
