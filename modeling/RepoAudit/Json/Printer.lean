import RepoAudit.Json.Basic

/-!
# Written JSON

Two forms: on one line without blanks, and indented by two blanks for each level.  Strings escape
the quotation mark, the reverse solidus and the control characters and nothing else.
-/

namespace RepoAudit.Json

def hexDigit (n : Nat) : Char :=
  if n < 10 then Char.ofNat (48 + n) else Char.ofNat (87 + n)

def escapeChar (c : Char) : Text :=
  if c == '"' then ['\\', '"']
  else if c == '\\' then ['\\', '\\']
  else if c == '\n' then ['\\', 'n']
  else if c == '\r' then ['\\', 'r']
  else if c == '\t' then ['\\', 't']
  else if c.toNat == 8 then ['\\', 'b']
  else if c.toNat == 12 then ['\\', 'f']
  else if c.toNat < 32 then
    ['\\', 'u', '0', '0', hexDigit (c.toNat / 16), hexDigit (c.toNat % 16)]
  else [c]

def quote (s : String) : String :=
  String.ofList ('"' :: s.toList.flatMap escapeChar ++ ['"'])

def floatForm (f : Float) : String :=
  if f.isNaN || f.isInf then "null" else (Decimal.ofFloat f).withFraction

mutual

def compact : Json → String
  | .null => "null"
  | .bool true => "true"
  | .bool false => "false"
  | .int n => toString n
  | .float f => floatForm f
  | .str s => quote s
  | .arr items => "[" ++ ",".intercalate (compactItems items) ++ "]"
  | .obj members => "\x7b" ++ ",".intercalate (compactMembers members) ++ "\x7d"

def compactItems : List Json → List String
  | [] => []
  | item :: items => item.compact :: compactItems items

def compactMembers : List (String × Json) → List String
  | [] => []
  | (name, value) :: members => (quote name ++ ":" ++ value.compact) :: compactMembers members

end

/-- Lines between an opening and a closing bracket, one for each piece. -/
def block (opening closing : String) (indent : String) (pieces : List String) : String :=
  if pieces.isEmpty then opening ++ closing
  else
    let inner := "\n" ++ indent ++ "  "
    opening ++ inner ++ ("," ++ inner).intercalate pieces ++ "\n" ++ indent ++ closing

mutual

def indented (indent : String) : Json → String
  | .arr items => block "[" "]" indent (indentedItems (indent ++ "  ") items)
  | .obj members => block "\x7b" "\x7d" indent (indentedMembers (indent ++ "  ") members)
  | .null => "null"
  | .bool true => "true"
  | .bool false => "false"
  | .int n => toString n
  | .float f => floatForm f
  | .str s => quote s

def indentedItems (indent : String) : List Json → List String
  | [] => []
  | item :: items => indented indent item :: indentedItems indent items

def indentedMembers (indent : String) : List (String × Json) → List String
  | [] => []
  | (name, value) :: members =>
      (quote name ++ ": " ++ indented indent value) :: indentedMembers indent members

end

/-- The indented form, from the left margin. -/
def pretty (j : Json) : String :=
  indented "" j

end RepoAudit.Json
