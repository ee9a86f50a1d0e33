import RepoAudit.Toml.Basic

/-!
# Reading TOML

A text is accepted as a whole or not at all; what is wrong with a refused one is not said.
-/

namespace RepoAudit.Toml

def isSpace (c : Char) : Bool :=
  c == ' ' || c == '\t'

def isControl (c : Char) : Bool :=
  (c.toNat < 32 && c != '\t') || c.toNat == 127

def skipSpace (t : Text) : Text :=
  t.dropWhile isSpace

/-- Passes over blanks, line ends and comments. -/
def skipTrivia (inComment : Bool) : Text → Option Text
  | [] => some []
  | '\n' :: rest => skipTrivia false rest
  | '\r' :: '\n' :: rest => skipTrivia false rest
  | c :: rest =>
      if inComment then (if isControl c then none else skipTrivia true rest)
      else if isSpace c then skipTrivia false rest
      else if c == '#' then skipTrivia true rest
      else some (c :: rest)

/-- Passes over the end of a line, with blanks and a comment before it. -/
def lineEnd (inComment : Bool) : Text → Option Text
  | [] => some []
  | '\n' :: rest => some rest
  | '\r' :: '\n' :: rest => some rest
  | c :: rest =>
      if inComment then (if isControl c then none else lineEnd true rest)
      else if isSpace c then lineEnd false rest
      else if c == '#' then lineEnd true rest
      else none

/-! ## Strings -/

def hexValue? (c : Char) : Option Nat :=
  let n := c.toNat
  if 48 ≤ n && n ≤ 57 then some (n - 48)
  else if 97 ≤ n && n ≤ 102 then some (n - 87)
  else if 65 ≤ n && n ≤ 70 then some (n - 55)
  else none

def hexNumber? (digits : Text) : Option Nat :=
  digits.foldlM (fun n c => (hexValue? c).map (n * 16 + ·)) 0

/-- The character that so many hexadecimal digits write. -/
def scalar? (width : Nat) (t : Text) : Option (Char × Text) := do
  let digits := t.take width
  if digits.length < width then none
  let n ← hexNumber? digits
  if n < 0xD800 ∨ (0xDFFF < n ∧ n < 0x110000) then some (Char.ofNat n, t.drop width) else none

/-- An escape from after its backslash. -/
def escape? : Text → Option (Char × Text)
  | [] => none
  | c :: rest =>
      match c with
      | 'b' => some (Char.ofNat 8, rest)
      | 't' => some ('\t', rest)
      | 'n' => some ('\n', rest)
      | 'f' => some (Char.ofNat 12, rest)
      | 'r' => some ('\r', rest)
      | 'e' => some (Char.ofNat 27, rest)
      | '"' => some ('"', rest)
      | '\\' => some ('\\', rest)
      | 'x' => scalar? 2 rest
      | 'u' => scalar? 4 rest
      | 'U' => scalar? 8 rest
      | _ => none

/-- A string on one line from after its opening quotation mark. -/
def basicString : (fuel : Nat) → Text → Option (Text × Text)
  | 0, _ => none
  | _ + 1, [] => none
  | fuel + 1, c :: rest =>
      if c == '"' then some ([], rest)
      else if c == '\\' then do
        let (e, rest) ← escape? rest
        let (more, rest) ← basicString fuel rest
        return (e :: more, rest)
      else if isControl c then none
      else do
        let (more, rest) ← basicString fuel rest
        return (c :: more, rest)

def literalString : Text → Option (Text × Text)
  | [] => none
  | c :: rest =>
      if c == '\'' then some ([], rest)
      else if isControl c then none
      else (literalString rest).map fun (more, rest) => (c :: more, rest)

/-- The quotation marks that belong to a string closed by three or more of them. -/
def closing? (quote : Char) (t : Text) : Option (Text × Text) :=
  let marks := t.takeWhile (· == quote)
  if marks.length < 3 then none
  else
    let kept := min (marks.length - 3) 2
    some (List.replicate kept quote, t.drop (kept + 3))

/-- Passes over blanks and line ends. -/
def skipBlankLines : Text → Text
  | [] => []
  | '\r' :: '\n' :: rest => skipBlankLines rest
  | c :: rest => if isSpace c || c == '\n' then skipBlankLines rest else c :: rest

/-- What follows a line end that a backslash takes out, with the blank lines after it. -/
def skipEscapedEnd (t : Text) : Option Text :=
  match skipSpace t with
  | '\n' :: rest => some (skipBlankLines rest)
  | '\r' :: '\n' :: rest => some (skipBlankLines rest)
  | _ => none

/-- A string over several lines from after its opening marks and first line end. -/
def multilineString (quote : Char) (escapes : Bool) : (fuel : Nat) → Text → Option (Text × Text)
  | 0, _ => none
  | _ + 1, [] => none
  | fuel + 1, c :: rest =>
      match closing? quote (c :: rest) with
      | some result => some result
      | none =>
          if escapes && c == '\\' then
            match escape? rest with
            | some (e, rest) => do
                let (more, rest) ← multilineString quote escapes fuel rest
                return (e :: more, rest)
            | none => do
                let rest ← skipEscapedEnd rest
                multilineString quote escapes fuel rest
          else if c == '\r' && rest.head? == some '\n' then do
            let (more, rest) ← multilineString quote escapes fuel rest
            return (c :: more, rest)
          else if c != '\n' && isControl c then none
          else do
            let (more, rest) ← multilineString quote escapes fuel rest
            return (c :: more, rest)

def dropLineEnd : Text → Text
  | '\n' :: rest => rest
  | '\r' :: '\n' :: rest => rest
  | t => t

def readString : Text → Option (Text × Text)
  | '"' :: '"' :: '"' :: rest => multilineString '"' true (rest.length + 1) (dropLineEnd rest)
  | '"' :: rest => basicString (rest.length + 1) rest
  | '\'' :: '\'' :: '\'' :: rest =>
      multilineString '\'' false (rest.length + 1) (dropLineEnd rest)
  | '\'' :: rest => literalString rest
  | _ => none

/-! ## Keys -/

def isBareKey (c : Char) : Bool :=
  c.isAlphanum || c == '_' || c == '-'

def readSimpleKey (t : Text) : Option (String × Text) :=
  match t with
  | '"' :: rest => (basicString (rest.length + 1) rest).map fun (k, r) => (String.ofList k, r)
  | '\'' :: rest => (literalString rest).map fun (k, r) => (String.ofList k, r)
  | _ =>
      let key := t.takeWhile isBareKey
      if key.isEmpty then none else some (String.ofList key, t.drop key.length)

/-- A key with dots, and blanks around them. -/
def readKey : (fuel : Nat) → Text → Option (List String × Text)
  | 0, _ => none
  | fuel + 1, t => do
      let (name, rest) ← readSimpleKey (skipSpace t)
      match skipSpace rest with
      | '.' :: rest =>
          let (names, rest) ← readKey fuel rest
          return (name :: names, rest)
      | rest => return ([name], rest)

/-! ## Numbers, names and dates -/

/-- The digits, without single underscores between two of them. -/
def grouped? (isDigit : Char → Bool) : Text → Option Text
  | [] => none
  | [c] => if isDigit c then some [c] else none
  | c :: '_' :: rest => if isDigit c then (grouped? isDigit rest).map (c :: ·) else none
  | c :: rest => if isDigit c then (grouped? isDigit rest).map (c :: ·) else none

def number (base : Nat) (digits : Text) : Nat :=
  digits.foldl (fun n c => n * base + (hexValue? c).getD 0) 0

def radixInt? (base : Nat) (isDigit : Char → Bool) (t : Text) : Option Toml :=
  (grouped? isDigit t).map fun digits => .int (number base digits)

def splitSign : Text → Bool × Text
  | '-' :: rest => (true, rest)
  | '+' :: rest => (false, rest)
  | t => (false, t)

/-- The digits of a whole part, which has no leading zero. -/
def whole? (t : Text) : Option Text := do
  let digits ← grouped? Char.isDigit t
  match digits with
  | '0' :: _ :: _ => none
  | _ => some digits

/-- The nearest float, when it is finite. -/
def finite? (negative : Bool) (digits : Nat) (places : Nat) (exponent : Int) : Option Toml :=
  let power : Int := exponent - places
  let size : Int := (toString digits).length + power
  let magnitude : Option Float :=
    if digits = 0 ∨ size < -400 then some 0
    else if 400 < size then none
    else if 0 ≤ power then some (Float.ofScientific digits false power.toNat)
    else some (Float.ofScientific digits true (-power).toNat)
  match magnitude with
  | some f => if f.isInf then none else some (.float (if negative then -f else f))
  | none => none

def readFloat? (t : Text) : Option Toml := do
  let (negative, t) := splitSign t
  let mantissa := t.takeWhile fun c => c != 'e' && c != 'E'
  let wholePart := mantissa.takeWhile (· != '.')
  let whole ← whole? wholePart
  let fraction ← match mantissa.drop wholePart.length with
    | [] => some []
    | _ :: fraction => grouped? Char.isDigit fraction
  let exponent : Int ← match t.drop mantissa.length with
    | [] => some 0
    | _ :: exponent => do
        let (down, exponent) := splitSign exponent
        let digits ← grouped? Char.isDigit exponent
        let n : Int := number 10 digits
        pure (if down then -n else n)
  finite? negative (number 10 (whole ++ fraction)) fraction.length exponent

def readInt? (t : Text) : Option Toml := do
  let (negative, digits) := splitSign t
  let digits ← whole? digits
  let n : Int := number 10 digits
  return .int (if negative then -n else n)

def twoDigits? (low high : Nat) : Text → Option Text
  | a :: b :: rest =>
      let n := number 10 [a, b]
      if a.isDigit && b.isDigit && low ≤ n && n ≤ high then some rest else none
  | _ => none

def mark? (mark : Char) : Text → Option Text
  | c :: rest => if c == mark then some rest else none
  | [] => none

/-- The length of the month, for a year and a month written in digits. -/
def monthLength (year month : Nat) : Nat :=
  if month = 2 then
    (if year % 4 = 0 ∧ (year % 100 ≠ 0 ∨ year % 400 = 0) then 29 else 28)
  else if month = 4 ∨ month = 6 ∨ month = 9 ∨ month = 11 then 30
  else 31

/-- What follows a date. -/
def date? (t : Text) : Option Text := do
  let year := t.take 4
  if year.length < 4 ∨ !year.all Char.isDigit then none
  let month ← mark? '-' (t.drop 4)
  let afterMonth ← twoDigits? 1 12 month
  let day ← mark? '-' afterMonth
  twoDigits? 1 (monthLength (number 10 year) (number 10 (month.take 2))) day

/-- What follows a time of day. -/
def time? (t : Text) : Option Text := do
  let t ← twoDigits? 0 23 t
  let t ← mark? ':' t
  let t ← twoDigits? 0 59 t
  match t with
  | ':' :: t =>
      let t ← twoDigits? 0 60 t
      match t with
      | '.' :: t =>
          let digits := t.takeWhile Char.isDigit
          if digits.isEmpty then none else some (t.drop digits.length)
      | _ => some t
  | _ => some t

def zone? (t : Text) : Option Text :=
  match t with
  | [] => some []
  | c :: rest =>
      if c == 'Z' || c == 'z' then some rest
      else if c == '+' || c == '-' then do
        let rest ← twoDigits? 0 23 rest
        let rest ← mark? ':' rest
        twoDigits? 0 59 rest
      else none

/-- A date, a time, or a date and a time with or without a zone. -/
def isDateTime (t : Text) : Bool :=
  let rest? : Option Text :=
    match date? t with
    | some [] => some []
    | some (c :: rest) =>
        if c == 'T' || c == 't' || c == ' ' then (time? rest).bind zone? else none
    | none => time? t
  rest? == some []

def isTokenChar (c : Char) : Bool :=
  c.isAlphanum || c == '+' || c == '-' || c == '_' || c == '.' || c == ':'

/-- The characters of a number, a name or a date.  A blank may stand between a date and a time. -/
def takeToken (t : Text) : Text × Text :=
  let token := t.takeWhile isTokenChar
  let rest := t.drop token.length
  match rest with
  | ' ' :: c :: _ =>
      if c.isDigit && date? token == some [] then
        let time := (rest.drop 1).takeWhile isTokenChar
        (token ++ ' ' :: time, rest.drop (time.length + 1))
      else (token, rest)
  | _ => (token, rest)

def readToken (token : Text) : Option Toml :=
  match token with
  | ['t', 'r', 'u', 'e'] => some (.bool true)
  | ['f', 'a', 'l', 's', 'e'] => some (.bool false)
  | '0' :: 'x' :: digits => radixInt? 16 (fun c => (hexValue? c).isSome) digits
  | '0' :: 'o' :: digits => radixInt? 8 (fun c => '0' ≤ c && c ≤ '7') digits
  | '0' :: 'b' :: digits => radixInt? 2 (fun c => c == '0' || c == '1') digits
  | _ =>
      let (negative, name) := splitSign token
      if name == "inf".toList then
        some (.float (if negative then -(1.0 / 0.0) else 1.0 / 0.0))
      else if name == "nan".toList then some (.float (0.0 / 0.0))
      else if isDateTime token then some .date
      else readInt? token <|> readFloat? token

/-! ## Values -/

mutual

def readValue : (fuel : Nat) → Text → Option (Toml × Text)
  | 0, _ => none
  | fuel + 1, t =>
      match t with
      | '[' :: rest => do
          let (items, rest) ← readItems fuel rest
          return (.array items, rest)
      | '\x7b' :: rest => do
          let (entries, rest) ← readInline fuel [] rest
          return (.table .inline entries, rest)
      | c :: _ =>
          if c == '"' || c == '\'' then
            (readString t).map fun (s, rest) => (.text (String.ofList s), rest)
          else do
            let (token, rest) := takeToken t
            let value ← readToken token
            return (value, rest)
      | [] => none

/-- The items of a list, and what follows its end. -/
def readItems : (fuel : Nat) → Text → Option (List Toml × Text)
  | 0, _ => none
  | fuel + 1, t => do
      match ← skipTrivia false t with
      | ']' :: rest => return ([], rest)
      | t =>
          let (item, rest) ← readValue fuel t
          match ← skipTrivia false rest with
          | ',' :: rest =>
              let (items, rest) ← readItems fuel rest
              return (item :: items, rest)
          | ']' :: rest => return ([item], rest)
          | _ => none

/-- The entries of a table in braces, and what follows its end. -/
def readInline : (fuel : Nat) → Entries → Text → Option (Entries × Text)
  | 0, _, _ => none
  | fuel + 1, entries, t => do
      match ← skipTrivia false t with
      | '\x7d' :: rest => return (entries, rest)
      | t =>
          let (key, rest) ← readKey fuel t
          let rest ← mark? '=' rest
          let (value, rest) ← readValue fuel (skipSpace rest)
          let entries ← assign key value entries
          match ← skipTrivia false rest with
          | ',' :: rest => readInline fuel entries rest
          | '\x7d' :: rest => return (entries, rest)
          | _ => none

end

/-! ## Documents -/

/-- The line with a header or an assignment, if there is one, and the lines after it.  `here` is
the table that the last header opened. -/
def readLine (here : List String) (entries : Entries) (t : Text) :
    Option (List String × Entries × Text) :=
  let fuel := t.length + 1
  match skipSpace t with
  | '[' :: '[' :: rest => do
      let (key, rest) ← readKey fuel rest
      let rest ← mark? ']' rest
      let rest ← mark? ']' rest
      let rest ← lineEnd false rest
      let entries ← openHeader true key entries
      return (key, entries, rest)
  | '[' :: rest => do
      let (key, rest) ← readKey fuel rest
      let rest ← mark? ']' rest
      let rest ← lineEnd false rest
      let entries ← openHeader false key entries
      return (key, entries, rest)
  | t@(c :: _) => do
      if c == '#' || c == '\n' || c == '\r' then
        let rest ← lineEnd false t
        return (here, entries, rest)
      else
        let (key, rest) ← readKey fuel t
        let rest ← mark? '=' rest
        let (value, rest) ← readValue fuel (skipSpace rest)
        let rest ← lineEnd false rest
        let entries ← within (assign key value) here entries
        return (here, entries, rest)
  | [] => some (here, entries, [])

def readLines : (fuel : Nat) → (here : List String) → Entries → Text → Option Entries
  | 0, _, entries, _ => some entries
  | fuel + 1, here, entries, t =>
      if t.isEmpty then some entries
      else do
        let (here, entries, rest) ← readLine here entries t
        readLines fuel here entries rest

/-- The entries of a whole text.  A byte order mark at its start does not count. -/
def ofText (t : Text) : Option Entries :=
  let t := if t.head? == some (Char.ofNat 0xFEFF) then t.drop 1 else t
  readLines (t.length + 1) [] [] t

end RepoAudit.Toml
