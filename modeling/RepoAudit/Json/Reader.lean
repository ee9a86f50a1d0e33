import RepoAudit.Json.Node
import RepoAudit.Decimal.Read

/-!
# Reading JSON

A text is read from left to right into a `Node`.  Each step returns where reading goes on, or the
break at which the text stopped being JSON.
-/

namespace RepoAudit.Json

/-- What is left of a text, and the number of bytes before it. -/
structure Rest where
  text : Text
  offset : Nat

namespace Rest

/-- The offset just past the next byte, or the end of the text. -/
def peeked (r : Rest) : Nat :=
  if r.text.isEmpty then r.offset else r.offset + 1

def isJsonBlank (c : Char) : Bool :=
  c == ' ' || c == '\n' || c == '\t' || c == '\r'

def skipBlanks (r : Rest) : Rest :=
  let blanks := r.text.takeWhile isJsonBlank
  ⟨r.text.drop blanks.length, r.offset + blanks.length⟩

/-- A fault at the next byte: `cause` when there is one, `atEnd` when there is none. -/
def unexpected (r : Rest) (cause atEnd : Cause) : Break :=
  if r.text.isEmpty then .plain atEnd r.offset else .plain cause r.peeked

end Rest

/-! ## Strings -/

def hexValue? (c : Char) : Option Nat :=
  let n := c.toNat
  if 48 ≤ n && n ≤ 57 then some (n - 48)
  else if 97 ≤ n && n ≤ 102 then some (n - 87)
  else if 65 ≤ n && n ≤ 70 then some (n - 55)
  else none

def hexUnit? (a b c d : Char) : Option Nat := do
  let a ← hexValue? a
  let b ← hexValue? b
  let c ← hexValue? c
  let d ← hexValue? d
  return ((a * 16 + b) * 16 + c) * 16 + d

def escaped? (c : Char) : Option Char :=
  match c with
  | '"' => some '"'
  | '\\' => some '\\'
  | '/' => some '/'
  | 'b' => some (Char.ofNat 8)
  | 'f' => some (Char.ofNat 12)
  | 'n' => some '\n'
  | 'r' => some '\r'
  | 't' => some '\t'
  | _ => none

/-- A part of a string: a character, with the offset that a surrogate waiting for its other half
complains about, or a sixteen-bit unit written in hexadecimal, with the offset after it. -/
inductive Piece where
  | plain (c : Char) (offset : Nat)
  | unit (value : Nat) (offset : Nat)

def isHigh (n : Nat) : Bool := 0xD800 ≤ n && n ≤ 0xDBFF

def isLow (n : Nat) : Bool := 0xDC00 ≤ n && n ≤ 0xDFFF

/-- The characters that the pieces stand for; `close` is the offset after the string. -/
def decodePieces (close : Nat) : List Piece → Except Fault Text
  | [] => .ok []
  | .plain c _ :: more => (decodePieces close more).map (c :: ·)
  | .unit n offset :: more =>
      if isLow n then .error ⟨.loneSurrogate, offset⟩
      else if isHigh n then
        match more with
        | [] => .error ⟨.halfSurrogate, close⟩
        | .plain _ offset :: _ => .error ⟨.halfSurrogate, offset⟩
        | .unit m offset :: more =>
            if isLow m then
              let c := Char.ofNat (0x10000 + (n - 0xD800) * 0x400 + (m - 0xDC00))
              (decodePieces close more).map (c :: ·)
            else .error ⟨.loneSurrogate, offset⟩
      else (decodePieces close more).map (Char.ofNat n :: ·)

/-- Whether the pieces end in a surrogate that waits for its other half. -/
def endsHalf : List Piece → Bool
  | [] => false
  | [.plain ..] => false
  | [.unit n _] => isHigh n
  | .unit n _ :: .unit m offset :: more =>
      if isHigh n then endsHalf more else endsHalf (.unit m offset :: more)
  | _ :: piece :: more => endsHalf (piece :: more)

/-- The pieces up to the closing quotation mark and what follows it, or the break before it. -/
def pieces : (rest : Text) → (offset : Nat) → List Piece × Except Break Rest
  | [], offset => ([], .error (.plain .stringEnds offset))
  | '"' :: rest, offset => ([], .ok ⟨rest, offset + 1⟩)
  | ['\\'], offset => ([], .error (.plain .stringEnds (offset + 1)))
  | '\\' :: 'u' :: a :: b :: c :: d :: rest, offset =>
      match hexUnit? a b c d with
      | some n =>
          let (more, after) := pieces rest (offset + 6)
          (.unit n (offset + 6) :: more, after)
      | none => ([], .error (.plain .badEscape (offset + 6)))
  | '\\' :: 'u' :: rest, offset =>
      if Text.byteSize rest < 4 then
        ([], .error (.plain .stringEnds (offset + 2 + Text.byteSize rest)))
      else ([], .error (.plain .badEscape (offset + 6)))
  | '\\' :: c :: rest, offset =>
      match escaped? c with
      | some e =>
          let (more, after) := pieces rest (offset + 2)
          (.plain e (offset + 2) :: more, after)
      | none => ([], .error (.plain .badEscape (offset + 2)))
  | c :: rest, offset =>
      if c.toNat < 32 then
        ([], .error ⟨⟨.controlCharacter, offset + 1⟩, ⟨.controlCharacter, offset⟩⟩)
      else
        let (more, after) := pieces rest (offset + c.utf8Size)
        (.plain c (offset + 1) :: more, after)

/-- A string from after its opening quotation mark. -/
def readString (r : Rest) : Except Break (Except Fault String × Rest) :=
  let (parts, after) := pieces r.text r.offset
  match after with
  | .ok after => .ok ((decodePieces after.offset parts).map String.ofList, after)
  | .error b =>
      let whenRead : Fault :=
        if endsHalf parts then
          match b.whenRead.cause with
          | .badEscape | .controlCharacter => ⟨.halfSurrogate, b.whenRead.offset⟩
          | _ => b.whenRead
        else
          match decodePieces b.whenRead.offset parts with
          | .error f => f
          | .ok _ => b.whenRead
      .error ⟨whenRead, b.whenSkipped⟩

/-! ## Numbers -/

def digitValue (c : Char) : Nat :=
  c.toNat - 48

/-- The leading digits that fit into 64 bits, and the digits after them. -/
def fitting : (significand : Nat) → Text → Nat × Text
  | n, [] => (n, [])
  | n, c :: cs =>
      let m := n * 10 + digitValue c
      if m < UInt64.size then fitting m cs else (n, c :: cs)

/-- The exponent that the digits write, or the digits after the one that makes it too large. -/
def exponentValue : (value : Nat) → Text → Except Text Nat
  | n, [] => .ok n
  | n, c :: cs =>
      let m := n * 10 + digitValue c
      if m < UInt32.size / 2 then exponentValue m cs else .error cs

/-- A number read from `significand · 10 ^ exponent`, which ends at `stop`. -/
def floatNode (negative : Bool) (significand : Nat) (exponent : Int) (stop : Nat) : Node :=
  match Decimal.scale? significand exponent with
  | some f => .float (.ok (if negative then -f else f)) stop
  | none => .float (.error ⟨.numberTooLarge, stop⟩) stop

/-- The node of the break at `r`, where a digit is missing. -/
def digitMissing (r : Rest) (offset : Nat) : Break :=
  if r.text.isEmpty then ⟨⟨.valueEnds, r.offset⟩, ⟨.badNumber, r.offset⟩⟩
  else .plain .badNumber offset

/-- The exponent part, when one follows. -/
def readExponent (negative : Bool) (significand : Nat) (exponent : Int) (r : Rest) :
    Node × Except Break Rest :=
  match r.text with
  | e :: rest =>
      if e == 'e' || e == 'E' then
        let (down, r) : Bool × Rest :=
          match rest with
          | '+' :: rest => (false, ⟨rest, r.offset + 2⟩)
          | '-' :: rest => (true, ⟨rest, r.offset + 2⟩)
          | _ => (false, ⟨rest, r.offset + 1⟩)
        let digits := r.text.takeWhile Char.isDigit
        if digits.isEmpty then
          let b := digitMissing r (r.offset + 1)
          (.broken b, .error b)
        else
          let after : Rest := ⟨r.text.drop digits.length, r.offset + digits.length⟩
          let node :=
            match exponentValue 0 digits with
            | .ok n =>
                floatNode negative significand (if down then exponent - n else exponent + n)
                  after.offset
            | .error left =>
                if significand == 0 || down then
                  .float (.ok (if negative then -0.0 else 0.0)) after.offset
                else .float (.error ⟨.numberTooLarge, after.offset - left.length⟩) after.offset
          (node, .ok after)
      else (floatNode negative significand exponent r.offset, .ok r)
  | [] => (floatNode negative significand exponent r.offset, .ok r)

/-- The fraction and exponent parts of a number whose whole part is read. -/
def readFraction (negative : Bool) (significand : Nat) (exponent : Int) (r : Rest) :
    Node × Except Break Rest :=
  match r.text with
  | '.' :: rest =>
      let r : Rest := ⟨rest, r.offset + 1⟩
      let digits := r.text.takeWhile Char.isDigit
      if digits.isEmpty then
        let b := digitMissing r (r.offset + 1)
        (.broken b, .error b)
      else
        let (significand, left) := fitting significand digits
        readExponent negative significand (exponent - (digits.length - left.length : Nat))
          ⟨r.text.drop digits.length, r.offset + digits.length⟩
  | _ => readExponent negative significand exponent r

/-- A number from after its sign. -/
def readNumber (negative : Bool) (r : Rest) : Node × Except Break Rest :=
  let digits := r.text.takeWhile Char.isDigit
  let after : Rest := ⟨r.text.drop digits.length, r.offset + digits.length⟩
  match digits with
  | [] =>
      let b := digitMissing r (r.offset + 1)
      (.broken b, .error b)
  | '0' :: _ :: _ =>
      let b := Break.plain .badNumber (r.offset + 2)
      (.broken b, .error b)
  | _ =>
      let (significand, left) := fitting 0 digits
      let isWhole := match after.text with
        | c :: _ => !(c == '.' || c == 'e' || c == 'E')
        | [] => true
      if isWhole && left.isEmpty then
        let node : Node :=
          if !negative then .int significand after.offset
          else if 0 < significand && significand ≤ UInt64.size / 2 then .int (-significand) after.offset
          else .float (.ok (-significand.toUInt64.toFloat)) after.offset
        (node, .ok after)
      else readFraction negative significand left.length after

/-! ## Values -/

/-- One of the three names, from after its first letter. -/
def readName (letters : Text) (node : Nat → Node) (r : Rest) : Node × Except Break Rest :=
  match letters, r.text with
  | [], _ => (node r.offset, .ok r)
  | _ :: _, [] =>
      let b := Break.plain .valueEnds r.offset
      (.broken b, .error b)
  | l :: letters, c :: rest =>
      if l == c then readName letters node ⟨rest, r.offset + 1⟩
      else
        let b := Break.plain .badName (r.offset + 1)
        (.broken b, .error b)

/-- Where reading stands when a list is left here. -/
def exitOf (r : Rest) : Exit :=
  let r := r.skipBlanks
  match r.text with
  | ']' :: _ => ⟨r.offset + 1, none⟩
  | ',' :: rest =>
      let next := Rest.skipBlanks ⟨rest, r.offset + 1⟩
      let cause := if next.text.head? == some ']' then Cause.trailingComma else .trailingText
      ⟨next.offset, some ⟨cause, next.peeked⟩⟩
  | _ :: _ => ⟨r.offset, some ⟨.trailingText, r.peeked⟩⟩
  | [] => ⟨r.offset, some ⟨.listEnds, r.offset⟩⟩

mutual

def readValue : (fuel depth : Nat) → Rest → Node × Except Break Rest
  | 0, _, r =>
      let b := Break.plain .noValue r.offset
      (.broken b, .error b)
  | fuel + 1, depth, r =>
      let r := r.skipBlanks
      match r.text with
      | 'n' :: rest => readName ['u', 'l', 'l'] .null ⟨rest, r.offset + 1⟩
      | 't' :: rest => readName ['r', 'u', 'e'] (.bool true) ⟨rest, r.offset + 1⟩
      | 'f' :: rest => readName ['a', 'l', 's', 'e'] (.bool false) ⟨rest, r.offset + 1⟩
      | '-' :: rest => readNumber true ⟨rest, r.offset + 1⟩
      | '"' :: rest =>
          match readString ⟨rest, r.offset + 1⟩ with
          | .ok (s, after) => (.text s after.offset, .ok after)
          | .error b => (.broken b, .error b)
      | '[' :: rest =>
          let (items, exits, after) := readItems fuel (depth + 1) true ⟨rest, r.offset + 1⟩
          (.array r.offset (128 ≤ depth + 1) items exits (after.map Rest.offset), after)
      | '\x7b' :: rest =>
          let (members, after) := readMembers fuel (depth + 1) true ⟨rest, r.offset + 1⟩
          (.object r.offset (128 ≤ depth + 1) members (after.map Rest.offset), after)
      | c :: _ =>
          if c.isDigit then readNumber false r
          else
            let b := Break.plain .noValue r.peeked
            (.broken b, .error b)
      | [] =>
          let b := Break.plain .valueEnds r.offset
          (.broken b, .error b)

/-- The items of a list up to its end; `first` when none has been read yet. -/
def readItems : (fuel depth : Nat) → (first : Bool) → Rest → List Node × List Exit × Except Break Rest
  | 0, _, _, r => ([], [], .error (.plain .noValue r.offset))
  | fuel + 1, depth, first, r =>
      let r := r.skipBlanks
      let start : Except Break (Option Rest) :=
        match first, r.text with
        | _, ']' :: _ => .ok none
        | true, _ :: _ => .ok (some r)
        | false, ',' :: rest =>
            let next := Rest.skipBlanks ⟨rest, r.offset + 1⟩
            match next.text with
            | ']' :: _ => .error ⟨⟨.trailingComma, next.peeked⟩, ⟨.noValue, next.peeked⟩⟩
            | _ :: _ => .ok (some next)
            | [] => .error (.plain .valueEnds next.offset)
        | false, _ :: _ => .error (.plain .noListSeparator r.peeked)
        | _, [] => .error (.plain .listEnds r.offset)
      match start with
      | .error b => ([], [], .error b)
      | .ok none => ([], [], .ok ⟨r.text.drop 1, r.offset + 1⟩)
      | .ok (some r) =>
          let (item, after) := readValue fuel depth r
          match after with
          | .error b => ([item], [⟨0, none⟩], .error b)
          | .ok after =>
              let (items, exits, close) := readItems fuel depth false after
              (item :: items, exitOf after :: exits, close)

/-- The members of an object up to its end; `first` when none has been read yet. -/
def readMembers : (fuel depth : Nat) → (first : Bool) → Rest →
    List (Except Fault String × Nat × Node) × Except Break Rest
  | 0, _, _, r => ([], .error (.plain .noValue r.offset))
  | fuel + 1, depth, first, r =>
      let r := r.skipBlanks
      let start : Except Break (Option Rest) :=
        match first, r.text with
        | _, '\x7d' :: _ => .ok none
        | true, '"' :: rest => .ok (some ⟨rest, r.offset + 1⟩)
        | true, _ :: _ => .error (.plain .keyNotText r.peeked)
        | false, ',' :: rest =>
            let next := Rest.skipBlanks ⟨rest, r.offset + 1⟩
            match next.text with
            | '"' :: rest => .ok (some ⟨rest, next.offset + 1⟩)
            | '\x7d' :: _ => .error ⟨⟨.trailingComma, next.peeked⟩, ⟨.keyNotText, next.peeked⟩⟩
            | _ :: _ => .error (.plain .keyNotText next.peeked)
            | [] => .error ⟨⟨.valueEnds, next.offset⟩, ⟨.objectEnds, next.offset⟩⟩
        | false, _ :: _ => .error (.plain .noObjectSeparator r.peeked)
        | _, [] => .error (.plain .objectEnds r.offset)
      match start with
      | .error b => ([], .error b)
      | .ok none => ([], .ok ⟨r.text.drop 1, r.offset + 1⟩)
      | .ok (some r) =>
          match readString r with
          | .error b => ([], .error b)
          | .ok (name, r) =>
              let r := r.skipBlanks
              let stand := if r.text.head? == some '\x7d' then r.offset + 1 else r.offset
              match r.text with
              | ':' :: rest =>
                  let (value, after) := readValue fuel depth ⟨rest, r.offset + 1⟩
                  match after with
                  | .error b => ([(name, stand, value)], .error b)
                  | .ok after =>
                      let (members, close) := readMembers fuel depth false after
                      ((name, stand, value) :: members, close)
              | _ =>
                  let b := r.unexpected .noColon .objectEnds
                  ([(name, stand, .broken b)], .error b)

end

/-- A whole text: its value, and the fault of text after the value. -/
structure Document where
  root : Node
  trailing : Option Fault

def Document.ofText (t : Text) : Document :=
  let (root, after) := readValue (2 * t.length + 2) 0 ⟨t, 0⟩
  match after with
  | .error _ => ⟨root, none⟩
  | .ok after =>
      let after := after.skipBlanks
      ⟨root, if after.text.isEmpty then none else some ⟨.trailingText, after.peeked⟩⟩

/-- The value that a whole text writes. -/
def ofText (t : Text) : Except Fault Json := do
  let document := Document.ofText t
  let value ← document.root.value
  match document.trailing with
  | none => return value
  | some fault => throw fault

end RepoAudit.Json
