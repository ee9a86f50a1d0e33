import RepoAudit.Text.Basic
import RepoAudit.Time.Civil

/-!
# Timestamps

Instants in universal time, to the nanosecond, as payloads write them and as reports do.  A leap
second is the second before it with more than a thousand million nanoseconds.
-/

namespace RepoAudit

structure Timestamp where
  /-- Seconds since 1970-01-01T00:00:00Z. -/
  seconds : Int
  nanos : Nat
  deriving DecidableEq, Inhabited

namespace Timestamp

def lt (a b : Timestamp) : Bool :=
  a.seconds < b.seconds || (a.seconds == b.seconds && a.nanos < b.nanos)

def max (a b : Timestamp) : Timestamp :=
  if a.lt b then b else a

/-! ## Reading -/

inductive Problem where
  | outOfRange
  | invalid
  | tooShort
  | tooLong

def Problem.message : Problem → String
  | .outOfRange => "input is out of range"
  | .invalid => "input contains invalid characters"
  | .tooShort => "premature end of input"
  | .tooLong => "trailing input"

def digitsValue (ds : Text) : Nat :=
  ds.foldl (fun n c => n * 10 + (c.toNat - 48)) 0

/-- A number of exactly `width` digits. -/
def readDigits (width : Nat) (t : Text) : Except Problem (Nat × Text) :=
  let ds := t.take width
  if ds.length = width ∧ ds.all Char.isDigit then .ok (digitsValue ds, t.drop width)
  else .error .invalid

def readMark (allowed : List Char) : Text → Except Problem Text
  | [] => .error .tooShort
  | c :: rest => if allowed.contains c then .ok rest else .error .invalid

/-- The fraction of a second in nanoseconds; digits past the ninth do not count. -/
def readFraction : Text → Except Problem (Nat × Text)
  | '.' :: rest =>
      let ds := rest.takeWhile Char.isDigit
      if rest.isEmpty then .error .tooShort
      else if ds.isEmpty then .error .invalid
      else
        let kept := ds.take 9
        .ok (digitsValue kept * Nat.pow 10 (9 - kept.length), rest.drop ds.length)
  | rest => .ok (0, rest)

/-- A number of two digits at the end of a text, which may stop short. -/
def readPair (t : Text) : Except Problem (Nat × Text) :=
  if Text.byteSize t < 2 then .error .tooShort else readDigits 2 t

/-- The seconds that local time is ahead of universal time. -/
def readOffset (t : Text) : Except Problem (Int × Text) := do
  match t with
  | [] => throw .tooShort
  | sign :: rest =>
      if sign == 'Z' || sign == 'z' then return (0, rest)
      if !(sign == '+' || sign == '-' || sign == '−') then throw .invalid
      let (hours, rest) ← readPair rest
      let rest ← readMark [':'] rest
      let (minutes, rest) ← readPair rest
      if 60 ≤ minutes then throw .outOfRange
      let seconds : Int := ((hours * 60 + minutes) * 60 : Nat)
      return (if sign == '+' then seconds else -seconds, rest)

/-- A day that is in the calendar. -/
def readDate (t : Text) : Except Problem (Date × Text) := do
  let (year, t) ← readDigits 4 t
  let t ← readMark ['-'] t
  let (month, t) ← readDigits 2 t
  let t ← readMark ['-'] t
  let (day, t) ← readDigits 2 t
  if !(1 ≤ month && month ≤ 12 && 1 ≤ day && day ≤ Date.daysInMonth year month) then
    throw .outOfRange
  return (⟨year, month, day⟩, t)

/-- The seconds since the day began, and nanoseconds.  A day may have a sixtieth second. -/
def readClock (t : Text) : Except Problem ((Nat × Nat) × Text) := do
  let (hour, t) ← readDigits 2 t
  let t ← readMark [':'] t
  let (minute, t) ← readDigits 2 t
  let t ← readMark [':'] t
  let (second, t) ← readDigits 2 t
  let (nanos, t) ← readFraction t
  if 24 ≤ hour || 60 ≤ minute || 60 < second then throw .outOfRange
  let minutes := hour * 60 + minute
  if second = 60 then return ((minutes * 60 + 59, nanos + 1000000000), t)
  return ((minutes * 60 + second, nanos), t)

/-- The bytes of a date and a time of day to the second. -/
def fixedSize : Nat := 19

/-- A date, a time of day and an offset, such as `2024-01-31T12:00:00.5+01:00`. -/
def ofText (t : Text) : Except Problem Timestamp := do
  if Text.byteSize t < fixedSize then throw .tooShort
  let (date, t) ← readDate t
  let t ← readMark ['t', 'T', ' '] t
  let ((secondOfDay, nanos), t) ← readClock t
  let (offset, t) ← readOffset t
  if !t.isEmpty then throw .tooLong
  if 24 * 3600 ≤ offset.natAbs then throw .outOfRange
  return ⟨Date.toDays date * 86400 + secondOfDay - offset, nanos⟩

/-! ## Writing -/

def padded (width n : Nat) : String :=
  let ds := toString n
  String.ofList (List.replicate (width - ds.length) '0') ++ ds

structure Parts where
  date : Date
  hour : Nat
  minute : Nat
  second : Nat
  nanos : Nat

def parts (t : Timestamp) : Parts :=
  let secondOfDay := (t.seconds % 86400).toNat
  let leap := 1000000000 ≤ t.nanos
  { date := Date.ofDays (t.seconds / 86400)
    hour := secondOfDay / 3600
    minute := secondOfDay / 60 % 60
    second := if leap then secondOfDay % 60 + 1 else secondOfDay % 60
    nanos := if leap then t.nanos - 1000000000 else t.nanos }

def yearText (year : Int) : String :=
  if 0 ≤ year ∧ year ≤ 9999 then padded 4 year.toNat
  else (if year < 0 then "-" else "+") ++ padded 4 year.natAbs

def dateText (d : Date) : String :=
  yearText d.year ++ "-" ++ padded 2 d.month ++ "-" ++ padded 2 d.day

def Parts.clock (p : Parts) : String :=
  padded 2 p.hour ++ ":" ++ padded 2 p.minute ++ ":" ++ padded 2 p.second

/-- Three, six or nine places, as many as the nanoseconds need, or none. -/
def fractionText (nanos : Nat) : String :=
  if nanos = 0 then ""
  else if nanos % 1000000 = 0 then "." ++ padded 3 (nanos / 1000000)
  else if nanos % 1000 = 0 then "." ++ padded 6 (nanos / 1000)
  else "." ++ padded 9 nanos

/-- The form in data: `2024-01-31T12:00:00.500Z`. -/
def toString (t : Timestamp) : String :=
  let p := t.parts
  dateText p.date ++ "T" ++ p.clock ++ fractionText p.nanos ++ "Z"

/-- The form in prose: `2024-01-31 12:00:00 UTC`. -/
def inProse (t : Timestamp) : String :=
  let p := t.parts
  dateText p.date ++ " " ++ p.clock ++ " UTC"

end Timestamp
end RepoAudit
