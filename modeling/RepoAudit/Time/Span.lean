import RepoAudit.Time.Timestamp

/-!
# Spans of time

The time between two instants.  A leap second counts when the later time of day lies after it.
-/

namespace RepoAudit

/-- Seconds and, on top of them, less than a thousand million nanoseconds. -/
structure Span where
  seconds : Int
  nanos : Nat
  deriving DecidableEq

namespace Span

/-- The largest whole number of seconds that a span given in days may have, on either side. -/
def maxSeconds : Nat := (UInt64.size / 2 - 1) / 1000

def ofDays? (days : Int) : Option Span :=
  if (days * 86400).natAbs ≤ maxSeconds then some ⟨days * 86400, 0⟩ else none

def lt (a b : Span) : Bool :=
  a.seconds < b.seconds || (a.seconds == b.seconds && a.nanos < b.nanos)

/-- Whole seconds, rounded toward zero. -/
def wholeSeconds (s : Span) : Int :=
  if s.seconds < 0 && 0 < s.nanos then s.seconds + 1 else s.seconds

/-- Whole days, rounded toward zero. -/
def wholeDays (s : Span) : Int :=
  s.wholeSeconds.tdiv 86400

end Span

namespace Timestamp

def second : Nat := 1000000000

def isLeap (t : Timestamp) : Bool :=
  second ≤ t.nanos

def secondOfDay (t : Timestamp) : Int :=
  t.seconds % 86400

/-- The time from `earlier` to `t`, negative when `earlier` is the later one. -/
def since (t earlier : Timestamp) : Span :=
  let leap : Int :=
    if earlier.secondOfDay < t.secondOfDay && earlier.isLeap then 1
    else if t.secondOfDay < earlier.secondOfDay && t.isLeap then -1
    else 0
  let fraction : Int := (t.nanos : Int) - earlier.nanos
  ⟨t.seconds - earlier.seconds + leap + fraction / second, (fraction % second).toNat⟩

end Timestamp
end RepoAudit
