import RepoAudit.Contributors.Contribution
import RepoAudit.Tally
import RepoAudit.Time.Span

/-!
# Contributors

What the contributions of one login add up to, how engaged that makes its owner, and how few owners
hold half of the work.
-/

namespace RepoAudit

structure Contributor where
  login : String
  commits : Nat := 0
  pulls : Nat := 0
  reviews : Nat := 0
  issues : Nat := 0
  additions : Nat := 0
  deletions : Nat := 0
  lastActive : Option Timestamp := none

/-- Line counts are 64 bits wide. -/
def lineCountLimit : Nat := UInt64.size

namespace Contributor

def count (c : Contributor) : ContributionKind → Contributor
  | .commit => { c with commits := c.commits + 1 }
  | .pull => { c with pulls := c.pulls + 1 }
  | .review => { c with reviews := c.reviews + 1 }
  | .issue => { c with issues := c.issues + 1 }

def addLines (c : Contributor) (additions deletions : Nat) : Contributor :=
  { c with
    additions := (c.additions + additions) % lineCountLimit
    deletions := (c.deletions + deletions) % lineCountLimit }

/-- The last activity moves forward to a later time and never back. -/
def touch (c : Contributor) (time : Timestamp) : Contributor :=
  match c.lastActive with
  | none => { c with lastActive := some time }
  | some last => if last.lt time then { c with lastActive := some time } else c

/-- The contributor after one more contribution. -/
def credit (c : Contributor) (x : Contribution) : Contributor :=
  x.dates.foldl touch ((c.count x.kind).addLines x.additions x.deletions)

/-- Credits a contribution to the contributor of its login, who joins the list when not yet in it. -/
def record : List Contributor → Contribution → List Contributor
  | [], x => [credit { login := x.login } x]
  | c :: cs, x => if c.login == x.login then c.credit x :: cs else c :: record cs x

/-- One contributor for each login, in the order of the logins. -/
def fold (all : List Contribution) : List Contributor :=
  (all.foldl record []).mergeSort fun a b => nameLe a.login b.login

/-- The contributors of the four streams, and the warnings about unreadable dates. -/
def ofActivity (a : Activity) : List Contributor × List Warning :=
  let found := Contribution.ofActivity a
  (fold (found.map Prod.fst), found.flatMap Prod.snd)

/-- A commit and a review count two, a pull request three, an issue one. -/
def score (c : Contributor) : Nat :=
  2 * c.commits + 3 * c.pulls + 2 * c.reviews + c.issues

/-- The whole days since the last dated contribution. -/
def idleDays? (now : Timestamp) (c : Contributor) : Option Int :=
  c.lastActive.map fun last => (now.since last).wholeDays

end Contributor

inductive Engagement where
  | core
  | active
  | moderate
  | declining
  deriving DecidableEq

namespace Engagement

def all : List Engagement :=
  [core, active, moderate, declining]

def name : Engagement → String
  | core => "core"
  | active => "active"
  | moderate => "moderate"
  | declining => "declining"

/-- Who scores high and was there lately is engaged; who never was is declining. -/
def classify (score : Nat) : Option Int → Engagement
  | none => declining
  | some days =>
      if 100 ≤ score && days < 30 then core
      else if 50 ≤ score && days < 60 then active
      else if 10 ≤ score && days < 90 then moderate
      else declining

end Engagement

/-- The place, from `place` on, at which the counts first cover half of the total. -/
def coveringPlace (total : Nat) : (place covered : Nat) → List Nat → Nat
  | place, _, [] => place
  | place, covered, count :: counts =>
      let covered := (covered + count) % UInt64.size
      if total ≤ covered * 2 % UInt64.size then place + 1
      else coveringPlace total (place + 1) covered counts

/-- The fewest contributors whose commits cover half of all commits.  Sums are 64 bits wide. -/
def busFactor (commits : List Nat) : Nat :=
  let total := sumOf commits % UInt64.size
  if total = 0 then 0
  else coveringPlace total 0 0 (commits.mergeSort fun a b => b ≤ a)

end RepoAudit
