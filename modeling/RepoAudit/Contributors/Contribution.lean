import RepoAudit.Payload.Basic
import RepoAudit.Payload.Date

/-!
# Contributions

Commits, pull requests, reviews and issues, each credited to a login.  A record without a login is
no contribution, and its dates are not looked at.
-/

namespace RepoAudit

inductive ContributionKind where
  | commit
  | pull
  | review
  | issue
  deriving DecidableEq

structure Contribution where
  login : String
  kind : ContributionKind
  additions : Nat := 0
  deletions : Nat := 0
  /-- The readable dates of the record. -/
  dates : List Timestamp

namespace Contribution

/-- The login of a user, unless it is empty. -/
def userLogin? (user : Option User) : Option String :=
  (user.map User.login).filter (· != "")

/-- The dates of a record in the stream `source`, with a warning for each unreadable one. -/
def readDates (source : String) (dates : List (Option String)) : List Timestamp × List Warning :=
  let read := dates.map (readOptionalDate source)
  (read.filterMap Prod.fst, read.flatMap Prod.snd)

def ofCommit? (c : Commit) : Option (Contribution × List Warning) :=
  c.login?.map fun login =>
    let (dates, warnings) := readDates "commits" [c.date?]
    let stats := c.stats.getD {}
    ({ login, kind := .commit, additions := stats.additions, deletions := stats.deletions, dates },
      warnings)

def ofPull? (p : PullRequest) : Option (Contribution × List Warning) :=
  (userLogin? p.user).map fun login =>
    let (dates, warnings) := readDates "prs" [p.createdAt, p.mergedAt]
    ({ login, kind := .pull, dates }, warnings)

def ofReview? (r : Review) : Option (Contribution × List Warning) :=
  (userLogin? r.user).map fun login =>
    let (dates, warnings) := readDates "reviews" [r.submittedAt]
    ({ login, kind := .review, dates }, warnings)

/-- An issue was last touched when it was updated, or else when it was created. -/
def ofIssue? (i : Issue) : Option (Contribution × List Warning) :=
  (userLogin? i.user).map fun login =>
    let (dates, warnings) := readDates "issues" [i.updatedAt <|> i.createdAt]
    ({ login, kind := .issue, dates }, warnings)

/-- The contributions of the four streams, each with the warnings about its dates. -/
def ofActivity (a : Activity) : List (Contribution × List Warning) :=
  a.commits.filterMap ofCommit? ++ a.pulls.filterMap ofPull? ++ a.reviews.filterMap ofReview? ++
    a.issues.filterMap ofIssue?

end Contribution
end RepoAudit
