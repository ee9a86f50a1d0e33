import RepoAudit.Assessment
import RepoAudit.Config.Settings
import RepoAudit.Contributors.Contributor
import RepoAudit.Decimal.Round
import RepoAudit.Decimal.Shortest

/-!
# Contributor analysis

Who takes part in a repository, ranked, and what their engagement means for it.
-/

namespace RepoAudit.Contributors

/-- A contributor with the score and the engagement it earns at a given time. -/
structure Member where
  contributor : Contributor
  score : Nat
  engagement : Engagement

namespace Member

def of (now : Timestamp) (c : Contributor) : Member :=
  { contributor := c, score := c.score, engagement := .classify c.score (c.idleDays? now) }

def login (m : Member) : String :=
  m.contributor.login

/-- Higher scores first, then by login. -/
def outranks (a b : Member) : Bool :=
  if a.score = b.score then nameLe a.login b.login else b.score < a.score

/-- More commits first, then by login. -/
def outcommits (a b : Member) : Bool :=
  if a.contributor.commits = b.contributor.commits then nameLe a.login b.login
  else b.contributor.commits < a.contributor.commits

/-- More reviews first, then by login. -/
def outreviews (a b : Member) : Bool :=
  if a.contributor.reviews = b.contributor.reviews then nameLe a.login b.login
  else b.contributor.reviews < a.contributor.reviews

/-- Longer absent first, the never present before all others, then by login. -/
def absentLonger (a b : Member) : Bool :=
  match a.contributor.lastActive, b.contributor.lastActive with
  | none, none => nameLe a.login b.login
  | none, some _ => true
  | some _, none => false
  | some s, some t => if s = t then nameLe a.login b.login else s.lt t

end Member

structure Report where
  /-- Everyone, by score. -/
  members : List Member
  leaderboard : List Member

namespace Report

def of (now : Timestamp) (leaderboardSize : Nat) (contributors : List Contributor) : Report :=
  let members := (contributors.map (Member.of now)).mergeSort Member.outranks
  { members, leaderboard := members.take leaderboardSize }

def withEngagement (r : Report) (level : Engagement) : List Member :=
  r.members.filter fun m => m.engagement == level

def core (r : Report) : List Member :=
  (r.withEngagement .core).mergeSort Member.outcommits

def declining (r : Report) : List Member :=
  (r.withEngagement .declining).mergeSort Member.absentLonger

/-- The levels that occur, with the number of their members. -/
def breakdown (r : Report) : List (Engagement × Nat) :=
  (Engagement.all.map fun level => (level, (r.withEngagement level).length)).filter
    fun (_, n) => 0 < n

def totalCommits (r : Report) : Nat :=
  sumOf (r.members.map fun m => m.contributor.commits)

def totalReviews (r : Report) : Nat :=
  sumOf (r.members.map fun m => m.contributor.reviews)

def busFactor (r : Report) : Nat :=
  RepoAudit.busFactor (r.members.map fun m => m.contributor.commits)

/-- Who reviewed most. -/
def topReviewer? (r : Report) : Option Member :=
  ((r.members.filter fun m => 0 < m.contributor.reviews).mergeSort Member.outreviews).head?

end Report

def insights (r : Report) : List String :=
  let total := r.members.length
  let declining := r.declining.length
  if total = 0 then ["No contributor activity found"]
  else
    (r.leaderboard.head?.map fun top =>
      "Most active contributor: " ++ top.login ++ " (score " ++ toString top.score ++ ")").toList ++
    [floatText (percentage declining total) ++ "% of contributors are declining (" ++
      toString declining ++ " of " ++ toString total ++ ")",
     toString r.busFactor ++ " contributors account for half of all commits"]

def recommendations (r : Report) : List Recommendation :=
  let total := r.members.length
  let core := r.core.length
  let declining := r.declining.length
  if total = 0 then []
  else
    (if core < 2 then
      [{ category := "community", priority := .high
         description := "Only " ++ toString core ++
           " core maintainers; mentor active contributors towards maintainer roles"
         effort := "ongoing" }]
    else []) ++
    (if total < declining * 2 then
      [{ category := "community", priority := .medium
         description := toString declining ++ " of " ++ toString total ++
           " contributors are declining; reach out and label good first issues"
         effort := "1-2 weeks" }]
    else []) ++
    (if r.busFactor = 1 ∧ 1 < total then
      [{ category := "knowledge-sharing", priority := .high
         description := "Bus factor is 1; document critical areas and spread ownership"
         effort := "2-4 weeks" }]
    else []) ++
    (match r.topReviewer? with
    | some top =>
        let reviews := top.contributor.reviews
        if r.totalReviews < reviews * 2 then
          [{ category := "review-process", priority := .medium
             description := top.login ++ " performs " ++ toString reviews ++ " of " ++
               toString r.totalReviews ++ " reviews; distribute review load"
             effort := "1 week" }]
        else []
    | none => [])

/-- What the contributors, in whatever order they come, mean as of a given time. -/
def assess (settings : ContributorSettings) (now : Timestamp) (contributors : List Contributor)
    (warnings : List Warning) : Assessment Report :=
  let r := Report.of now settings.leaderboardSize contributors
  Assessment.sorted {
    report := r
    summary := toString r.members.length ++ " contributors, " ++ toString r.core.length ++
      " core maintainers, bus factor " ++ toString r.busFactor
    insights := insights r
    recommendations := recommendations r
    warnings }

/-- Takes stock of the activity in a repository as of a given time. -/
def analyze (settings : ContributorSettings) (now : Timestamp) (activity : Activity) :
    Assessment Report :=
  let (contributors, warnings) := Contributor.ofActivity activity
  assess settings now contributors warnings

/-! ## Written reports -/

/-- A contributor, with its rating when it has been rated. -/
def contributorJson (c : Contributor) (score : Nat) (engagement : Option Engagement) : Json :=
  .obj [
    ("login", .str c.login), ("commits", .nat c.commits), ("prs_opened", .nat c.pulls),
    ("prs_reviewed", .nat c.reviews), ("issues_triaged", .nat c.issues),
    ("code_additions", .nat c.additions), ("code_deletions", .nat c.deletions),
    ("last_active_date", .ofOption (fun t => .str t.toString) c.lastActive),
    ("score", .nat score), ("engagement", .ofOption (fun e => .str e.name) engagement)]

def Member.toJson (m : Member) : Json :=
  contributorJson m.contributor m.score (some m.engagement)

def Report.toJson (r : Report) : Json :=
  .obj [
    ("total_contributors", .nat r.members.length), ("total_commits", .nat r.totalCommits),
    ("total_reviews", .nat r.totalReviews),
    ("engagement_breakdown", .obj (r.breakdown.map fun (level, n) => (level.name, .nat n))),
    ("leaderboard", .list Member.toJson r.leaderboard),
    ("core_maintainers", .list Member.toJson r.core),
    ("declining_contributors", .list Member.toJson r.declining),
    ("bus_factor", .nat r.busFactor), ("contributors", .list Member.toJson r.members)]

end RepoAudit.Contributors
