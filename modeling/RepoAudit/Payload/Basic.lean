import RepoAudit.Text.Basic
import RepoAudit.Json.Decode

/-!
# Activity payloads

The issues, pull requests, commits and reviews of a hosted repository, as far as they are looked
at.  Dates stay text here, so that a malformed one costs a warning and not the payload.  Each type
has a decoder and an encoder; the encoder writes every field, in the order in which the decoder
reads them from a list.
-/

namespace RepoAudit

open Json (Decoder FieldRule field decodeNat decodeText decodeFloat decodeOption decodeList
  decodeRecord decodeObject decodeVariant decodeValue)

structure User where
  login : String := ""

structure Label where
  /-- A label written as an object keeps that form. -/
  asObject : Bool
  name : String

structure Issue where
  number : Nat := 0
  title : String := ""
  state : String := ""
  user : Option User := none
  labels : List Label := []
  createdAt : Option String := none
  updatedAt : Option String := none
  closedAt : Option String := none
  /-- Present when the issue is really a pull request. -/
  pullRequest : Option Json := none

structure ChangedFile where
  filename : String := ""
  status : String := ""
  additions : Nat := 0
  deletions : Nat := 0
  changes : Nat := 0
  patch : Option String := none

structure PullRequest where
  number : Nat := 0
  title : String := ""
  state : String := ""
  user : Option User := none
  createdAt : Option String := none
  mergedAt : Option String := none
  closedAt : Option String := none
  additions : Nat := 0
  deletions : Nat := 0
  changedFiles : Nat := 0
  files : List ChangedFile := []
  /-- Line coverage in percent, when the caller knows it. -/
  coverage : Option Float := none

structure Signature where
  name : String := ""
  email : String := ""
  date : Option String := none

structure CommitDetail where
  author : Option Signature := none
  message : String := ""

structure CommitStats where
  additions : Nat := 0
  deletions : Nat := 0

structure Commit where
  sha : String := ""
  /-- The account of the author, when one is linked. -/
  author : Option User := none
  detail : CommitDetail := {}
  stats : Option CommitStats := none

structure Review where
  user : Option User := none
  state : String := ""
  submittedAt : Option String := none

/-- The four streams of events of a repository. -/
structure Activity where
  commits : List Commit := []
  pulls : List PullRequest := []
  reviews : List Review := []
  issues : List Issue := []

def isOpenState (state : String) : Bool :=
  Text.lower state.toList == "open".toList

def Issue.isOpen (i : Issue) : Bool :=
  isOpenState i.state

def Issue.isPullRequest (i : Issue) : Bool :=
  i.pullRequest.isSome

def PullRequest.isOpen (p : PullRequest) : Bool :=
  isOpenState p.state

def PullRequest.isMerged (p : PullRequest) : Bool :=
  p.mergedAt.isSome

def PullRequest.author (p : PullRequest) : String :=
  match p.user with
  | some u => u.login
  | none => "unknown"

/-- Whom a commit counts for: the account, or else the name in its signature. -/
def Commit.login? (c : Commit) : Option String :=
  let login := match c.author with
    | some u => some u.login
    | none => c.detail.author.map Signature.name
  login.filter (· != "")

def Commit.date? (c : Commit) : Option String :=
  c.detail.author.bind Signature.date

/-! ## Decoders -/

def textField (name : String) (put : String → α → α) : FieldRule α :=
  field name decodeText put

def natField (name : String) (put : Nat → α → α) : FieldRule α :=
  field name decodeNat put

def dateField (name : String) (put : Option String → α → α) : FieldRule α :=
  field name (decodeOption decodeText) put

def User.decode : Decoder User :=
  decodeRecord "User" [(textField "login" fun v _ => ⟨v⟩).mandatory] {}

def userField (put : Option User → α → α) : FieldRule α :=
  field "user" (decodeOption User.decode) put

def Label.decode : Decoder Label :=
  decodeVariant "Label" [
    decodeObject [(textField "name" fun v _ => ⟨true, v⟩).mandatory] ⟨true, ""⟩,
    fun node => (decodeText node).map (⟨false, ·⟩)]

def Issue.decode : Decoder Issue :=
  decodeRecord "Issue" [
    natField "number" fun v i => { i with number := v },
    textField "title" fun v i => { i with title := v },
    textField "state" fun v i => { i with state := v },
    userField fun v i => { i with user := v },
    field "labels" (decodeList Label.decode) fun v i => { i with labels := v },
    dateField "created_at" fun v i => { i with createdAt := v },
    dateField "updated_at" fun v i => { i with updatedAt := v },
    dateField "closed_at" fun v i => { i with closedAt := v },
    field "pull_request" (decodeOption decodeValue) fun v i => { i with pullRequest := v }] {}

def ChangedFile.decode : Decoder ChangedFile :=
  decodeRecord "PullRequestFile" [
    (textField "filename" fun v f => { f with filename := v }).mandatory,
    textField "status" fun v f => { f with status := v },
    natField "additions" fun v f => { f with additions := v },
    natField "deletions" fun v f => { f with deletions := v },
    natField "changes" fun v f => { f with changes := v },
    field "patch" (decodeOption decodeText) fun v f => { f with patch := v }] {}

def PullRequest.decode : Decoder PullRequest :=
  decodeRecord "PullRequest" [
    natField "number" fun v p => { p with number := v },
    textField "title" fun v p => { p with title := v },
    textField "state" fun v p => { p with state := v },
    userField fun v p => { p with user := v },
    dateField "created_at" fun v p => { p with createdAt := v },
    dateField "merged_at" fun v p => { p with mergedAt := v },
    dateField "closed_at" fun v p => { p with closedAt := v },
    natField "additions" fun v p => { p with additions := v },
    natField "deletions" fun v p => { p with deletions := v },
    natField "changed_files" fun v p => { p with changedFiles := v },
    field "files" (decodeList ChangedFile.decode) fun v p => { p with files := v },
    field "coverage" (decodeOption decodeFloat) fun v p => { p with coverage := v }] {}

def Signature.decode : Decoder Signature :=
  decodeRecord "GitAuthor" [
    textField "name" fun v s => { s with name := v },
    textField "email" fun v s => { s with email := v },
    dateField "date" fun v s => { s with date := v }] {}

def CommitDetail.decode : Decoder CommitDetail :=
  decodeRecord "CommitDetail" [
    field "author" (decodeOption Signature.decode) fun v d => { d with author := v },
    textField "message" fun v d => { d with message := v }] {}

def CommitStats.decode : Decoder CommitStats :=
  decodeRecord "CommitStats" [
    natField "additions" fun v s => { s with additions := v },
    natField "deletions" fun v s => { s with deletions := v }] {}

def Commit.decode : Decoder Commit :=
  decodeRecord "Commit" [
    textField "sha" fun v c => { c with sha := v },
    field "author" (decodeOption User.decode) fun v c => { c with author := v },
    field "commit" CommitDetail.decode fun v c => { c with detail := v },
    field "stats" (decodeOption CommitStats.decode) fun v c => { c with stats := v }] {}

def Review.decode : Decoder Review :=
  decodeRecord "Review" [
    userField fun v r => { r with user := v },
    textField "state" fun v r => { r with state := v },
    dateField "submitted_at" fun v r => { r with submittedAt := v }] {}

/-- The names under which a list of pull requests may stand. -/
def pullListAliases : List String :=
  ["pull_requests", "pullRequests"]

def Activity.decode : Decoder Activity :=
  decodeRecord "ContributorData" [
    field "commits" (decodeList Commit.decode) fun v a => { a with commits := v },
    (field "prs" (decodeList PullRequest.decode) fun v a => { a with pulls := v }).alsoCalled
      pullListAliases,
    field "reviews" (decodeList Review.decode) fun v a => { a with reviews := v },
    field "issues" (decodeList Issue.decode) fun v a => { a with issues := v }] {}

/-- A list that stands alone or under one of its names in an object. -/
def decodeFeed (decode : Decoder α) : Decoder (List α) :=
  decodeVariant "Feed" [
    decodeList decode,
    decodeObject [(field "issues" (decodeList decode) fun v _ => v).mandatory] [],
    decodeObject [((field "prs" (decodeList decode) fun v _ => v).mandatory).alsoCalled
      pullListAliases] []]

/-! ## Encoders -/

def User.toJson (u : User) : Json :=
  .obj [("login", .str u.login)]

def Label.toJson (l : Label) : Json :=
  if l.asObject then .obj [("name", .str l.name)] else .str l.name

def dateJson (d : Option String) : Json :=
  .ofOption .str d

def Issue.toJson (i : Issue) : Json :=
  .obj [
    ("number", .nat i.number), ("title", .str i.title), ("state", .str i.state),
    ("user", .ofOption User.toJson i.user), ("labels", .list Label.toJson i.labels),
    ("created_at", dateJson i.createdAt), ("updated_at", dateJson i.updatedAt),
    ("closed_at", dateJson i.closedAt), ("pull_request", .ofOption id i.pullRequest)]

def ChangedFile.toJson (f : ChangedFile) : Json :=
  .obj [
    ("filename", .str f.filename), ("status", .str f.status), ("additions", .nat f.additions),
    ("deletions", .nat f.deletions), ("changes", .nat f.changes),
    ("patch", .ofOption .str f.patch)]

def PullRequest.toJson (p : PullRequest) : Json :=
  .obj [
    ("number", .nat p.number), ("title", .str p.title), ("state", .str p.state),
    ("user", .ofOption User.toJson p.user), ("created_at", dateJson p.createdAt),
    ("merged_at", dateJson p.mergedAt), ("closed_at", dateJson p.closedAt),
    ("additions", .nat p.additions), ("deletions", .nat p.deletions),
    ("changed_files", .nat p.changedFiles), ("files", .list ChangedFile.toJson p.files),
    ("coverage", .ofOption .float p.coverage)]

def Signature.toJson (s : Signature) : Json :=
  .obj [("name", .str s.name), ("email", .str s.email), ("date", dateJson s.date)]

def CommitDetail.toJson (d : CommitDetail) : Json :=
  .obj [("author", .ofOption Signature.toJson d.author), ("message", .str d.message)]

def CommitStats.toJson (s : CommitStats) : Json :=
  .obj [("additions", .nat s.additions), ("deletions", .nat s.deletions)]

def Commit.toJson (c : Commit) : Json :=
  .obj [
    ("sha", .str c.sha), ("author", .ofOption User.toJson c.author),
    ("commit", c.detail.toJson), ("stats", .ofOption CommitStats.toJson c.stats)]

def Review.toJson (r : Review) : Json :=
  .obj [
    ("user", .ofOption User.toJson r.user), ("state", .str r.state),
    ("submitted_at", dateJson r.submittedAt)]

def Activity.toJson (a : Activity) : Json :=
  .obj [
    ("commits", .list Commit.toJson a.commits), ("prs", .list PullRequest.toJson a.pulls),
    ("reviews", .list Review.toJson a.reviews), ("issues", .list Issue.toJson a.issues)]

end RepoAudit
