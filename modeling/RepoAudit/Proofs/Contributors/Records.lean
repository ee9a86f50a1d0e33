import RepoAudit.Proofs.Contributors.Totals

/-!
# Contributors account for the records of all streams

The records of the four streams, in their order, and what each of them says: whom it counts for,
which dates it writes down and which of these cannot be read.  The contributors of an activity are
then described without the loop that collects them: each login has one contributor, whose counts
are counts of records, and the warnings are those of the records that count for someone.
-/

namespace RepoAudit

inductive ActivityRecord where
  | commit (c : Commit)
  | pull (p : PullRequest)
  | review (r : Review)
  | issue (i : Issue)

def Activity.records (a : Activity) : List ActivityRecord :=
  a.commits.map .commit ++ a.pulls.map .pull ++ a.reviews.map .review ++ a.issues.map .issue

def Commit.lines (c : Commit) : CommitStats :=
  c.stats.getD {}

def dateWarning? (source value : String) : Option Warning :=
  match readDate source value with
  | .ok _ => none
  | .error w => some w

namespace ActivityRecord

/-- Whom a record counts for.  A commit counts for the account of its author; only when no account
is linked, for the name in its signature.  Nothing counts for the empty login. -/
inductive CreditedTo : ActivityRecord → String → Prop
  | account {c : Commit} {u : User} (hauthor : c.author = some u) (hlogin : u.login ≠ "") :
      CreditedTo (.commit c) u.login
  | signature {c : Commit} {s : Signature} (hauthor : c.author = none)
      (hsigned : c.detail.author = some s) (hname : s.name ≠ "") : CreditedTo (.commit c) s.name
  | pull {p : PullRequest} {u : User} (huser : p.user = some u) (hlogin : u.login ≠ "") :
      CreditedTo (.pull p) u.login
  | review {r : Review} {u : User} (huser : r.user = some u) (hlogin : u.login ≠ "") :
      CreditedTo (.review r) u.login
  | issue {i : Issue} {u : User} (huser : i.user = some u) (hlogin : u.login ≠ "") :
      CreditedTo (.issue i) u.login

/-- The dates that count, as they are written.  The date on which an issue was created counts only
when it was never updated. -/
def writtenDates : ActivityRecord → List String
  | .commit c => (c.detail.author.bind Signature.date).toList
  | .pull p => p.createdAt.toList ++ p.mergedAt.toList
  | .review r => r.submittedAt.toList
  | .issue i =>
      match i.updatedAt with
      | some updated => [updated]
      | none => i.createdAt.toList

def stream : ActivityRecord → String
  | .commit _ => "commits"
  | .pull _ => "prs"
  | .review _ => "reviews"
  | .issue _ => "issues"

def dates (r : ActivityRecord) : List Timestamp :=
  r.writtenDates.filterMap fun value => (Timestamp.ofText value.toList).toOption

/-- One warning for each date that cannot be read. -/
def warnings (r : ActivityRecord) : List Warning :=
  r.writtenDates.filterMap (dateWarning? r.stream)

def kind : ActivityRecord → ContributionKind
  | .commit _ => .commit
  | .pull _ => .pull
  | .review _ => .review
  | .issue _ => .issue

def lines : ActivityRecord → CommitStats
  | .commit c => c.lines
  | _ => {}

def login? : ActivityRecord → Option String
  | .commit c => c.login?
  | .pull p => Contribution.userLogin? p.user
  | .review r => Contribution.userLogin? r.user
  | .issue i => Contribution.userLogin? i.user

def contribution? : ActivityRecord → Option (Contribution × List Warning)
  | .commit c => Contribution.ofCommit? c
  | .pull p => Contribution.ofPull? p
  | .review r => Contribution.ofReview? r
  | .issue i => Contribution.ofIssue? i

def contribution (r : ActivityRecord) (login : String) : Contribution where
  login := login
  kind := r.kind
  additions := r.lines.additions
  deletions := r.lines.deletions
  dates := r.dates

theorem userLogin?_eq_some_iff {user : Option User} {name : String} :
    Contribution.userLogin? user = some name ↔
      ∃ u, user = some u ∧ u.login ≠ "" ∧ u.login = name := by
  cases user with
  | none => simp [Contribution.userLogin?]
  | some u =>
      simp only [Contribution.userLogin?, Option.map_some, Option.filter_eq_some_iff,
        Option.some.injEq, bne_iff_ne, exists_eq_left']
      constructor
      · rintro ⟨rfl, hne⟩
        exact ⟨hne, rfl⟩
      · rintro ⟨hne, rfl⟩
        exact ⟨rfl, hne⟩

theorem creditedTo_iff {r : ActivityRecord} {name : String} :
    r.CreditedTo name ↔ r.login? = some name := by
  constructor
  · intro h
    cases h with
    | account hauthor hlogin => simp [login?, Commit.login?, hauthor, hlogin]
    | signature hauthor hsigned hname => simp [login?, Commit.login?, hauthor, hsigned, hname]
    | pull huser hlogin => exact userLogin?_eq_some_iff.mpr ⟨_, huser, hlogin, rfl⟩
    | review huser hlogin => exact userLogin?_eq_some_iff.mpr ⟨_, huser, hlogin, rfl⟩
    | issue huser hlogin => exact userLogin?_eq_some_iff.mpr ⟨_, huser, hlogin, rfl⟩
  · intro h
    cases r with
    | commit c =>
        cases hauthor : c.author with
        | some u =>
            simp only [login?, Commit.login?, hauthor, Option.filter_eq_some_iff,
              Option.some.injEq, bne_iff_ne] at h
            obtain ⟨rfl, hne⟩ := h
            exact .account hauthor hne
        | none =>
            simp only [login?, Commit.login?, hauthor, Option.filter_eq_some_iff,
              Option.map_eq_some_iff, bne_iff_ne] at h
            obtain ⟨⟨s, hsigned, rfl⟩, hne⟩ := h
            exact .signature hauthor hsigned hne
    | pull p =>
        obtain ⟨u, huser, hne, rfl⟩ := userLogin?_eq_some_iff.mp h
        exact .pull huser hne
    | review r =>
        obtain ⟨u, huser, hne, rfl⟩ := userLogin?_eq_some_iff.mp h
        exact .review huser hne
    | issue i =>
        obtain ⟨u, huser, hne, rfl⟩ := userLogin?_eq_some_iff.mp h
        exact .issue huser hne

instance (r : ActivityRecord) (name : String) : Decidable (r.CreditedTo name) :=
  decidable_of_iff _ creditedTo_iff.symm

def Credited (r : ActivityRecord) : Prop :=
  ∃ name, r.CreditedTo name

theorem credited_iff {r : ActivityRecord} : r.Credited ↔ r.login?.isSome = true := by
  rw [Option.isSome_iff_exists]
  exact exists_congr fun name => creditedTo_iff

instance (r : ActivityRecord) : Decidable r.Credited :=
  decidable_of_iff _ credited_iff.symm

theorem readDates_eq (source : String) (dates : List (Option String)) :
    Contribution.readDates source dates =
      ((dates.filterMap id).filterMap fun value => (Timestamp.ofText value.toList).toOption,
        (dates.filterMap id).filterMap (dateWarning? source)) := by
  induction dates with
  | nil => rfl
  | cons date dates ih =>
      rw [Contribution.readDates, Prod.mk.injEq] at ih ⊢
      cases date with
      | none => simpa [readOptionalDate] using ih
      | some value =>
          cases hvalue : Timestamp.ofText value.toList <;>
            simpa [readOptionalDate, dateWarning?, readDate, hvalue, Except.toOption,
              Except.mapError] using ih

theorem filterMap_id_pair (first second : Option String) :
    [first, second].filterMap id = first.toList ++ second.toList := by
  cases first <;> cases second <;> rfl

theorem filterMap_id_single (date : Option String) : [date].filterMap id = date.toList := by
  cases date <;> rfl

theorem contribution?_eq (r : ActivityRecord) :
    r.contribution? = r.login?.map fun name => (r.contribution name, r.warnings) := by
  cases r with
  | commit c =>
      simp only [contribution?, Contribution.ofCommit?, readDates_eq, filterMap_id_single]
      rfl
  | pull p =>
      simp only [contribution?, Contribution.ofPull?, readDates_eq, filterMap_id_pair]
      rfl
  | review r =>
      simp only [contribution?, Contribution.ofReview?, readDates_eq, filterMap_id_single]
      rfl
  | issue i =>
      have hwritten :
          (i.updatedAt <|> i.createdAt).toList = (ActivityRecord.issue i).writtenDates := by
        cases hupdated : i.updatedAt <;> simp [writtenDates, hupdated]
      simp only [contribution?, Contribution.ofIssue?, readDates_eq, filterMap_id_single, hwritten]
      rfl

/-- What the records that count for a login contribute to it. -/
def contributionsOf (name : String) (rs : List ActivityRecord) : List Contribution :=
  (rs.filter fun r => r.CreditedTo name).map fun r => r.contribution name

theorem ownedBy_contributions (name : String) (rs : List ActivityRecord) :
    Contribution.ownedBy name ((rs.filterMap contribution?).map Prod.fst) =
      contributionsOf name rs := by
  induction rs with
  | nil => rfl
  | cons r rs ih =>
      rw [List.filterMap_cons, contribution?_eq]
      cases hlogin : r.login? with
      | none =>
          have hother : ¬ r.CreditedTo name := by simp [creditedTo_iff, hlogin]
          simpa [contributionsOf, hother] using ih
      | some other =>
          by_cases hname : other = name
          · have hown : r.CreditedTo name := by simp [creditedTo_iff, hlogin, hname]
            simpa [contributionsOf, Contribution.ownedBy, hown, contribution, hname] using ih
          · have hother : ¬ r.CreditedTo name := by simp [creditedTo_iff, hlogin, hname]
            simpa [contributionsOf, Contribution.ownedBy, hother, contribution, hname] using ih

theorem mem_login_contributions (name : String) (rs : List ActivityRecord) :
    name ∈ ((rs.filterMap contribution?).map Prod.fst).map Contribution.login ↔
      ∃ r ∈ rs, r.CreditedTo name := by
  simp only [List.map_map, List.mem_map, List.mem_filterMap, contribution?_eq,
    Option.map_eq_some_iff, creditedTo_iff, Function.comp_apply]
  constructor
  · rintro ⟨-, ⟨r, hr, other, hlogin, rfl⟩, rfl⟩
    exact ⟨r, hr, hlogin⟩
  · rintro ⟨r, hr, hlogin⟩
    exact ⟨_, ⟨r, hr, name, hlogin, rfl⟩, rfl⟩

theorem warnings_contributions (rs : List ActivityRecord) :
    (rs.filterMap contribution?).flatMap Prod.snd =
      (rs.filter fun r => r.Credited).flatMap warnings := by
  induction rs with
  | nil => rfl
  | cons r rs ih =>
      rw [List.filterMap_cons, contribution?_eq]
      cases hlogin : r.login? with
      | none =>
          have hother : ¬ r.Credited := by simp [credited_iff, hlogin]
          simpa [hother] using ih
      | some name =>
          have hown : r.Credited := by simp [credited_iff, hlogin]
          simpa [hown] using ih

theorem filterMap_credited (rs : List ActivityRecord) :
    (rs.filter fun r => r.Credited).filterMap contribution? = rs.filterMap contribution? := by
  rw [List.filterMap_filter]
  congr 1
  funext r
  by_cases hr : r.Credited
  · simp [hr]
  · have hlogin : r.login? = none := by simpa [credited_iff] using hr
    simp [hr, contribution?_eq, hlogin]

end ActivityRecord

open ActivityRecord

theorem Contribution.ofActivity_eq (a : Activity) :
    Contribution.ofActivity a = a.records.filterMap contribution? := by
  simp only [Activity.records, List.filterMap_append, List.filterMap_map]
  rfl

/-! ## What a contributor stands for -/

/-- A contributor accounts for the records that count for its login. -/
structure Contributor.AccountsFor (c : Contributor) (a : Activity) : Prop where
  commits : c.commits = a.commits.countP fun k => (commit k).CreditedTo c.login
  pulls : c.pulls = a.pulls.countP fun p => (pull p).CreditedTo c.login
  reviews : c.reviews = a.reviews.countP fun r => (review r).CreditedTo c.login
  issues : c.issues = a.issues.countP fun i => (issue i).CreditedTo c.login
  additions :
    let sum := sumOf ((a.commits.filter fun k => (commit k).CreditedTo c.login).map
      fun k => k.lines.additions)
    sum < lineCountLimit → c.additions = sum
  deletions :
    let sum := sumOf ((a.commits.filter fun k => (commit k).CreditedTo c.login).map
      fun k => k.lines.deletions)
    sum < lineCountLimit → c.deletions = sum
  lastActive :
    IsLatest c.lastActive ((a.records.filter fun r => r.CreditedTo c.login).flatMap dates)

theorem Activity.countP_records (p : ActivityRecord → Bool) (a : Activity) :
    a.records.countP p =
      a.commits.countP (p ∘ commit) + a.pulls.countP (p ∘ pull) +
        a.reviews.countP (p ∘ review) + a.issues.countP (p ∘ issue) := by
  simp only [Activity.records, List.countP_append, List.countP_map]

theorem Activity.sumOf_records (p : ActivityRecord → Bool) (measure : CommitStats → Nat)
    (hmeasure : measure {} = 0) (a : Activity) :
    sumOf ((a.records.filter p).map fun r => measure r.lines) =
      sumOf ((a.commits.filter (p ∘ commit)).map fun k => measure k.lines) := by
  -- Only commits have lines, so the other streams add nothing.
  have hzero : ∀ n, sumOf (List.replicate n 0) = 0 := fun n => by
    rw [show sumOf (List.replicate n 0) = (List.replicate n 0).sum from rfl, List.sum_replicate,
      smul_zero]
  simp only [Activity.records, List.filter_append, List.map_append, List.filter_map, List.map_map,
    sumOf_append]
  simp only [Function.comp_def, lines, hmeasure, List.map_const', hzero, Nat.add_zero]

namespace Contributor

theorem countP_contributionsOf (a : Activity) (name : String) (kind : ContributionKind) :
    ((contributionsOf name a.records).countP fun x => x.kind = kind) =
      a.records.countP fun r => r.kind = kind && r.CreditedTo name := by
  rw [contributionsOf, List.countP_map, List.countP_filter]
  rfl

theorem sumOf_contributionsOf (a : Activity) (name : String) {lines : Contribution → Nat}
    (measure : CommitStats → Nat) (hzero : measure {} = 0)
    (hmeasure : ∀ r : ActivityRecord, lines (r.contribution name) = measure r.lines) :
    sumOf ((contributionsOf name a.records).map lines) =
      sumOf ((a.commits.filter fun k => (commit k).CreditedTo name).map
        fun k => measure k.lines) := by
  have hcommits := Activity.sumOf_records (fun r => r.CreditedTo name) measure hzero a
  rw [Function.comp_def] at hcommits
  rw [contributionsOf, List.map_map, ← hcommits]
  simp only [Function.comp_def, hmeasure]

theorem AddsUp.accountsFor {c : Contributor} {a : Activity}
    (h : c.AddsUp (contributionsOf c.login a.records)) : c.AccountsFor a := by
  constructor
  case additions =>
    intro sum hsum
    rw [h.additions, sumOf_contributionsOf a c.login CommitStats.additions rfl fun r => rfl]
    exact Nat.mod_eq_of_lt hsum
  case deletions =>
    intro sum hsum
    rw [h.deletions, sumOf_contributionsOf a c.login CommitStats.deletions rfl fun r => rfl]
    exact Nat.mod_eq_of_lt hsum
  case lastActive =>
    have hlast := h.lastActive
    rwa [contributionsOf, List.flatMap_map] at hlast
  -- The four counts count the records of their streams.
  case commits =>
    rw [h.commits, countP_contributionsOf, Activity.countP_records]
    simp [Function.comp_def, kind]
  case pulls =>
    rw [h.pulls, countP_contributionsOf, Activity.countP_records]
    simp [Function.comp_def, kind]
  case reviews =>
    rw [h.reviews, countP_contributionsOf, Activity.countP_records]
    simp [Function.comp_def, kind]
  case issues =>
    rw [h.issues, countP_contributionsOf, Activity.countP_records]
    simp [Function.comp_def, kind]

theorem totals_ofActivity (a : Activity) :
    Totals (ofActivity a).1 ((a.records.filterMap contribution?).map Prod.fst) := by
  rw [ofActivity, Contribution.ofActivity_eq]
  exact Totals.fold _

/-- Each login that a record counts for has one contributor, who accounts for its records, and no
one else is a contributor.  The warnings are about the unreadable dates of records that count for
someone, in their order.  All other records leave no trace. -/
theorem ofActivity_accounts (a : Activity) :
    ((ofActivity a).1.map login).Nodup ∧
      (∀ name, name ∈ (ofActivity a).1.map login ↔ ∃ r ∈ a.records, r.CreditedTo name) ∧
      (∀ c ∈ (ofActivity a).1, c.AccountsFor a) ∧
      (ofActivity a).2 = (a.records.filter fun r => r.Credited).flatMap warnings ∧
      ∀ b : Activity, (b.records.filter fun r => r.Credited) = (a.records.filter fun r => r.Credited) →
        ofActivity b = ofActivity a := by
  have htotals := totals_ofActivity a
  refine ⟨htotals.nodup, ?_, ?_, ?_, ?_⟩
  · intro name
    rw [htotals.mem_login_iff, mem_login_contributions]
  · intro c hc
    have hown := htotals.addsUp c hc
    rw [ownedBy_contributions] at hown
    exact AddsUp.accountsFor hown
  · rw [ofActivity, Contribution.ofActivity_eq]
    exact warnings_contributions a.records
  · intro b hb
    have hcontributions : Contribution.ofActivity b = Contribution.ofActivity a := by
      rw [Contribution.ofActivity_eq, Contribution.ofActivity_eq,
        ← filterMap_credited b.records, hb, filterMap_credited]
    rw [ofActivity, ofActivity, hcontributions]

/-- A commit of `ann`, one of nobody, and a pull request of `ann` with an unreadable date. -/
def annActivity : Activity where
  commits := [
    { author := some ⟨"ann"⟩, detail := { author := some { date := some "2024-05-01T00:00:00Z" } }
      stats := some ⟨3, 1⟩ },
    { stats := some ⟨40, 0⟩ }]
  pulls := [
    { user := some ⟨"ann"⟩, createdAt := some "soon", mergedAt := some "2024-05-02T00:00:00Z" }]

theorem annActivity_accounts :
    ∃ c ∈ (ofActivity annActivity).1, c.login = "ann" ∧ c.commits = 1 ∧ c.pulls = 1 ∧
      c.additions = 3 := by
  obtain ⟨-, hlogins, haccounts, -⟩ := ofActivity_accounts annActivity
  have hann : "ann" ∈ (ofActivity annActivity).1.map login :=
    (hlogins "ann").mpr ⟨_, List.mem_cons_self, .account rfl (by decide)⟩
  obtain ⟨c, hc, hlogin⟩ := List.mem_map.mp hann
  obtain ⟨hcommits, hpulls, -, -, hadditions, -, -⟩ := haccounts c hc
  rw [hlogin] at hcommits hpulls hadditions
  exact ⟨c, hc, hlogin, hcommits, hpulls, hadditions (by decide)⟩

end Contributor
end RepoAudit
