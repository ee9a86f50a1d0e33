import RepoAudit.Contributors.Analysis
import RepoAudit.Proofs.Contributors.Records
import RepoAudit.Proofs.Time.Elapsed
import Mathlib.Data.List.Perm.Subperm

/-!
# One more record

A record that is added to a stream can only be to the credit of its login: all other contributors
stay what they were.  Nobody's score falls.  The last activity only moves forward, so nobody gets
less engaged either, with one exception: looked back on from the first second of a later day, a leap
second that ends a day lies as far back as the second after it or less.
-/

namespace RepoAudit

/-- The second activity has one more record, anywhere in the stream that the record belongs to. -/
inductive Activity.Adds (a : Activity) : ActivityRecord → Activity → Prop
  | commit {before after : List Commit} (h : a.commits = before ++ after) (c : Commit) :
      Adds a (.commit c) { a with commits := before ++ c :: after }
  | pull {before after : List PullRequest} (h : a.pulls = before ++ after) (p : PullRequest) :
      Adds a (.pull p) { a with pulls := before ++ p :: after }
  | review {before after : List Review} (h : a.reviews = before ++ after) (r : Review) :
      Adds a (.review r) { a with reviews := before ++ r :: after }
  | issue {before after : List Issue} (h : a.issues = before ++ after) (i : Issue) :
      Adds a (.issue i) { a with issues := before ++ i :: after }

variable {a b : Activity} {r : ActivityRecord} {name : String}

theorem perm_insertion {α : Type} (x : α) (lead before after tail : List α) :
    (lead ++ (before ++ x :: after) ++ tail).Perm (x :: (lead ++ (before ++ after) ++ tail)) := by
  have hmiddle : (lead ++ before ++ x :: (after ++ tail)).Perm
      (x :: (lead ++ before ++ (after ++ tail))) := List.perm_middle
  simpa only [List.append_assoc, List.cons_append] using hmiddle

theorem Activity.Adds.records_perm (h : a.Adds r b) : b.records.Perm (r :: a.records) := by
  let commits := a.commits.map ActivityRecord.commit
  let pulls := a.pulls.map ActivityRecord.pull
  let reviews := a.reviews.map ActivityRecord.review
  cases h with
  | @commit before after h c =>
      simp [records, h]
  | @pull before after h p =>
      have hperm := perm_insertion (.pull p) commits (before.map .pull) (after.map .pull)
        (reviews ++ a.issues.map .issue)
      simpa [records, h, commits, pulls, reviews] using hperm
  | @review before after h r =>
      have hperm := perm_insertion (.review r) (commits ++ pulls) (before.map .review)
        (after.map .review) (a.issues.map .issue)
      simpa [records, h, commits, pulls, reviews] using hperm
  | @issue before after h i =>
      have hperm := perm_insertion (.issue i) (commits ++ pulls ++ reviews) (before.map .issue)
        (after.map .issue) []
      simpa [records, h, commits, pulls, reviews] using hperm

/-! ## Better engagement -/

/-- The levels, the best one highest. -/
def Engagement.rank : Engagement → Nat
  | .core => 3
  | .active => 2
  | .moderate => 1
  | .declining => 0

theorem Engagement.classify_mono {score score' : Nat} {days days' : Int} (hscore : score ≤ score')
    (hdays : days' ≤ days) :
    (classify score (some days)).rank ≤ (classify score' (some days')).rank := by
  simp only [classify, Bool.and_eq_true, decide_eq_true_eq]
  split_ifs <;> simp only [rank] <;> omega

namespace Contributor

open Contribution ActivityRecord

variable {c c' : Contributor} {own own' : List Contribution}

theorem AddsUp.score_le (h : c.AddsUp own) (h' : c'.AddsUp own') (hmore : own.Subperm own') :
    c.score ≤ c'.score := by
  have hcommits : c.commits ≤ c'.commits := by
    rw [h.commits, h'.commits]
    exact hmore.countP_le _
  have hpulls : c.pulls ≤ c'.pulls := by
    rw [h.pulls, h'.pulls]
    exact hmore.countP_le _
  have hreviews : c.reviews ≤ c'.reviews := by
    rw [h.reviews, h'.reviews]
    exact hmore.countP_le _
  have hissues : c.issues ≤ c'.issues := by
    rw [h.issues, h'.issues]
    exact hmore.countP_le _
  rw [score, score]
  omega

/-! ## The contributors of an activity -/

theorem addsUp_of_mem (hc : c ∈ (ofActivity a).1) :
    c.AddsUp (contributionsOf c.login a.records) := by
  have hown := (totals_ofActivity a).addsUp c hc
  rwa [ownedBy_contributions] at hown

theorem mem_login_ofActivity :
    name ∈ (ofActivity a).1.map login ↔ contributionsOf name a.records ≠ [] := by
  rw [(totals_ofActivity a).mem_login_iff, mem_login_contributions, contributionsOf, ne_eq,
    List.map_eq_nil_iff, List.filter_eq_nil_iff]
  simp

theorem exists_mem_ofActivity (hne : contributionsOf name a.records ≠ []) :
    ∃ c ∈ (ofActivity a).1, c.login = name ∧ c.AddsUp (contributionsOf name a.records) := by
  obtain ⟨c, hc, rfl⟩ := List.mem_map.mp (mem_login_ofActivity.mpr hne)
  exact ⟨c, hc, rfl, addsUp_of_mem hc⟩

/-- Whoever contributed the same is the same contributor. -/
theorem mem_ofActivity_of_perm (hc : c ∈ (ofActivity a).1)
    (hperm : (contributionsOf c.login a.records).Perm (contributionsOf c.login b.records)) :
    c ∈ (ofActivity b).1 := by
  have hne : contributionsOf c.login b.records ≠ [] := by
    intro hnil
    rw [hnil, List.perm_nil] at hperm
    exact mem_login_ofActivity.mp (List.mem_map_of_mem hc) hperm
  obtain ⟨c', hc', hlogin, hown⟩ := exists_mem_ofActivity hne
  rw [(addsUp_of_mem hc).eq_of_perm hown hlogin.symm hperm]
  exact hc'

/-! ## What one more record changes -/

theorem contributionsOf_perm (h : a.Adds r b) (name : String) :
    (contributionsOf name b.records).Perm (contributionsOf name (r :: a.records)) :=
  (h.records_perm.filter _).map _

theorem contributionsOf_subperm (h : a.Adds r b) (name : String) :
    (contributionsOf name a.records).Subperm (contributionsOf name b.records) := by
  have hsublist : (contributionsOf name a.records).Sublist
      (contributionsOf name (r :: a.records)) :=
    ((List.sublist_cons_self r a.records).filter _).map _
  exact (contributionsOf_perm h name).subperm_left.mpr hsublist.subperm

theorem contributionsOf_perm_of_not_credited (h : a.Adds r b) (hother : ¬ r.CreditedTo name) :
    (contributionsOf name b.records).Perm (contributionsOf name a.records) := by
  have hsame : contributionsOf name (r :: a.records) = contributionsOf name a.records := by
    simp [contributionsOf, hother]
  exact hsame ▸ contributionsOf_perm h name

theorem written_of_mem_dates {x : Contribution} {t : Timestamp}
    (hx : x ∈ contributionsOf name a.records) (ht : t ∈ x.dates) : t.Written := by
  obtain ⟨record, -, rfl⟩ := List.mem_map.mp hx
  obtain ⟨value, -, hvalue⟩ := List.mem_filterMap.mp ht
  exact Timestamp.ofText_written (toOption_eq_some_iff.mp hvalue)

theorem written_of_lastActive (hown : c.AddsUp (contributionsOf name a.records)) {t : Timestamp}
    (hlast : c.lastActive = some t) : t.Written := by
  have hlatest := hown.lastActive
  rw [hlast] at hlatest
  obtain ⟨x, hx, ht⟩ := List.mem_flatMap.mp hlatest.1
  exact written_of_mem_dates hx ht

/-- More contributions do not lower the engagement, unless the days since the last one are not those
of the order in time. -/
theorem rank_classify_le {now : Timestamp} (hnow : now.nanos < 2 * Timestamp.second)
    (hown : c.AddsUp (contributionsOf name a.records))
    (hown' : c'.AddsUp (contributionsOf name b.records))
    (hmore : (contributionsOf name a.records).Subperm (contributionsOf name b.records))
    (hclear : ∀ t, c.lastActive = some t → ¬ now.Blurred t) :
    (Engagement.classify c.score (c.idleDays? now)).rank ≤
      (Engagement.classify c'.score (c'.idleDays? now)).rank := by
  cases hlast : c.lastActive with
  | none =>
      rw [idleDays?, hlast]
      exact Nat.zero_le _
  | some t =>
      have hlatest := hown.lastActive
      rw [hlast] at hlatest
      have hdates : (contributionsOf name a.records).flatMap Contribution.dates ⊆
          (contributionsOf name b.records).flatMap Contribution.dates := by
        intro t ht
        obtain ⟨x, hx, ht⟩ := List.mem_flatMap.mp ht
        exact List.mem_flatMap.mpr ⟨x, hmore.subset hx, ht⟩
      obtain ⟨t', hlast', hle⟩ := hlatest.exists_not_earlier hown'.lastActive hdates
      rw [idleDays?, idleDays?, hlast, hlast']
      apply Engagement.classify_mono (hown.score_le hown' hmore)
      exact Timestamp.wholeDays_since_le hnow (written_of_lastActive hown hlast)
        (written_of_lastActive hown' hlast') hle (hclear t hlast)

end Contributor

namespace Contributors

open Contributor ActivityRecord

variable {settings : ContributorSettings} {now : Timestamp} {m : Member}

theorem mem_members : m ∈ (analyze settings now a).report.members ↔
    ∃ c ∈ (ofActivity a).1, Member.of now c = m := by
  simp only [analyze, assess, Assessment.sorted, Report.of, List.mem_mergeSort, List.mem_map]

/-- One more record lowers no score, and no engagement except that of somebody whose last activity
lies in a leap second at the end of a day, looked back on from a time of day within this second.
Nobody but its login is touched by it. -/
theorem analyze_of_added_record (settings : ContributorSettings)
    (hnow : now.nanos < 2 * Timestamp.second) (h : a.Adds r b) :
    (∀ m ∈ (analyze settings now a).report.members,
      ∃ m' ∈ (analyze settings now b).report.members, m'.login = m.login ∧ m.score ≤ m'.score ∧
        ((∀ t, m.contributor.lastActive = some t → ¬ now.Blurred t) →
          m.engagement.rank ≤ m'.engagement.rank)) ∧
      ∀ m : Member, ¬ r.CreditedTo m.login →
        (m ∈ (analyze settings now b).report.members ↔
          m ∈ (analyze settings now a).report.members) := by
  constructor
  · intro m hm
    obtain ⟨c, hc, rfl⟩ := mem_members.mp hm
    have hown := addsUp_of_mem hc
    have hmore := contributionsOf_subperm h c.login
    have hne : contributionsOf c.login b.records ≠ [] := by
      have hsome := mem_login_ofActivity.mp (List.mem_map_of_mem hc)
      exact fun hnil => hsome (List.subperm_nil.mp (hnil ▸ hmore))
    obtain ⟨c', hc', hlogin, hown'⟩ := exists_mem_ofActivity hne
    refine ⟨Member.of now c', mem_members.mpr ⟨c', hc', rfl⟩, hlogin, ?_, ?_⟩
    · exact hown.score_le hown' hmore
    · exact rank_classify_le hnow hown hown' hmore
  · intro m hother
    simp only [mem_members]
    constructor
    · rintro ⟨c, hc, rfl⟩
      exact ⟨c, mem_ofActivity_of_perm hc (contributionsOf_perm_of_not_credited h hother), rfl⟩
    · rintro ⟨c, hc, rfl⟩
      exact ⟨c, mem_ofActivity_of_perm hc (contributionsOf_perm_of_not_credited h hother).symm, rfl⟩

/-- Opened in the leap second that ended 2016. -/
def eveningPull : PullRequest :=
  { user := some ⟨"ann"⟩, createdAt := some "2016-12-31T23:59:60.5Z" }

def newYearIssue : Issue :=
  { user := some ⟨"ann"⟩, updatedAt := some "2017-01-01T00:00:00Z" }

def evening : Activity :=
  { pulls := List.replicate 4 eveningPull }

def newYear : Activity :=
  { evening with issues := [newYearIssue] }

/-- The first of April, three months later. -/
def aprilMidnight : Timestamp := ⟨1491004800, 0⟩

def aprilNoon : Timestamp := ⟨1491048000, 0⟩

theorem adds_newYearIssue : evening.Adds (.issue newYearIssue) newYear :=
  @Activity.Adds.issue evening [] [] rfl newYearIssue

theorem analyze_newYear_at_noon :
    aprilNoon.nanos < 2 * Timestamp.second ∧
      evening.Adds (.issue newYearIssue) newYear ∧
      ∀ m ∈ (analyze {} aprilNoon evening).report.members,
        ∃ m' ∈ (analyze {} aprilNoon newYear).report.members,
          m'.login = m.login ∧ m.engagement.rank ≤ m'.engagement.rank := by
  have hnow : aprilNoon.nanos < 2 * Timestamp.second := by decide
  refine ⟨hnow, adds_newYearIssue, fun m hm => ?_⟩
  obtain ⟨m', hm', hlogin, -, hrank⟩ :=
    (analyze_of_added_record {} hnow adds_newYearIssue).1 m hm
  refine ⟨m', hm', hlogin, hrank ?_⟩
  rintro t - ⟨-, hnight⟩
  exact absurd hnight (by decide)

theorem mem_ofActivity_evening (c : Contributor) : c ∈ (ofActivity evening).1 ↔
    c = { login := "ann", pulls := 4, lastActive := some ⟨1483228799, 1500000000⟩ } := by
  have hfold : ((Contribution.ofActivity evening).map Prod.fst).foldl record [] =
      [{ login := "ann", pulls := 4, lastActive := some ⟨1483228799, 1500000000⟩ }] := rfl
  rw [ofActivity, fold, hfold, List.mem_mergeSort, List.mem_singleton]

theorem mem_ofActivity_newYear (c : Contributor) : c ∈ (ofActivity newYear).1 ↔
    c = { login := "ann", pulls := 4, issues := 1, lastActive := some ⟨1483228800, 0⟩ } := by
  have hfold : ((Contribution.ofActivity newYear).map Prod.fst).foldl record [] =
      [{ login := "ann", pulls := 4, issues := 1, lastActive := some ⟨1483228800, 0⟩ }] := rfl
  rw [ofActivity, fold, hfold, List.mem_mergeSort, List.mem_singleton]

/-- At midnight the leap second is 89 days ago, and the midnight that followed it 90. -/
theorem newYearIssue_demotes : evening.Adds (.issue newYearIssue) newYear ∧
    ¬ ∀ m ∈ (analyze {} aprilMidnight evening).report.members,
      ∃ m' ∈ (analyze {} aprilMidnight newYear).report.members,
        m'.login = m.login ∧ m.engagement.rank ≤ m'.engagement.rank := by
  refine ⟨adds_newYearIssue, fun hkept => ?_⟩
  obtain ⟨m', hm', -, hrank⟩ :=
    hkept _ (mem_members.mpr ⟨_, (mem_ofActivity_evening _).mpr rfl, rfl⟩)
  obtain ⟨c', hc', rfl⟩ := mem_members.mp hm'
  rw [mem_ofActivity_newYear] at hc'
  subst hc'
  exact absurd hrank (by decide)

end Contributors
end RepoAudit
