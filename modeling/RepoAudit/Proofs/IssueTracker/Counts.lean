import RepoAudit.Proofs.IssueTracker.StaleLimit
import RepoAudit.Proofs.Tally
import RepoAudit.Proofs.Time.Forward

/-!
# What the metrics of a tracker count

The numbers of a tracker fit together, and its most frequent labels are the head of the one ranking
that the labels have.  An issue that is stale is also stale with fewer days allowed, and it stays
stale as time goes on, unless the present leaves a leap second that ends a day.
-/

namespace RepoAudit.IssueTracker

variable {issues issues' : List Issue} {pulls : List PullRequest} {now later : Timestamp}
variable {limit limit' : Span} {days days' : Int} {t : Tracked} {names names' : List String}
variable {settings : IssueSettings}

/-! ## Issues and pull requests -/

theorem length_track (issues : List Issue) :
    (track issues).length = issues.countP fun i => !i.isPullRequest := by
  rw [track, List.length_map, List.countP_eq_length_filter]

theorem openIssues_add_closedIssues (now : Timestamp) (limit : Span) (issues : List Issue)
    (pulls : List PullRequest) :
    (Metrics.of now limit (track issues) pulls).openIssues +
        (Metrics.of now limit (track issues) pulls).closedIssues =
      issues.countP fun i => !i.isPullRequest := by
  rw [← length_track]
  exact countP_add_countP_not _ _

theorem staleIssues_le_openIssues (now : Timestamp) (limit : Span) (tracked : List Tracked)
    (pulls : List PullRequest) :
    (Metrics.of now limit tracked pulls).staleIssues ≤
      (Metrics.of now limit tracked pulls).openIssues := by
  apply List.countP_mono_left
  intro t _ hstale
  exact (Bool.and_eq_true_iff.mp hstale).1

theorem mergedPulls_add_openPulls_le (now : Timestamp) (limit : Span) (tracked : List Tracked)
    (pulls : List PullRequest) :
    (Metrics.of now limit tracked pulls).mergedPulls +
        (Metrics.of now limit tracked pulls).openPulls ≤
      (Metrics.of now limit tracked pulls).totalPulls := by
  have hopen : (pulls.countP fun p => p.isOpen && !p.isMerged) ≤
      pulls.countP fun p => !p.isMerged := by
    apply List.countP_mono_left
    intro p _ hp
    exact (Bool.and_eq_true_iff.mp hp).2
  calc
    pulls.countP PullRequest.isMerged + (pulls.countP fun p => p.isOpen && !p.isMerged) ≤
        pulls.countP PullRequest.isMerged + pulls.countP fun p => !p.isMerged :=
      Nat.add_le_add_left hopen _
    _ = pulls.length := countP_add_countP_not _ _

/-! ## Labels -/

/-- The labels of the issues that are not pull requests, as often as they occur. -/
def labelNames (issues : List Issue) : List String :=
  (issues.filter fun i => !i.isPullRequest).flatMap fun i => i.labels.map Label.name

/-- Every name with the number of its occurrences, the more frequent first and then by name. -/
structure Ranks (names : List String) (ranking : List (String × Nat)) : Prop where
  counted : ∀ name n, (name, n) ∈ ranking ↔ n = names.count name ∧ 0 < n
  ranked : ranking.Pairwise (Outranks Prod.snd Prod.fst)

theorem Ranks.nodup {ranking : List (String × Nat)} (h : Ranks names ranking) :
    ranking.Nodup := by
  apply h.ranked.imp
  rintro a b hab rfl
  exact hab.asymm hab

/-- Names have one ranking, whatever their order. -/
theorem Ranks.unique {ranking ranking' : List (String × Nat)} (h : Ranks names ranking)
    (h' : Ranks names' ranking') (hnames : names.Perm names') : ranking = ranking' := by
  have hperm : ranking.Perm ranking' := by
    rw [List.perm_ext_iff_of_nodup h.nodup h'.nodup]
    rintro ⟨name, n⟩
    rw [h.counted, h'.counted, hnames.count_eq]
  exact hperm.eq_of_pairwise (fun _ _ _ _ hab hba => absurd hba hab.asymm) h.ranked h'.ranked

/-- Sorting counts ranks them, in whatever order they come. -/
theorem ranks_mergeSort {counts : List (String × Nat)} (hcounts : counts.Perm (tally names)) :
    Ranks names (counts.mergeSort labelPrecedes) where
  counted name n := by rw [List.mem_mergeSort, hcounts.mem_iff, mem_tally]
  ranked := pairwise_outranks ((hcounts.map Prod.fst).nodup_iff.mpr (nodup_tally names))

theorem labels_eq (now : Timestamp) (limit : Span) (issues : List Issue)
    (pulls : List PullRequest) :
    (Metrics.of now limit (track issues) pulls).labels = commonLabels (labelNames issues) := by
  rw [Metrics.of, track, List.flatMap_map]
  rfl

/-! ## Stale issues -/

/-- The date since which an issue is stale or not. -/
def Tracked.last? (t : Tracked) : Option Timestamp :=
  t.changed <|> t.created

theorem isStale_iff : t.isStale now limit = true ↔
    t.issue.isOpen = true ∧ ∃ last, t.last? = some last ∧ limit.lt (now.since last) = true := by
  rw [Tracked.isStale, Bool.and_eq_true, Option.any_eq_true]
  rfl

theorem written_of_last? {last : Timestamp} (ht : t ∈ track issues) (hlast : t.last? = some last) :
    last.Written := by
  obtain ⟨i, -, rfl⟩ := List.mem_map.mp ht
  have hread : ∀ {value : Option String}, (readOptionalDate "issues" value).1 = some last →
      last.Written := by
    intro value h
    obtain ⟨text, htext⟩ := ofText_of_readOptionalDate h
    exact Timestamp.ofText_written htext
  rw [Tracked.last?, Option.orElse_eq_orElse, Option.orElse_eq_or, Option.or_eq_some_iff] at hlast
  rcases hlast with hchanged | ⟨-, hcreated⟩
  · exact hread hchanged
  · exact hread hcreated

/-- A later present or a shorter limit makes no fewer issues stale, as long as it makes no written
date fall short. -/
theorem staleIssues_mono
    (hexceeds : ∀ last : Timestamp, last.Written → limit.lt (now.since last) = true →
      limit'.lt (later.since last) = true) :
    (Metrics.of now limit (track issues) pulls).staleIssues ≤
      (Metrics.of later limit' (track issues) pulls).staleIssues := by
  apply List.countP_mono_left
  intro t ht hstale
  obtain ⟨hopen, last, hlast, hlong⟩ := isStale_iff.mp hstale
  exact isStale_iff.mpr ⟨hopen, last, hlast, hexceeds last (written_of_last? ht hlast) hlong⟩

/-! ## The analysis -/

theorem analyze?_eq (hlimit : Span.ofDays? settings.staleDays = some limit) :
    analyze? settings now issues pulls =
      some (assess (.of (.of now limit (track issues) pulls))
        ((track issues).flatMap Tracked.warnings)) := by
  rw [analyze?, hlimit]
  rfl

/-- The numbers of a tracker fit together and with what they count. -/
structure Metrics.Counts (m : Metrics) (issues : List Issue) (pulls : List PullRequest) : Prop where
  openOrClosed : m.openIssues + m.closedIssues = issues.countP fun i => !i.isPullRequest
  stale : m.staleIssues ≤ m.openIssues
  mergedOrOpen : m.mergedPulls + m.openPulls ≤ m.totalPulls
  total : m.totalPulls = pulls.length
  labels : ∃ ranking, Ranks (labelNames issues) ranking ∧ m.labels = ranking.take 10
  labelCount : m.labels.length = min 10 (labelNames issues).toFinset.card
  /-- However the counts of the labels are listed, sorting them gives these labels. -/
  anyListing : ∀ counts : List (String × Nat), counts.Perm (tally (labelNames issues)) →
    (counts.mergeSort labelPrecedes).take topLabels = m.labels

theorem counts_of (now : Timestamp) (limit : Span) (issues : List Issue)
    (pulls : List PullRequest) :
    (Metrics.of now limit (track issues) pulls).Counts issues pulls := by
  have hranks := ranks_mergeSort (List.Perm.refl (tally (labelNames issues)))
  constructor
  case openOrClosed => exact openIssues_add_closedIssues now limit issues pulls
  case stale => exact staleIssues_le_openIssues now limit (track issues) pulls
  case mergedOrOpen => exact mergedPulls_add_openPulls_le now limit (track issues) pulls
  case total => rfl
  case labels => exact ⟨_, hranks, labels_eq now limit issues pulls⟩
  case labelCount =>
    rw [labels_eq, commonLabels, List.length_take, List.length_mergeSort, length_tally]
    rfl
  case anyListing =>
    intro counts hcounts
    rw [labels_eq, commonLabels, (ranks_mergeSort hcounts).unique hranks (.refl _)]

/-- With days that are a span, the metrics count what they say they count.  The labels are the same
for the issues in any order.  No more issues are stale when more days are allowed, and no fewer as
time goes on, unless it leaves a leap second that ends a day. -/
theorem analyze?_metrics_count (hdays : settings.staleDays.natAbs ≤ Span.maxDays) (now : Timestamp)
    (issues : List Issue) (pulls : List PullRequest) :
    ∃ a, analyze? settings now issues pulls = some a ∧ a.report.metrics.Counts issues pulls ∧
      (∀ issues', issues.Perm issues' →
        ∃ a', analyze? settings now issues' pulls = some a' ∧
          a'.report.metrics.labels = a.report.metrics.labels) ∧
      (∀ settings' : IssueSettings, settings.staleDays ≤ settings'.staleDays →
        settings'.staleDays.natAbs ≤ Span.maxDays →
        ∃ a', analyze? settings' now issues pulls = some a' ∧
          a'.report.metrics.staleIssues ≤ a.report.metrics.staleIssues) ∧
      ∀ later : Timestamp, now.nanos < 2 * Timestamp.second → later.nanos < 2 * Timestamp.second →
        later.lt now = false → ¬ now.Falters later →
        ∃ a', analyze? settings later issues pulls = some a' ∧
          a.report.metrics.staleIssues ≤ a'.report.metrics.staleIssues := by
  obtain ⟨limit, hlimit⟩ := Option.isSome_iff_exists.mp (Span.ofDays?_isSome_iff.mpr hdays)
  refine ⟨_, analyze?_eq hlimit, counts_of now limit issues pulls, ?_, ?_, ?_⟩
  · intro issues' hperm
    have hnames : (labelNames issues').Perm (labelNames issues) :=
      ((hperm.filter _).flatMap_right _).symm
    refine ⟨_, analyze?_eq hlimit, ?_⟩
    change (Metrics.of now limit (track issues') pulls).labels =
      (Metrics.of now limit (track issues) pulls).labels
    rw [labels_eq, labels_eq, commonLabels, commonLabels, tally_of_perm hnames]
  · intro settings' hle hdays'
    obtain ⟨limit', hlimit'⟩ := Option.isSome_iff_exists.mp (Span.ofDays?_isSome_iff.mpr hdays')
    exact ⟨_, analyze?_eq hlimit', staleIssues_mono fun last _ =>
      Timestamp.exceeds_of_le hlimit hlimit' hle⟩
  · intro later hnow hlater hle hclear
    exact ⟨_, analyze?_eq hlimit, staleIssues_mono fun last hlast =>
      Timestamp.exceeds_of_later hlimit hnow hlater hlast hle hclear⟩

/-- Last updated on a third of October, ninety days before the new year. -/
def octoberIssue : Issue :=
  { state := "open", updatedAt := some "2016-10-03T00:00:00Z", labels := [⟨false, "bug"⟩] }

/-- Half a second into the leap second that ended 2016. -/
def leapSecond : Timestamp := ⟨1483228799, 1500000000⟩

def newYear : Timestamp := ⟨1483228800, 0⟩

theorem octoberIssue_stale :
    ∃ a, analyze? {} leapSecond [octoberIssue] [] = some a ∧ a.report.metrics.staleIssues = 1 :=
  ⟨_, rfl, rfl⟩

theorem octoberIssue_fresh :
    ∃ a, analyze? {} newYear [octoberIssue] [] = some a ∧ a.report.metrics.staleIssues = 0 :=
  ⟨_, rfl, rfl⟩

/-- Stale in the leap second, the issue is stale a second into the new year. -/
theorem octoberIssue_stays_stale :
    ∃ a, analyze? {} ⟨1483228801, 0⟩ [octoberIssue] [] = some a ∧
      1 ≤ a.report.metrics.staleIssues := by
  obtain ⟨a, ha, -, -, -, hlater⟩ :=
    @analyze?_metrics_count {} (by decide) leapSecond [octoberIssue] []
  obtain ⟨b, hb, hstale⟩ := octoberIssue_stale
  obtain rfl := Option.some.inj (ha.symm.trans hb)
  obtain ⟨a', ha', hle⟩ := hlater ⟨1483228801, 0⟩ (by decide) (by decide) (by decide) (by decide)
  exact ⟨a', ha', hstale ▸ hle⟩

/-- Stale in the leap second, the issue is not stale when the new year begins. -/
theorem octoberIssue_not_stale_at_newYear :
    ¬ ∀ (issues : List Issue) (pulls : List PullRequest) (now later : Timestamp),
      now.InRange → now.Written → later.InRange → later.Written → now.lt later = true →
      ∀ a a', analyze? {} now issues pulls = some a → analyze? {} later issues pulls = some a' →
        a.report.metrics.staleIssues ≤ a'.report.metrics.staleIssues := by
  intro hgrows
  obtain ⟨a, ha, hstale⟩ := octoberIssue_stale
  obtain ⟨a', ha', hfresh⟩ := octoberIssue_fresh
  have hle := hgrows [octoberIssue] [] leapSecond newYear ⟨by decide, by decide, by decide⟩
    ⟨by decide, by decide⟩ ⟨by decide, by decide, by decide⟩ ⟨by decide, by decide⟩ (by decide)
    a a' ha ha'
  rw [hstale, hfresh] at hle
  exact absurd hle (by decide)

end RepoAudit.IssueTracker
