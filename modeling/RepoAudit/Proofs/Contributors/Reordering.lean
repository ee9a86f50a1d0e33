import RepoAudit.Contributors.Analysis
import RepoAudit.Proofs.Contributors.Records
import RepoAudit.Proofs.Ranking

/-!
# Contributor analysis does not depend on the order of its input

Records in another order make the same contributors, and contributors with different logins have
only one ranking by score and login.  All of the report, the summary and the advice is read off
this ranking, so nothing but the order of the warnings can change.
-/

namespace RepoAudit

/-- Two assessments say the same, with the warnings in any order. -/
structure Assessment.Agree (x y : Assessment ρ) : Prop where
  report : x.report = y.report
  summary : x.summary = y.summary
  insights : x.insights = y.insights
  recommendations : x.recommendations = y.recommendations
  warnings : x.warnings.Perm y.warnings

namespace Contributors
namespace Member

theorem outranks_eq : outranks = ranksBefore score login := by
  rfl

theorem outranks_trans (a b c : Member) (hab : a.outranks b = true) (hbc : b.outranks c = true) :
    a.outranks c = true := by
  rw [outranks_eq] at *
  exact ranksBefore_trans a b c hab hbc

theorem outranks_total (a b : Member) : (a.outranks b || b.outranks a) = true := by
  rw [outranks_eq]
  exact ranksBefore_total a b

theorem login_eq_of_outranks {a b : Member} (hab : a.outranks b = true)
    (hba : b.outranks a = true) : a.login = b.login := by
  rw [outranks_eq] at hab hba
  exact name_eq_of_ranksBefore hab hba

end Member

theorem Report.of_perm (now : Timestamp) (size : Nat) {cs cs' : List Contributor}
    (hlogins : (cs.map Contributor.login).Nodup) (hperm : cs.Perm cs') :
    Report.of now size cs = Report.of now size cs' := by
  have hmembers : (cs.map (Member.of now)).mergeSort Member.outranks =
      (cs'.map (Member.of now)).mergeSort Member.outranks := by
    apply mergeSort_eq_of_perm Member.outranks_trans Member.outranks_total _ (hperm.map _)
    intro a ha b hb hab hba
    obtain ⟨c, hc, rfl⟩ := List.mem_map.mp ha
    obtain ⟨d, hd, rfl⟩ := List.mem_map.mp hb
    have hlogin : c.login = d.login := Member.login_eq_of_outranks hab hba
    rw [List.inj_on_of_nodup_map hlogins hc hd hlogin]
  simp only [Report.of, hmembers]

theorem contributions_perm {a b : Activity} (hcommits : a.commits.Perm b.commits)
    (hpulls : a.pulls.Perm b.pulls) (hreviews : a.reviews.Perm b.reviews)
    (hissues : a.issues.Perm b.issues) :
    (Contribution.ofActivity a).Perm (Contribution.ofActivity b) := by
  unfold Contribution.ofActivity
  apply List.Perm.append
  · apply List.Perm.append
    · exact (hcommits.filterMap _).append (hpulls.filterMap _)
    · exact hreviews.filterMap _
  · exact hissues.filterMap _

/-- The records of each stream may come in any order, and the contributors collected from them too:
the analysis says the same, and warns of the same dates. -/
theorem analyze_of_reordered (settings : ContributorSettings) (now : Timestamp) {a b : Activity}
    (hcommits : a.commits.Perm b.commits) (hpulls : a.pulls.Perm b.pulls)
    (hreviews : a.reviews.Perm b.reviews) (hissues : a.issues.Perm b.issues)
    {contributors : List Contributor}
    (hcontributors : contributors.Perm (Contributor.ofActivity b).1) :
    (analyze settings now a).Agree
      (assess settings now contributors (Contributor.ofActivity b).2) := by
  have hfound := contributions_perm hcommits hpulls hreviews hissues
  have htotals : Contributor.Totals (Contributor.ofActivity a).1
      ((Contribution.ofActivity a).map Prod.fst) := Contributor.Totals.fold _
  have hperm : (Contributor.ofActivity a).1.Perm contributors := by
    have hfold : (Contributor.ofActivity a).1.Perm (Contributor.ofActivity b).1 :=
      htotals.perm (Contributor.Totals.fold _) (hfound.map Prod.fst)
    exact hfold.trans hcontributors.symm
  have hreport := Report.of_perm now settings.leaderboardSize htotals.nodup hperm
  have hwarnings : (Contributor.ofActivity a).2.Perm (Contributor.ofActivity b).2 :=
    hfound.flatMap_right Prod.snd
  constructor
  case warnings => exact hwarnings
  all_goals simp only [analyze, assess, Assessment.sorted, hreport]

def annCommit : Commit :=
  { author := some ⟨"ann"⟩, detail := { author := some { date := some "2024-05-01T00:00:00Z" } } }

def bobCommit : Commit :=
  { author := some ⟨"bob"⟩, detail := { author := some { date := some "yesterday" } } }

def annThenBob : Activity :=
  { commits := [annCommit, bobCommit] }

def bobThenAnn : Activity :=
  { commits := [bobCommit, annCommit] }

theorem analyze_of_swapped_commits :
    annThenBob.commits.Perm bobThenAnn.commits ∧
      (Contributor.ofActivity bobThenAnn).1.reverse.Perm (Contributor.ofActivity bobThenAnn).1 ∧
      (analyze {} ⟨1717200000, 0⟩ annThenBob).Agree
        (assess {} ⟨1717200000, 0⟩ (Contributor.ofActivity bobThenAnn).1.reverse
          (Contributor.ofActivity bobThenAnn).2) := by
  have hcommits : annThenBob.commits.Perm bobThenAnn.commits := List.Perm.swap _ _ _
  have hcontributors := List.reverse_perm (Contributor.ofActivity bobThenAnn).1
  refine ⟨hcommits, hcontributors, ?_⟩
  exact analyze_of_reordered {} ⟨1717200000, 0⟩ hcommits List.Perm.rfl List.Perm.rfl List.Perm.rfl
    hcontributors

end Contributors
end RepoAudit
