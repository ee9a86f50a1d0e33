import RepoAudit.Proofs.Licenses.Unrecognized
import RepoAudit.Proofs.Tally
import Mathlib

/-!
# Compliance when dependencies change

What is found out about the dependencies of a project is read off numbers of them, so their order
does not matter.  None of these numbers falls when a dependency is added, and the status and the
risk only get worse with them, though each tests its conditions in an order of its own.
-/

namespace RepoAudit.Licenses

variable {project : LicenseTerms} {deps more : List DependencyLicense}
  {found found' : List Conflict}

/-- The worst status has the highest rank. -/
def Status.rank : Status → Nat
  | .compliant => 0
  | .needsReview => 1
  | .nonCompliant => 2

theorem Status.rank_injective {a b : Status} (h : a.rank = b.rank) : a = b := by
  cases a <;> cases b <;> simp_all [rank]

/-- The compliance of a project whose conflicts are those with its own license. -/
def checked (project : LicenseTerms) (deps : List DependencyLicense) : Compliance :=
  complianceOf project deps (conflicts project deps)

/-- The number of dependencies with a license of this title. -/
def Compliance.countOf (c : Compliance) (title : String) : Nat :=
  (c.histogram.lookup title).getD 0

/-- Nothing but names tells the two apart. -/
structure Compliance.Agree (a b : Compliance) : Prop where
  status : a.status = b.status
  risk : a.risk = b.risk
  copyleft : a.copyleft = b.copyleft
  unknown : a.unknown = b.unknown
  histogram : a.histogram = b.histogram

/-- Neither status nor risk is better afterwards, and no count is lower. -/
structure Compliance.Worsens (before after : Compliance) : Prop where
  status : before.status.rank ≤ after.status.rank
  risk : before.risk.rank ≤ after.risk.rank
  copyleft : before.copyleft ≤ after.copyleft
  unknown : before.unknown ≤ after.unknown
  histogram : ∀ title, before.countOf title ≤ after.countOf title

/-! ## Numbers of dependencies -/

theorem not_isEmpty_iff {α : Type} {l : List α} : (!l.isEmpty) = true ↔ 0 < l.length := by
  cases l <;> simp

theorem length_conflicts (project : LicenseTerms) (deps : List DependencyLicense) :
    (conflicts project deps).length = if project.isPermissive then copyleftCount deps else 0 := by
  unfold conflicts copyleftCount
  split
  · rw [List.length_map, List.countP_eq_length_filter]
  · rfl

theorem countOf_checked (project : LicenseTerms) (deps : List DependencyLicense) (title : String) :
    (checked project deps).countOf title = deps.countP fun d => d.terms.title == title := by
  change ((tally (deps.map fun d => d.terms.title)).lookup title).getD 0 = _
  rw [getD_lookup_tally, List.count, List.countP_map]
  rfl

/-! ## The two cascades -/

theorem statusOf_eq_nonCompliant_iff :
    statusOf project found = .nonCompliant ↔ 0 < found.length := by
  rw [← not_isEmpty_iff, statusOf]
  split_ifs <;> simp_all

theorem rank_statusOf_mono (hfound : found.length ≤ found'.length) :
    (statusOf project found).rank ≤ (statusOf project found').rank := by
  simp only [statusOf, not_isEmpty_iff]
  split_ifs <;> simp only [Status.rank] <;> omega

theorem rank_riskOf_mono (hfound : found.length ≤ found'.length)
    (hcopyleft : copyleftCount deps ≤ copyleftCount more)
    (hunknown : (unknownNames deps).length ≤ (unknownNames more).length) :
    (riskOf project deps found).rank ≤ (riskOf project more found').rank := by
  simp only [riskOf, Bool.or_eq_true, not_isEmpty_iff, decide_eq_true_eq]
  cases project.isNone with
  | true => simp
  | false =>
      cases project.isUnknown <;>
        simp only [Bool.false_eq_true, or_false, or_true, if_true] <;>
        split_ifs <;> simp only [Risk.rank] <;> omega

/-! ## More dependencies -/

theorem checked_of_subperm (h : deps.Subperm more) :
    (checked project deps).Worsens (checked project more) := by
  have hcopyleft : copyleftCount deps ≤ copyleftCount more := h.countP_le _
  have hunknown : (unknownNames deps).length ≤ (unknownNames more).length := by
    rw [length_unknownNames, length_unknownNames]
    exact h.countP_le _
  have hfound : (conflicts project deps).length ≤ (conflicts project more).length := by
    rw [length_conflicts, length_conflicts]
    split
    · exact hcopyleft
    · exact le_rfl
  constructor
  case status => exact rank_statusOf_mono hfound
  case risk => exact rank_riskOf_mono hfound hcopyleft hunknown
  case copyleft => exact hcopyleft
  case unknown => exact hunknown
  case histogram =>
    intro title
    rw [countOf_checked, countOf_checked]
    exact h.countP_le _

theorem checked_of_perm (h : deps.Perm more) :
    (checked project deps).Agree (checked project more) := by
  have hforward : (checked project deps).Worsens (checked project more) :=
    checked_of_subperm h.subperm
  have hbackward : (checked project more).Worsens (checked project deps) :=
    checked_of_subperm h.symm.subperm
  constructor
  case status => exact Status.rank_injective (le_antisymm hforward.status hbackward.status)
  case risk => exact Risk.rank_injective (le_antisymm hforward.risk hbackward.risk)
  case copyleft => exact le_antisymm hforward.copyleft hbackward.copyleft
  case unknown => exact le_antisymm hforward.unknown hbackward.unknown
  case histogram => exact tally_of_perm (h.map _)

/-- A project does not comply exactly when it is permissive with a copyleft dependency.  Status,
risk and counts do not depend on the order of the dependencies, and get no better with another one.
Each dependency has its place in the histogram, and each copyleft one conflicts with a permissive
project. -/
theorem compliance_of_changed_dependencies (project : LicenseTerms)
    (deps : List DependencyLicense) :
    let compliance := checked project deps
    (compliance.status = .nonCompliant ↔
        project.isPermissive = true ∧ ∃ d ∈ deps, d.terms.copyleft = true) ∧
      (∀ other, deps.Perm other → compliance.Agree (checked project other)) ∧
      (∀ d more, more.Perm (d :: deps) → compliance.Worsens (checked project more)) ∧
      (compliance.histogram.map Prod.snd).sum = deps.length ∧
      (project.isPermissive = true →
        compliance.copyleft = (conflicts project deps).length) := by
  intro compliance
  refine ⟨?_, fun other => checked_of_perm, ?_, ?_, ?_⟩
  · change statusOf project (conflicts project deps) = .nonCompliant ↔ _
    rw [statusOf_eq_nonCompliant_iff, length_conflicts]
    cases project.isPermissive with
    | false => simp
    | true => simp [copyleftCount, List.countP_pos_iff]
  · intro d more hmore
    exact checked_of_subperm ((List.sublist_cons_self d deps).subperm.trans hmore.symm.subperm)
  · change ((tally (deps.map (·.terms.title))).map Prod.snd).sum = deps.length
    rw [sum_tally, List.length_map]
  · intro hpermissive
    rw [length_conflicts, if_pos hpermissive]
    rfl

def mitPackage : DependencyLicense :=
  { name := "a", version := none, terms := LicenseTable.builtIn.terms "MIT".toList }

def gplPackage : DependencyLicense :=
  { name := "b", version := none, terms := LicenseTable.builtIn.terms "GPL-3.0".toList }

theorem gplPackage_added :
    mitPackage.terms.isPermissive = true ∧
      (checked mitPackage.terms [mitPackage, gplPackage]).status = .nonCompliant ∧
      (checked mitPackage.terms [mitPackage, gplPackage]).Agree
        (checked mitPackage.terms [gplPackage, mitPackage]) ∧
      (checked mitPackage.terms [mitPackage]).Worsens
        (checked mitPackage.terms [mitPackage, gplPackage]) ∧
      (checked mitPackage.terms [mitPackage, gplPackage]).copyleft = 1 := by
  obtain ⟨hstatus, hagree, -, -, hcopyleft⟩ :=
    compliance_of_changed_dependencies mitPackage.terms [mitPackage, gplPackage]
  obtain ⟨-, -, hworsens, -⟩ := compliance_of_changed_dependencies mitPackage.terms [mitPackage]
  have hpermissive : mitPackage.terms.isPermissive = true := by decide
  refine ⟨hpermissive, hstatus.mpr ⟨hpermissive, gplPackage, by simp, by decide⟩,
    hagree _ (List.Perm.swap _ _ _), hworsens gplPackage _ (List.Perm.swap _ _ _), ?_⟩
  rw [hcopyleft hpermissive]
  decide

end RepoAudit.Licenses
