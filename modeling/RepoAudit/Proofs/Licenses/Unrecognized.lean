import RepoAudit.Licenses.Compliance
import RepoAudit.Proofs.Licenses.Combination
import RepoAudit.Proofs.Text.Words

/-!
# Dependencies without a recognized license

A license that is not recognized keeps the text that was declared as its title, and the title
`None` stands for a missing license.  So a dependency that declares nothing but this word is not
unknown: it is neither counted nor does it raise the risk, though all others without a recognized
license do both.
-/

namespace RepoAudit.Licenses

/-- The word that stands for a missing license. -/
def noneWord : Text := ['N', 'o', 'n', 'e']

/-- What is stated about the license of a dependency. -/
inductive LicenseStatement where
  | declared (raws : List Text)
  | unknown (raw : Text)

namespace LicenseStatement

def terms (table : LicenseTable) : LicenseStatement → LicenseTerms
  | declared raws => table.termsOfAll raws
  | unknown raw => .unknown raw

/-- Nothing is stated but the word for a missing license. -/
def saysNone : LicenseStatement → Bool
  | declared raws => raws.flatMap splitExpression == [noneWord]
  | unknown raw => raw.trim == noneWord

end LicenseStatement

structure StatedDependency where
  name : String
  version : Option String
  statement : LicenseStatement

namespace StatedDependency

def license (table : LicenseTable) (d : StatedDependency) : DependencyLicense :=
  { name := d.name, version := d.version, terms := d.statement.terms table }

def isUnrecognized (table : LicenseTable) (d : StatedDependency) : Bool :=
  !(d.statement.terms table).recognized

end StatedDependency

/-! ## The title of a missing license -/

theorem isNone_unknown (raw : Text) :
    (LicenseTerms.unknown raw).isNone = (raw.trim == noneWord) := by
  have htitle : (LicenseTerms.unknown raw).title = "None" ↔ raw.trim = noneWord := by
    simp only [LicenseTerms.unknown]
    split
    · rename_i hempty
      rw [List.isEmpty_iff.mp hempty]
      decide
    · rw [show "None" = String.ofList noneWord from rfl, String.ofList_inj]
  rw [Bool.eq_iff_iff, beq_iff_eq, ← htitle]
  simp [LicenseTerms.isNone, LicenseTerms.unknown]

theorem trim_of_mem_splitExpression {raw part : Text} (h : part ∈ splitExpression raw) :
    part.trim = part := by
  obtain ⟨hpart, -⟩ := List.mem_filter.mp h
  obtain ⟨piece, -, rfl⟩ := List.mem_map.mp hpart
  exact Text.trim_trim piece

theorem isNone_terms (table : LicenseTable) {part : Text} (htrim : part.trim = part) :
    (table.terms part).isNone = (part == noneWord) := by
  unfold LicenseTable.terms
  split
  · rename_i entry hentry
    -- No license is spelled like the word for a missing one.
    have hspelling : part ≠ noneWord := by
      rintro rfl
      have hnone : LicenseId.ofSpelling? noneWord = none := by decide
      rw [hnone] at hentry
      exact absurd hentry (by simp)
    rw [beq_eq_false_iff_ne.mpr hspelling]
    simp [LicenseTerms.isNone, LicenseEntry.terms]
  · rw [isNone_unknown, htrim]

theorem isNone_combine (first second : LicenseTerms) (rest : List LicenseTerms) :
    (LicenseTerms.combine (first :: second :: rest)).isNone = false := by
  have htitle : (LicenseTerms.combine (first :: second :: rest)).title ≠ "None" := by
    intro h
    have hspace : ' ' ∈ (LicenseTerms.combine (first :: second :: rest)).title.toList := by
      simp [LicenseTerms.combine, String.intercalate_cons_cons]
    rw [h] at hspace
    exact absurd hspace (by decide)
  simp [LicenseTerms.isNone, htitle]

theorem LicenseStatement.isNone_terms (table : LicenseTable) (s : LicenseStatement) :
    (s.terms table).isNone = s.saysNone := by
  cases s with
  | unknown raw => exact isNone_unknown raw
  | declared raws =>
      have htrim : ∀ part ∈ raws.flatMap splitExpression, part.trim = part := by
        intro part hpart
        obtain ⟨raw, -, hpart⟩ := List.mem_flatMap.mp hpart
        exact trim_of_mem_splitExpression hpart
      rw [terms, LicenseTable.termsOfAll, saysNone]
      generalize raws.flatMap splitExpression = parts at htrim ⊢
      match parts with
      | [] =>
          rw [List.map_nil]
          decide
      | [part] =>
          have hpart : (table.terms part).isNone = (part == noneWord) :=
            Licenses.isNone_terms table (htrim part List.mem_cons_self)
          rw [List.map_singleton, LicenseTerms.combine, hpart]
          simp
      | first :: second :: rest =>
          rw [List.map_cons, List.map_cons, isNone_combine]
          simp

theorem StatedDependency.isUnknown_license (table : LicenseTable) (d : StatedDependency) :
    (d.license table).terms.isUnknown = (d.isUnrecognized table && !d.statement.saysNone) := by
  rw [LicenseTerms.isUnknown, license, LicenseStatement.isNone_terms]
  rfl

/-! ## Counts and risk -/

theorem length_unknownNames (deps : List DependencyLicense) :
    (unknownNames deps).length = deps.countP (·.terms.isUnknown) := by
  rw [unknownNames, List.length_map, List.countP_eq_length_filter]

theorem unknown_complianceOf (table : LicenseTable) (project : LicenseTerms)
    (deps : List StatedDependency) (found : List Conflict) :
    (complianceOf project (deps.map (·.license table)) found).unknown =
      deps.countP fun d => d.isUnrecognized table && !d.statement.saysNone := by
  rw [complianceOf, length_unknownNames, List.countP_map]
  simp only [Function.comp_def, StatedDependency.isUnknown_license]

theorem medium_le_riskOf {project : LicenseTerms} {deps : List DependencyLicense}
    {found : List Conflict} {d : DependencyLicense} (hd : d ∈ deps)
    (hunknown : d.terms.isUnknown = true) :
    Risk.medium.rank ≤ (riskOf project deps found).rank := by
  have hnames : (unknownNames deps).isEmpty = false := by
    rw [List.isEmpty_eq_false_iff]
    exact List.ne_nil_of_mem (List.mem_map_of_mem (List.mem_filter.mpr ⟨hd, hunknown⟩))
  rw [riskOf]
  split
  · decide
  · rw [if_pos (by simp [hnames])]

theorem countP_and_eq_iff {p q : α → Bool} {l : List α} :
    (l.countP fun x => p x && q x) = l.countP p ↔ ∀ x ∈ l, p x = true → q x = true := by
  induction l with
  | nil => simp
  | cons x l ih =>
      have hle : (l.countP fun x => p x && q x) ≤ l.countP p :=
        List.countP_mono_left fun x _ h => (Bool.and_eq_true_iff.mp h).1
      rw [List.countP_cons, List.countP_cons, List.forall_mem_cons, ← ih]
      cases hp : p x with
      | false => simp
      | true =>
          cases hq : q x with
          | false =>
              simp only [Bool.and_false, Bool.false_eq_true, if_true, if_false, Nat.add_zero,
                imp_false, not_true_eq_false, false_and, iff_false]
              omega
          | true => simp

theorem isUnrecognized_of_saysNone {table : LicenseTable} {d : StatedDependency}
    (h : d.statement.saysNone = true) : d.isUnrecognized table = true := by
  rw [← LicenseStatement.isNone_terms table, LicenseTerms.isNone, Bool.and_eq_true] at h
  exact h.2

/-- The dependencies without a recognized license are counted as unknown except for those that say
`None`, so all of them are exactly when no dependency says so.  Each one counted raises the risk. -/
theorem unknown_counts_unrecognized_unless_none (table : LicenseTable) (project : LicenseTerms)
    (deps : List StatedDependency) (found : List Conflict) :
    let compliance := complianceOf project (deps.map (·.license table)) found
    compliance.unknown =
        (deps.countP fun d => d.isUnrecognized table && !d.statement.saysNone) ∧
      (compliance.unknown = deps.countP (·.isUnrecognized table) ↔
        ∀ d ∈ deps, d.statement.saysNone = false) ∧
      ((∃ d ∈ deps, d.isUnrecognized table = true ∧ d.statement.saysNone = false) →
        Risk.medium.rank ≤ compliance.risk.rank) := by
  intro compliance
  have hcount := unknown_complianceOf table project deps found
  refine ⟨hcount, ?_, ?_⟩
  · rw [hcount, countP_and_eq_iff]
    constructor
    · intro hall d hd
      by_contra hnone
      rw [Bool.not_eq_false] at hnone
      have hother := hall d hd (isUnrecognized_of_saysNone hnone)
      rw [hnone] at hother
      exact absurd hother (by decide)
    · intro hall d hd _
      rw [hall d hd]
      rfl
  · rintro ⟨d, hd, hunrecognized, hnone⟩
    apply medium_le_riskOf (List.mem_map_of_mem hd)
    rw [StatedDependency.isUnknown_license, hunrecognized, hnone]
    rfl

/-- A dependency whose manifest declares the license `None`. -/
def noneDependency : StatedDependency :=
  { name := "a", version := none, statement := .declared [noneWord] }

def mitTerms : LicenseTerms :=
  LicenseTable.builtIn.terms "MIT".toList

/-- Such a dependency of a project under MIT is not recognized, and yet it is not counted. -/
theorem noneDependency_not_counted :
    ¬ ∀ (table : LicenseTable) (project : LicenseTerms) (deps : List StatedDependency)
        (found : List Conflict),
      let compliance := complianceOf project (deps.map (·.license table)) found
      compliance.unknown = deps.countP (·.isUnrecognized table) ∧
        ((∃ d ∈ deps, d.isUnrecognized table = true) →
          Risk.medium.rank ≤ compliance.risk.rank) := by
  intro h
  obtain ⟨hcount, -⟩ := h LicenseTable.builtIn mitTerms [noneDependency] []
  exact absurd hcount (by decide)

end RepoAudit.Licenses
