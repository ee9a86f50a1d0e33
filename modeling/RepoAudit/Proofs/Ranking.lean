import RepoAudit.Finding
import RepoAudit.Proofs.Text.ByteOrder
import Mathlib

/-!
# Rankings

A ranking puts higher numbers first and goes by name among equals.  Sorting forgets the order of the
input where no two elements are tied, and keeps it where all are.
-/

namespace RepoAudit

variable {α : Type}

/-! ## Sorting -/

section Sorting

variable {le : α → α → Bool} {l l' : List α}

/-- Sorting forgets the order of a list in which no two elements are tied. -/
theorem mergeSort_eq_of_perm (htrans : ∀ a b c, le a b = true → le b c = true → le a c = true)
    (htotal : ∀ a b, (le a b || le b a) = true)
    (htied : ∀ a ∈ l, ∀ b ∈ l, le a b = true → le b a = true → a = b) (hperm : l.Perm l') :
    l.mergeSort le = l'.mergeSort le := by
  have hsorted : (l.mergeSort le).Perm (l'.mergeSort le) := by
    calc
      (l.mergeSort le).Perm l := List.mergeSort_perm l le
      List.Perm l l' := hperm
      List.Perm l' (l'.mergeSort le) := (List.mergeSort_perm l' le).symm
  apply hsorted.eq_of_pairwise _ (List.pairwise_mergeSort htrans htotal l)
    (List.pairwise_mergeSort htrans htotal l')
  intro a b ha hb
  apply htied
  · exact List.mem_mergeSort.mp ha
  · exact hperm.mem_iff.mpr (List.mem_mergeSort.mp hb)

/-- Sorting keeps the order of elements that are all tied. -/
theorem filter_mergeSort (htrans : ∀ a b c, le a b = true → le b c = true → le a c = true)
    (htotal : ∀ a b, (le a b || le b a) = true) {p : α → Bool}
    (htied : ∀ a b, p a = true → p b = true → le a b = true) :
    (l.mergeSort le).filter p = l.filter p := by
  have hsorted : (l.filter p).Pairwise fun a b => le a b = true :=
    List.pairwise_of_forall_mem_list fun a ha b hb =>
      htied a b (List.mem_filter.mp ha).2 (List.mem_filter.mp hb).2
  -- Sorted already, the tied elements stay a sublist, and none but them can be added to it.
  have hsublist : ((l.filter p).filter p).Sublist ((l.mergeSort le).filter p) :=
    (List.sublist_mergeSort htrans htotal hsorted List.filter_sublist).filter p
  have hlength : ((l.mergeSort le).filter p).length = (l.filter p).length :=
    ((List.mergeSort_perm l le).filter p).length_eq
  simp only [List.filter_filter, Bool.and_self] at hsublist
  exact (hsublist.eq_of_length hlength.symm).symm

end Sorting

/-! ## Numbers before names -/

section Ranks

variable {key : α → Nat} {name : α → String} {a b c : α}

/-- Higher numbers first, then by name. -/
def ranksBefore (key : α → Nat) (name : α → String) (a b : α) : Bool :=
  if key a = key b then nameLe (name a) (name b) else key b < key a

theorem ranksBefore_iff :
    ranksBefore key name a b = true ↔ key b < key a ∨ key a = key b ∧ name a ≤ name b := by
  unfold ranksBefore
  split
  next hkey =>
    rw [nameLe_iff_le]
    constructor
    · intro hname
      exact Or.inr ⟨hkey, hname⟩
    · rintro (hlt | ⟨-, hname⟩)
      · omega
      · exact hname
  next hkey =>
    rw [decide_eq_true_iff]
    constructor
    · exact Or.inl
    · rintro (hlt | ⟨heq, -⟩)
      · exact hlt
      · exact absurd heq hkey

theorem ranksBefore_trans (a b c : α) (hab : ranksBefore key name a b = true)
    (hbc : ranksBefore key name b c = true) : ranksBefore key name a c = true := by
  rw [ranksBefore_iff] at *
  rcases hab with hab | ⟨hab, hname⟩
  · rcases hbc with hbc | ⟨hbc, -⟩
    · exact Or.inl (by omega)
    · exact Or.inl (by omega)
  · rcases hbc with hbc | ⟨hbc, hname'⟩
    · exact Or.inl (by omega)
    · exact Or.inr ⟨hab.trans hbc, hname.trans hname'⟩

theorem ranksBefore_total (a b : α) :
    (ranksBefore key name a b || ranksBefore key name b a) = true := by
  rw [Bool.or_eq_true, ranksBefore_iff, ranksBefore_iff]
  rcases lt_trichotomy (key a) (key b) with hlt | heq | hgt
  · exact Or.inr (Or.inl hlt)
  · rcases le_total (name a) (name b) with hle | hge
    · exact Or.inl (Or.inr ⟨heq, hle⟩)
    · exact Or.inr (Or.inr ⟨heq.symm, hge⟩)
  · exact Or.inl (Or.inl hgt)

theorem name_eq_of_ranksBefore (hab : ranksBefore key name a b = true)
    (hba : ranksBefore key name b a = true) : name a = name b := by
  rw [ranksBefore_iff] at hab hba
  have hkey : key a = key b := by omega
  have hle : name a ≤ name b := (hab.resolve_left (by omega)).2
  have hge : name b ≤ name a := (hba.resolve_left (by omega)).2
  exact le_antisymm hle hge

/-- A higher number, or the same one and an earlier name. -/
def Outranks (key : α → Nat) (name : α → String) (a b : α) : Prop :=
  key b < key a ∨ key a = key b ∧ name a < name b

theorem Outranks.asymm (hab : Outranks key name a b) : ¬ Outranks key name b a := by
  rintro (hlt | ⟨hkey, hname⟩) <;> rcases hab with hlt' | ⟨hkey', hname'⟩
  · omega
  · omega
  · omega
  · exact lt_asymm hname hname'

/-- Sorted, elements with different names outrank all that follow them. -/
theorem pairwise_outranks {l : List α} (hnames : (l.map name).Nodup) :
    (l.mergeSort (ranksBefore key name)).Pairwise (Outranks key name) := by
  have hsorted : (l.mergeSort (ranksBefore key name)).Pairwise fun a b =>
      ranksBefore key name a b = true :=
    List.pairwise_mergeSort ranksBefore_trans ranksBefore_total l
  have hdistinct : ((l.mergeSort (ranksBefore key name)).map name).Nodup :=
    ((List.mergeSort_perm l _).map name).nodup_iff.mpr hnames
  refine hsorted.imp₂ ?_ (List.pairwise_map.mp hdistinct)
  intro a b hab hne
  rcases ranksBefore_iff.mp hab with hlt | ⟨hkey, hle⟩
  · exact .inl hlt
  · exact .inr ⟨hkey, lt_of_le_of_ne hle hne⟩

end Ranks

/-! ## Recommendations -/

namespace Recommendation

theorem atLeast_trans (a b c : Recommendation) (hab : a.priority.atLeast b.priority = true)
    (hbc : b.priority.atLeast c.priority = true) : a.priority.atLeast c.priority = true := by
  simp only [Level.atLeast, decide_eq_true_eq] at *
  omega

theorem atLeast_total (a b : Recommendation) :
    (a.priority.atLeast b.priority || b.priority.atLeast a.priority) = true := by
  simp only [Level.atLeast, Bool.or_eq_true, decide_eq_true_eq]
  omega

theorem pairwise_byUrgency (rs : List Recommendation) :
    (byUrgency rs).Pairwise fun a b => a.priority.atLeast b.priority = true :=
  List.pairwise_mergeSort atLeast_trans atLeast_total rs

/-- Within a level the order stays. -/
theorem filter_byUrgency (rs : List Recommendation) (level : Level) :
    (byUrgency rs).filter (fun r => r.priority == level) = rs.filter fun r => r.priority == level := by
  apply filter_mergeSort atLeast_trans atLeast_total
  intro a b ha hb
  rw [eq_of_beq ha, eq_of_beq hb]
  simp [Level.atLeast]

end Recommendation
end RepoAudit
