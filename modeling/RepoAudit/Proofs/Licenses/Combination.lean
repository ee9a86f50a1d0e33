import RepoAudit.Licenses.Terms
import Mathlib.Tactic

/-!
# Terms of several parts

Combined terms are read off all of the parts alike: the only part stands for itself, and several
parts are as demanding as the most demanding of them.
-/

namespace RepoAudit

theorem Risk.rank_injective {a b : Risk} (h : a.rank = b.rank) : a = b := by
  cases a <;> cases b <;> simp_all [rank]

theorem Risk.le_max_left (a b : Risk) : a.rank ≤ (a.max b).rank := by
  unfold Risk.max
  split
  · assumption
  · exact le_rfl

theorem Risk.le_max_right (a b : Risk) : b.rank ≤ (a.max b).rank := by
  unfold Risk.max
  split
  · exact le_rfl
  · omega

theorem Risk.max_eq_or (a b : Risk) : a.max b = a ∨ a.max b = b := by
  unfold Risk.max
  split
  · exact Or.inr rfl
  · exact Or.inl rfl

theorem Risk.le_foldl_max {first risk : Risk} {rest : List Risk}
    (h : risk ∈ rest ∨ risk.rank ≤ first.rank) :
    risk.rank ≤ (rest.foldl Risk.max first).rank := by
  induction rest generalizing first with
  | nil =>
      rcases h with h | h
      · exact absurd h List.not_mem_nil
      · exact h
  | cons next rest ih =>
      rw [List.foldl_cons]
      apply ih
      rcases h with h | h
      · rcases List.mem_cons.mp h with rfl | h
        · exact Or.inr (Risk.le_max_right _ _)
        · exact Or.inl h
      · exact Or.inr (h.trans (Risk.le_max_left _ _))

theorem Risk.foldl_max_mem (first : Risk) (rest : List Risk) :
    rest.foldl Risk.max first ∈ first :: rest := by
  induction rest generalizing first with
  | nil => exact List.mem_cons_self
  | cons next rest ih =>
      rw [List.foldl_cons]
      rcases List.mem_cons.mp (ih (first.max next)) with h | h
      · rw [h]
        rcases Risk.max_eq_or first next with hmax | hmax <;> simp [hmax]
      · exact List.mem_cons_of_mem _ (List.mem_cons_of_mem _ h)

namespace LicenseTerms

theorem copyleft_combine (parts : List LicenseTerms) :
    (combine parts).copyleft = parts.any copyleft := by
  match parts with
  | [] => rfl
  | [p] => simp [combine]
  | p :: q :: rest => rfl

theorem compatible_combine {parts : List LicenseTerms} (hne : parts ≠ []) :
    (combine parts).compatible = parts.all compatible := by
  match parts with
  | [] => exact absurd rfl hne
  | [p] => simp [combine]
  | p :: q :: rest => rfl

theorem recognized_combine {parts : List LicenseTerms} (hne : parts ≠ []) :
    (combine parts).recognized = parts.all recognized := by
  match parts with
  | [] => exact absurd rfl hne
  | [p] => simp [combine]
  | p :: q :: rest => rfl

theorem risk_combine (first : LicenseTerms) (rest : List LicenseTerms) :
    (combine (first :: rest)).risk = (rest.map risk).foldl Risk.max first.risk := by
  cases rest <;> rfl

theorem risk_le_combine {parts : List LicenseTerms} {p : LicenseTerms} (hp : p ∈ parts) :
    p.risk.rank ≤ (combine parts).risk.rank := by
  obtain ⟨first, rest, rfl⟩ := List.exists_cons_of_ne_nil (List.ne_nil_of_mem hp)
  rw [risk_combine]
  apply Risk.le_foldl_max
  rcases List.mem_cons.mp hp with rfl | hp
  · exact Or.inr le_rfl
  · exact Or.inl (List.mem_map_of_mem hp)

theorem exists_risk_eq_combine {parts : List LicenseTerms} (hne : parts ≠ []) :
    ∃ p ∈ parts, p.risk = (combine parts).risk := by
  obtain ⟨first, rest, rfl⟩ := List.exists_cons_of_ne_nil hne
  rw [risk_combine]
  have hmem := Risk.foldl_max_mem first.risk (rest.map risk)
  rw [← List.map_cons] at hmem
  exact List.mem_map.mp hmem

end LicenseTerms
end RepoAudit
