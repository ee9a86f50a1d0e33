import Mathlib.Data.List.Forall2
import Mathlib.Tactic

/-!
# Lists related item by item

Lists made from two others agree, item for item, when the others are related item by item.
-/

namespace RepoAudit

variable {α β γ : Type} {R : α → β → Prop} {f : α → γ} {g : β → γ} {l : List α} {m : List β}

theorem map_eq_map_iff_forall₂ :
    l.map f = m.map g ↔ List.Forall₂ (fun a b => f a = g b) l m := by
  rw [← List.forall₂_eq_eq_eq, List.forall₂_map_left_iff, List.forall₂_map_right_iff]

theorem forall₂_filterMap {p : α → Bool} {g : α → Option β}
    (hnone : ∀ a ∈ l, p a = false → g a = none)
    (hsome : ∀ a ∈ l, p a = true → ∃ b, g a = some b ∧ R a b) :
    List.Forall₂ R (l.filter p) (l.filterMap g) := by
  induction l with
  | nil => exact .nil
  | cons a l ih =>
      rw [List.forall_mem_cons] at hnone hsome
      have hrest := ih hnone.2 hsome.2
      cases hp : p a with
      | false => rwa [List.filter_cons_of_neg (by simp [hp]), List.filterMap_cons, hnone.1 hp]
      | true =>
          obtain ⟨b, hb, hab⟩ := hsome.1 hp
          rw [List.filter_cons_of_pos hp, List.filterMap_cons, hb]
          exact .cons hab hrest

end RepoAudit
