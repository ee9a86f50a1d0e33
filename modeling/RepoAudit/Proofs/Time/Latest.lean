import RepoAudit.Time.Timestamp
import Mathlib.Tactic

/-!
# The latest of some instants

Timestamps are ordered by their seconds and then by their nanoseconds.  The order is linear, so a
list of timestamps has at most one latest instant, whatever the order in which they are listed.
-/

namespace RepoAudit
namespace Timestamp

theorem lt_iff {a b : Timestamp} :
    a.lt b = true ↔ a.seconds < b.seconds ∨ a.seconds = b.seconds ∧ a.nanos < b.nanos := by
  simp [lt]

theorem lt_eq_false_iff {a b : Timestamp} :
    a.lt b = false ↔ b.seconds < a.seconds ∨ a.seconds = b.seconds ∧ b.nanos ≤ a.nanos := by
  rw [← Bool.not_eq_true, lt_iff]
  omega

theorem eq_of_lt_eq_false {a b : Timestamp} (hab : a.lt b = false) (hba : b.lt a = false) :
    a = b := by
  rw [lt_eq_false_iff] at hab hba
  have hseconds : a.seconds = b.seconds := by omega
  have hnanos : a.nanos = b.nanos := by omega
  cases a
  cases b
  simp_all

end Timestamp

/-- The last of some instants, or nothing when there are none. -/
def IsLatest (last : Option Timestamp) (times : List Timestamp) : Prop :=
  match last with
  | none => times = []
  | some t => t ∈ times ∧ ∀ u ∈ times, t.lt u = false

namespace IsLatest

/-- A later instant takes the place of the latest one so far, and any other leaves it. -/
theorem concat_later {last t : Timestamp} {times : List Timestamp}
    (h : IsLatest (some last) times) (hlater : last.lt t = true) :
    IsLatest (some t) (times ++ [t]) := by
  refine ⟨by simp, ?_⟩
  intro u hu
  rw [Timestamp.lt_eq_false_iff]
  rcases List.mem_append.mp hu with hu | hu
  · have hlast := h.2 u hu
    rw [Timestamp.lt_eq_false_iff] at hlast
    rw [Timestamp.lt_iff] at hlater
    omega
  · obtain rfl := List.mem_singleton.mp hu
    omega

theorem concat_not_later {last t : Timestamp} {times : List Timestamp}
    (h : IsLatest (some last) times) (hlater : last.lt t = false) :
    IsLatest (some last) (times ++ [t]) := by
  refine ⟨List.mem_append_left _ h.1, ?_⟩
  intro u hu
  rcases List.mem_append.mp hu with hu | hu
  · exact h.2 u hu
  · obtain rfl := List.mem_singleton.mp hu
    exact hlater

/-- Among more instants the last one is not earlier. -/
theorem exists_not_earlier {last : Timestamp} {last' : Option Timestamp}
    {times times' : List Timestamp} (h : IsLatest (some last) times) (h' : IsLatest last' times')
    (hmore : times ⊆ times') : ∃ t, last' = some t ∧ t.lt last = false := by
  have hmem : last ∈ times' := hmore h.1
  cases last' with
  | none =>
      rw [show times' = [] from h'] at hmem
      exact absurd hmem List.not_mem_nil
  | some t => exact ⟨t, rfl, h'.2 last hmem⟩

theorem eq_of_perm {last last' : Option Timestamp} {times times' : List Timestamp}
    (h : IsLatest last times) (h' : IsLatest last' times') (hperm : times.Perm times') :
    last = last' := by
  cases last with
  | none =>
      cases last' with
      | none => rfl
      | some t' =>
          have hmem : t' ∈ times := hperm.mem_iff.mpr h'.1
          rw [show times = [] from h] at hmem
          exact absurd hmem List.not_mem_nil
  | some t =>
      cases last' with
      | none =>
          have hmem : t ∈ times' := hperm.mem_iff.mp h.1
          rw [show times' = [] from h'] at hmem
          exact absurd hmem List.not_mem_nil
      | some t' =>
          have hle : t.lt t' = false := h.2 t' (hperm.mem_iff.mpr h'.1)
          have hge : t'.lt t = false := h'.2 t (hperm.mem_iff.mp h.1)
          rw [Timestamp.eq_of_lt_eq_false hle hge]

end IsLatest
end RepoAudit
