import RepoAudit.Proofs.Lists
import RepoAudit.Text.Basic
import Mathlib

/-!
# The case of letters

Texts are compared without regard to the case of the letters from `A` to `Z` by writing both in
capital or both in small letters.  Blanks are no letters, so this changes neither where a text is
cut nor what is trimmed off it.
-/

namespace RepoAudit.Text

/-- The same character, or the small and the capital form of one letter. -/
def SameLetter (c d : Char) : Prop :=
  c = d ∨ c.isAlpha = true ∧ d.isAlpha = true ∧ c.toNat % 32 = d.toNat % 32

/-- The texts differ at most in the case of letters. -/
def SameLetters (s t : Text) : Prop :=
  List.Forall₂ SameLetter s t

theorem toNat_toUpper (c : Char) :
    c.toUpper.toNat = if 97 ≤ c.toNat ∧ c.toNat ≤ 122 then c.toNat - 32 else c.toNat := by
  have hsmall : ('a'.val ≤ c.val ∧ c.val ≤ 'z'.val) ↔ (97 ≤ c.toNat ∧ c.toNat ≤ 122) := by
    simp only [UInt32.le_iff_toNat_le]
    rfl
  unfold Char.toUpper
  by_cases h : 97 ≤ c.toNat ∧ c.toNat ≤ 122
  · rw [dif_pos (hsmall.mpr h), if_pos h]
    change (c.val + ('A'.val - 'a'.val)).toNat = c.val.toNat - 32
    have hbound : 97 ≤ c.val.toNat ∧ c.val.toNat ≤ 122 := h
    -- The distance between the two forms is negative, and so it wraps around.
    have hshift : ('A'.val - 'a'.val).toNat = 2 ^ 32 - 32 := by decide
    rw [UInt32.toNat_add, hshift]
    omega
  · rw [dif_neg (mt hsmall.mp h), if_neg h]

theorem toNat_toLower (c : Char) :
    c.toLower.toNat = if 65 ≤ c.toNat ∧ c.toNat ≤ 90 then c.toNat + 32 else c.toNat := by
  have hcapital : ('A'.val ≤ c.val ∧ c.val ≤ 'Z'.val) ↔ (65 ≤ c.toNat ∧ c.toNat ≤ 90) := by
    simp only [UInt32.le_iff_toNat_le]
    rfl
  unfold Char.toLower
  by_cases h : 65 ≤ c.toNat ∧ c.toNat ≤ 90
  · rw [dif_pos (hcapital.mpr h), if_pos h]
    change (c.val + ('a'.val - 'A'.val)).toNat = c.val.toNat + 32
    have hbound : 65 ≤ c.val.toNat ∧ c.val.toNat ≤ 90 := h
    have hshift : ('a'.val - 'A'.val).toNat = 32 := by decide
    rw [UInt32.toNat_add, hshift]
    omega
  · rw [dif_neg (mt hcapital.mp h), if_neg h]

theorem isAlpha_iff {c : Char} :
    c.isAlpha = true ↔ 65 ≤ c.toNat ∧ c.toNat ≤ 90 ∨ 97 ≤ c.toNat ∧ c.toNat ≤ 122 := by
  simp only [Char.isAlpha, Char.isUpper, Char.isLower, Bool.or_eq_true, Bool.and_eq_true,
    decide_eq_true_eq, ge_iff_le, UInt32.le_iff_toNat_le]
  rfl

theorem toUpper_eq_iff {c d : Char} : c.toUpper = d.toUpper ↔ SameLetter c d := by
  unfold SameLetter
  rw [← Char.toNat_inj, ← Char.toNat_inj, toNat_toUpper, toNat_toUpper, isAlpha_iff, isAlpha_iff]
  split_ifs <;> omega

theorem toLower_eq_iff {c d : Char} : c.toLower = d.toLower ↔ SameLetter c d := by
  unfold SameLetter
  rw [← Char.toNat_inj, ← Char.toNat_inj, toNat_toLower, toNat_toLower, isAlpha_iff, isAlpha_iff]
  split_ifs <;> omega

theorem upper_eq_iff {s t : Text} : s.upper = t.upper ↔ SameLetters s t := by
  unfold SameLetters upper
  simp only [map_eq_map_iff_forall₂, toUpper_eq_iff]

theorem lower_eq_iff {s t : Text} : s.lower = t.lower ↔ SameLetters s t := by
  unfold SameLetters lower
  simp only [map_eq_map_iff_forall₂, toLower_eq_iff]

theorem upper_append (s t : Text) : upper (s ++ t) = s.upper ++ t.upper :=
  List.map_append

theorem upper_join (c : Char) (pieces : List Text) :
    upper (join [c] pieces) = join [c.toUpper] (pieces.map upper) := by
  unfold upper join
  induction pieces using List.twoStepInduction <;> simp_all

theorem isBlank_toUpper (c : Char) : isBlank c.toUpper = isBlank c := by
  rw [Bool.eq_iff_iff]
  simp only [isBlank, Bool.or_eq_true, Bool.and_eq_true, decide_eq_true_eq, beq_iff_eq,
    toNat_toUpper]
  split_ifs <;> omega

theorem upper_trim (t : Text) : t.trim.upper = t.upper.trim := by
  have hdrop : ∀ s : Text, (s.dropWhile isBlank).map Char.toUpper =
      (s.map Char.toUpper).dropWhile isBlank := by
    intro s
    rw [List.dropWhile_map]
    simp only [Function.comp_def, isBlank_toUpper]
  unfold trim trimEnd trimStart upper
  rw [List.map_reverse, hdrop, List.map_reverse, hdrop]

end RepoAudit.Text
