import RepoAudit.Decimal.Unsigned
import RepoAudit.Text.WordChar
import Mathlib.Tactic

/-!
# Reading bounded whole numbers

A numeral is read as its value when that stays below the limit, and as nothing else.  Digits other
than those from `0` to `9` are never read.
-/

namespace RepoAudit.Decimal

/-- The value of digits that follow the digits of `value`. -/
def digitsValue (value : Nat) (digits : Text) : Nat :=
  digits.foldl (fun value c => value * 10 + (c.toNat - 48)) value

theorem le_digitsValue (value : Nat) (digits : Text) : value ≤ digitsValue value digits := by
  induction digits generalizing value with
  | nil => exact le_rfl
  | cons c digits ih =>
      calc
        value ≤ value * 10 + (c.toNat - 48) := by omega
        _ ≤ digitsValue value (c :: digits) := ih _

/-- The value so far only grows, so it passes the limit at some digit exactly when the whole
numeral does. -/
theorem readDigits_eq {limit value : Nat} {digits : Text} (hvalue : value < limit)
    (hdigits : ∀ c ∈ digits, c.isDigit = true) :
    readDigits limit value digits =
      if digitsValue value digits < limit then .ok (digitsValue value digits)
      else .error .tooLarge := by
  induction digits generalizing value with
  | nil => exact (if_pos hvalue).symm
  | cons c digits ih =>
      rw [List.forall_mem_cons] at hdigits
      rw [readDigits, hdigits.1]
      change (if value * 10 + (c.toNat - 48) < limit then _ else _) = _
      split
      · next hnext => exact ih hnext hdigits.2
      · next hnext =>
          have hle := le_digitsValue (value * 10 + (c.toNat - 48)) digits
          exact (if_neg fun h => hnext (hle.trans_lt h)).symm

theorem readUnsigned_eq {limit : Nat} {digits : Text} (hlimit : 0 < limit) (hne : digits ≠ [])
    (hdigits : ∀ c ∈ digits, c.isDigit = true) :
    readUnsigned limit digits =
      if digitsValue 0 digits < limit then .ok (digitsValue 0 digits) else .error .tooLarge := by
  have hplus : ∀ rest, digits ≠ '+' :: rest := by
    rintro rest rfl
    exact absurd (hdigits '+' (by simp)) (by decide)
  rw [← readDigits_eq hlimit hdigits, readUnsigned]
  · exact hne
  · exact hplus []
  · exact hplus

/-! ## Digits of any script -/

theorem isDecimal_of_isDigit {c : Char} (hc : c.isDigit = true) : isDecimal c = true := by
  have hlow : c.toNat < 128 := by
    simp only [Char.isDigit, Bool.and_eq_true, decide_eq_true_eq] at hc
    exact lt_of_le_of_lt hc.2 (by decide)
  rwa [isDecimal, if_pos hlow]

theorem isDigit_of_readDigits {limit value n : Nat} {digits : Text}
    (h : readDigits limit value digits = .ok n) : ∀ c ∈ digits, c.isDigit = true := by
  induction digits generalizing value with
  | nil => simp
  | cons c digits ih =>
      rw [readDigits] at h
      split at h
      · cases h
      next hc =>
        dsimp only at h
        split at h
        · exact List.forall_mem_cons.mpr ⟨by simpa using hc, ih h⟩
        · cases h

/-- A run of digits of any script is a number when its digits are those from `0` to `9`. -/
theorem readUnsigned_eq_ok_iff {limit n : Nat} {run : Text} (hlimit : 0 < limit) (hne : run ≠ [])
    (hrun : ∀ c ∈ run, isDecimal c = true) :
    readUnsigned limit run = .ok n ↔
      (∀ c ∈ run, c.isDigit = true) ∧ digitsValue 0 run = n ∧ n < limit := by
  constructor
  · intro h
    have hplus : ∀ rest, run ≠ '+' :: rest := by
      rintro rest rfl
      exact absurd (hrun '+' (List.mem_cons_self ..)) (by decide)
    have hread : readDigits limit 0 run = .ok n := by
      rw [← h, readUnsigned]
      · exact hne
      · exact hplus []
      · exact hplus
    have hdigits := isDigit_of_readDigits hread
    rw [readDigits_eq hlimit hdigits] at hread
    split at hread
    · next hvalue =>
        cases hread
        exact ⟨hdigits, rfl, hvalue⟩
    · cases hread
  · rintro ⟨hdigits, rfl, hvalue⟩
    rw [readUnsigned_eq hlimit hne hdigits, if_pos hvalue]

end RepoAudit.Decimal
