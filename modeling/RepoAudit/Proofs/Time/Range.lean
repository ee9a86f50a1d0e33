import RepoAudit.Proofs.Except
import RepoAudit.Time.Span
import Mathlib.Data.List.TakeWhile

/-!
# Spans that are measured

A timestamp that is read from a text lies within a few thousand years of the epoch, and a clock
shows nothing further away than a few hundred thousand.  The time between two such instants is far
below what a span can hold.
-/

namespace RepoAudit

namespace Span

def Representable (s : Span) : Prop :=
  s.seconds.natAbs ≤ maxSeconds

/-- The largest number of days that is a span, on either side. -/
def maxDays : Nat := maxSeconds / 86400

theorem ofDays?_isSome_iff {days : Int} : (ofDays? days).isSome = true ↔ days.natAbs ≤ maxDays := by
  have hmul : (days * 86400).natAbs = days.natAbs * 86400 := Int.natAbs_mul days 86400
  rw [ofDays?, maxDays, Nat.le_div_iff_mul_le (by decide), hmul]
  by_cases h : days.natAbs * 86400 ≤ maxSeconds <;> simp [h]

end Span

namespace Timestamp

/-- An instant that a clock can show, the last second of a day perhaps a leap second. -/
structure InRange (t : Timestamp) : Prop where
  earliest_le : -8334601228800 ≤ t.seconds
  le_latest : t.seconds ≤ 8210266876799
  nanos_lt : t.nanos < 2 * second

theorem since_representable {t earlier : Timestamp} (ht : t.InRange) (hearlier : earlier.InRange) :
    (t.since earlier).Representable := by
  obtain ⟨hlow, hhigh, hnanos⟩ := ht
  obtain ⟨hlow', hhigh', hnanos'⟩ := hearlier
  have hmax : Span.maxSeconds = 9223372036854775 := by decide
  simp only [Span.Representable, since, hmax]
  simp only [second] at *
  split
  · omega
  · split <;> omega

/-! ## Timestamps of a text -/

variable {t rest : Text} {n m width : Nat}

theorem digitsValue_lt {digits : Text} (hdigits : ∀ c ∈ digits, c.isDigit = true) :
    digitsValue digits < 10 ^ digits.length := by
  have hfold : ∀ start : Nat, digits.foldl (fun n c => n * 10 + (c.toNat - 48)) start <
      (start + 1) * 10 ^ digits.length := by
    induction digits with
    | nil => simp
    | cons c digits ih =>
        intro start
        rw [List.forall_mem_cons] at hdigits
        have hc : c.toNat - 48 < 10 := by
          have := hdigits.1
          simp only [Char.isDigit, Bool.and_eq_true, decide_eq_true_eq] at this
          have := this.2
          rw [UInt32.le_iff_toNat_le] at this
          change c.toNat ≤ 57 at this
          omega
        calc
          _ < (start * 10 + (c.toNat - 48) + 1) * 10 ^ digits.length := ih hdigits.2 _
          _ ≤ (start * 10 + 10) * 10 ^ digits.length := Nat.mul_le_mul_right _ (by omega)
          _ = (start + 1) * 10 ^ (digits.length + 1) := by ring
  simpa [digitsValue] using hfold 0

theorem readDigits_lt (h : readDigits width t = .ok (n, rest)) : n < 10 ^ width := by
  rw [readDigits] at h
  split at h
  next hdigits =>
    obtain ⟨rfl, -⟩ := Prod.mk.inj (Except.ok.inj h)
    have hlt := digitsValue_lt (List.all_eq_true.mp hdigits.2)
    rwa [hdigits.1] at hlt
  next => cases h

theorem daysInMonth_le (year : Int) (month : Nat) : Date.daysInMonth year month ≤ 31 := by
  rw [Date.daysInMonth]
  split
  · split <;> omega
  · split <;> omega

theorem readDate_range {date : Date} (h : readDate t = .ok (date, rest)) :
    0 ≤ date.year ∧ date.year ≤ 9999 ∧ 1 ≤ date.month ∧ date.month ≤ 12 ∧ 1 ≤ date.day ∧
      date.day ≤ 31 := by
  simp only [readDate, bind_eq_ok_iff, Prod.exists, guard_eq_ok_iff, pure_eq_ok_iff,
    Prod.mk.injEq] at h
  obtain ⟨year, _, hyear, _, -, month, _, -, _, -, day, _, -, hvalid, rfl, -⟩ := h
  have hyear := readDigits_lt hyear
  have hday := daysInMonth_le year month
  simp only [Bool.not_eq_true', Bool.not_eq_false, Bool.and_eq_true, decide_eq_true_eq] at hvalid
  dsimp only
  omega

/-- A date with a year of four digits lies this many days from the epoch at most. -/
theorem toDays_range {date : Date} (hlow : 0 ≤ date.year) (hhigh : date.year ≤ 9999)
    (hday : 1 ≤ date.day) (hday' : date.day ≤ 31) :
    -720000 ≤ date.toDays ∧ date.toDays ≤ 3000000 := by
  rw [Date.toDays]
  split <;> omega

/-- A fraction of a second is less than a second. -/
theorem readFraction_lt (h : readFraction t = .ok (n, rest)) : n < second := by
  rw [readFraction.eq_def] at h
  split at h
  next digits =>
    dsimp only at h
    split at h
    · cases h
    split at h
    · cases h
    obtain ⟨rfl, -⟩ := Prod.mk.inj (Except.ok.inj h)
    have hdigits : ∀ c ∈ (digits.takeWhile Char.isDigit).take 9, c.isDigit = true :=
      fun c hc => List.mem_takeWhile_imp (List.mem_of_mem_take hc)
    have hle : ((digits.takeWhile Char.isDigit).take 9).length ≤ 9 := List.length_take_le _ _
    have hlt := digitsValue_lt hdigits
    calc
      _ < 10 ^ ((digits.takeWhile Char.isDigit).take 9).length *
            10 ^ (9 - ((digits.takeWhile Char.isDigit).take 9).length) :=
          Nat.mul_lt_mul_of_pos_right hlt (by positivity)
      _ = second := by
          rw [← pow_add, Nat.add_sub_cancel' hle]
          rfl
  next =>
    obtain ⟨rfl, -⟩ := Prod.mk.inj (Except.ok.inj h)
    decide

theorem readClock_range {clock : Nat × Nat} (h : readClock t = .ok (clock, rest)) :
    clock.1 < 86400 ∧ clock.2 < 2 * second := by
  simp only [readClock, bind_eq_ok_iff, Prod.exists, guard_eq_ok_iff] at h
  obtain ⟨hour, _, -, _, -, minute, _, -, _, -, second, _, -, nanos, _, hnanos, hvalid, h⟩ := h
  have hnanos := readFraction_lt hnanos
  simp only [Bool.or_eq_true, decide_eq_true_eq, not_or, not_le, not_lt] at hvalid
  simp only [Timestamp.second] at *
  split at h
  · obtain ⟨rfl, -⟩ := Prod.mk.inj (pure_eq_ok_iff.mp h)
    dsimp only
    omega
  · obtain ⟨rfl, -⟩ := Prod.mk.inj (pure_eq_ok_iff.mp h)
    dsimp only
    omega

/-- Every instant that can be read from a text is one that a clock can show. -/
theorem ofText_inRange {moment : Timestamp} (h : ofText t = .ok moment) : moment.InRange := by
  simp only [ofText, bind_eq_ok_iff, Prod.exists, guard_eq_ok_iff, pure_eq_ok_iff] at h
  obtain ⟨-, date, _, hdate, _, -, secondOfDay, nanos, _, hclock, offset, _, -, -, hoffset, rfl⟩ :=
    h
  obtain ⟨hlow, hhigh, -, -, hday, hday'⟩ := readDate_range hdate
  obtain ⟨hfirst, hlast⟩ := toDays_range hlow hhigh hday hday'
  obtain ⟨hsecond, hnanos⟩ := readClock_range hclock
  dsimp only at hsecond hnanos
  exact ⟨by dsimp only; omega, by dsimp only; omega, hnanos⟩

end Timestamp
end RepoAudit
