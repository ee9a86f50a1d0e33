import RepoAudit.Proofs.Time.Elapsed

/-!
# Looking back later

As time goes on, what has been left behind for more than a number of days stays so, with one
exception.  Looked back from within a leap second that ends a day, that second counts; looked back
from the second after it, it does not.  Going on from one to the other may shorten the time since an
instant by up to a second.
-/

namespace RepoAudit

namespace Span

variable {a b limit : Span} {days days' : Int}

theorem lt_iff_total_lt (ha : a.nanos < Timestamp.second) (hb : b.nanos < Timestamp.second) :
    a.lt b = true ↔ a.total < b.total := by
  simp only [lt, total, Timestamp.second, Bool.or_eq_true, Bool.and_eq_true, decide_eq_true_eq,
    beq_iff_eq] at *
  omega

theorem total_ofDays (hlimit : ofDays? days = some limit) :
    limit.total = nanosPerDay * days ∧ limit.nanos < Timestamp.second := by
  unfold ofDays? at hlimit
  split at hlimit
  · obtain rfl := Option.some.inj hlimit
    simp only [total, nanosPerDay, Timestamp.second]
    omega
  · cases hlimit

end Span

namespace Timestamp

variable {now later s : Timestamp} {limit limit' : Span} {days days' : Int}

theorem nanos_since_lt (now s : Timestamp) : (now.since s).nanos < second := by
  simp only [since, second]
  omega

theorem exceeds_iff (hlimit : Span.ofDays? days = some limit) :
    limit.lt (now.since s) = true ↔ Span.nanosPerDay * days < (now.since s).total := by
  obtain ⟨htotal, hnanos⟩ := Span.total_ofDays hlimit
  rw [Span.lt_iff_total_lt hnanos (nanos_since_lt now s), htotal]

/-- What has been left behind for more days has been for fewer. -/
theorem exceeds_of_le (hlimit : Span.ofDays? days = some limit)
    (hlimit' : Span.ofDays? days' = some limit') (hle : days ≤ days')
    (h : limit'.lt (now.since s) = true) : limit.lt (now.since s) = true := by
  rw [exceeds_iff hlimit'] at h
  rw [exceeds_iff hlimit]
  have hdays : Span.nanosPerDay * days ≤ Span.nanosPerDay * days' :=
    Int.mul_le_mul_of_nonneg_left hle (by decide)
  exact hdays.trans_lt h

/-- Time goes on from a leap second that ends a day into the second after it, or it comes to a leap
second that begins a day, which no text can give. -/
def Falters (now later : Timestamp) : Prop :=
  now.ClosesDay ∧ later.seconds = now.seconds + 1 ∨ later.isLeap = true ∧ later.secondOfDay = 0

instance (now later : Timestamp) : Decidable (Falters now later) :=
  inferInstanceAs (Decidable (_ ∨ _))

theorem total_pos_of_blurred (hlater : later.nanos < 2 * second) (hs : s.nanos < 2 * second)
    (hle : later.lt now = false) (hclear : ¬ Falters now later) (hbefore : s.lt now = true)
    (hblurred : Blurred later s) (hpast : 0 < (now.since s).total) :
    0 < (later.since s).total := by
  have hcases := total_since_cases now s
  have hcases' := total_since_cases later s
  simp only [lt_iff, lt_eq_false_iff, Falters, Blurred, ClosesDay, isLeap_iff, secondOfDay,
    second] at *
  obtain ⟨hclose, hfirst | hlast⟩ := hblurred
  · rcases hcases with ⟨_, _, _⟩ | ⟨_, _, _⟩ | ⟨_, _, _⟩ <;>
      rcases hcases' with ⟨_, _, _⟩ | ⟨_, _, _⟩ | ⟨_, _, _⟩ <;> omega
  · rcases hcases' with ⟨_, _, _⟩ | ⟨_, _, _⟩ | ⟨_, _, _⟩ <;> omega

/-- Late in a leap second that ends a day, what comes early in the next second is past already. -/
theorem total_pos_of_closesDay (hlater : later.nanos < 2 * second) (hs : s.nanos < 2 * second)
    (hle : later.lt now = false) (hclear : ¬ Falters now later) (hclose : now.ClosesDay)
    (hnext : s.seconds = now.seconds + 1) (hpast : 0 < (now.since s).total) :
    0 < (later.since s).total := by
  have hcases := total_since_cases now s
  have hcases' := total_since_cases later s
  simp only [lt_eq_false_iff, Falters, ClosesDay, isLeap_iff, secondOfDay, second] at *
  rcases hcases with ⟨_, _, _⟩ | ⟨_, _, _⟩ | ⟨_, _, _⟩ <;>
    rcases hcases' with ⟨_, _, _⟩ | ⟨_, _, _⟩ | ⟨_, _, _⟩ <;> omega

/-- What is past stays past. -/
theorem total_pos_of_later (hnow : now.nanos < 2 * second) (hlater : later.nanos < 2 * second)
    (hs : s.Written) (hle : later.lt now = false) (hclear : ¬ Falters now later)
    (hpast : 0 < (now.since s).total) : 0 < (later.since s).total := by
  rcases (order_of_total hnow hs).2 hpast with hbefore | ⟨hclose, hnext⟩
  · by_cases hblurred : Blurred later s
    · exact total_pos_of_blurred hlater hs.nanos_lt hle hclear hbefore hblurred hpast
    · have hpassed : s.lt later = true := by
        rw [lt_iff] at *
        rw [lt_eq_false_iff] at hle
        omega
      exact (total_of_order hlater hs.nanos_lt hblurred).2 hpassed
  · exact total_pos_of_closesDay hlater hs.nanos_lt hle hclear hclose hnext hpast

/-- What has been left behind for more than the days stays so. -/
theorem exceeds_of_later (hlimit : Span.ofDays? days = some limit)
    (hnow : now.nanos < 2 * second) (hlater : later.nanos < 2 * second) (hs : s.Written)
    (hle : later.lt now = false) (hclear : ¬ Falters now later)
    (h : limit.lt (now.since s) = true) : limit.lt (later.since s) = true := by
  rw [exceeds_iff hlimit] at *
  have hpast := total_pos_of_later hnow hlater (hs.addDays days) hle hclear
  simp only [total_since_addDays] at hpast
  omega

end Timestamp
end RepoAudit
