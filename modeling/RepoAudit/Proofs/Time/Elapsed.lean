import RepoAudit.Proofs.Time.Latest
import RepoAudit.Proofs.Time.Range

/-!
# The days since an instant

A later instant has not been left behind for more whole days than an earlier one.  The time between
two instants counts a leap second that ends a day as the first second of the next day, though it
comes before it.  So the order of two instants and the time since them can only disagree about such
a leap second, and only when it is looked back on at a time of day within this second.
-/

namespace RepoAudit

namespace Span

variable {s : Span} {n : Int}

/-- The nanoseconds of a span. -/
def total (s : Span) : Int :=
  s.seconds * Timestamp.second + s.nanos

def nanosPerDay : Int :=
  86400 * Timestamp.second

/-- Days are cut off toward zero: a positive number of them is reached when they are over, any other
number when one day less is exceeded. -/
theorem le_wholeDays_iff (hs : s.nanos < Timestamp.second) :
    n ≤ s.wholeDays ↔
      0 < n ∧ nanosPerDay * n ≤ s.total ∨ n ≤ 0 ∧ nanosPerDay * (n - 1) < s.total := by
  have hsign : Int.sign 86400 = 1 := rfl
  rw [wholeDays, Int.tdiv_eq_ediv, hsign]
  simp only [total, nanosPerDay, Timestamp.second, wholeSeconds, Bool.and_eq_true,
    decide_eq_true_eq] at *
  split_ifs <;> omega

end Span

namespace Timestamp

variable {now s t : Timestamp} {n : Int}

theorem isLeap_iff : t.isLeap = true ↔ second ≤ t.nanos := by
  rw [isLeap, decide_eq_true_eq]

/-- An instant that a text can give: its leap second is the last second of a minute. -/
structure Written (t : Timestamp) : Prop where
  nanos_lt : t.nanos < 2 * second
  minuteEnd : t.isLeap = true → t.seconds % 60 = 59

theorem readClock_minuteEnd {text rest : Text} {clock : Nat × Nat}
    (h : readClock text = .ok (clock, rest)) : second ≤ clock.2 → clock.1 % 60 = 59 := by
  simp only [readClock, bind_eq_ok_iff, Prod.exists, guard_eq_ok_iff] at h
  obtain ⟨hour, _, -, _, -, minute, _, -, _, -, sixtieth, _, -, nanos, _, hnanos, -, h⟩ := h
  have hnanos := readFraction_lt hnanos
  split at h
  · obtain ⟨rfl, -⟩ := Prod.mk.inj (pure_eq_ok_iff.mp h)
    dsimp only
    omega
  · obtain ⟨rfl, -⟩ := Prod.mk.inj (pure_eq_ok_iff.mp h)
    dsimp only
    omega

/-- Offsets are whole minutes. -/
theorem readOffset_mod {text rest : Text} {offset : Int}
    (h : readOffset text = .ok (offset, rest)) : offset % 60 = 0 := by
  cases text with
  | nil => cases h
  | cons sign text =>
      rw [readOffset] at h
      split at h
      · obtain ⟨rfl, -⟩ := Prod.mk.inj (pure_eq_ok_iff.mp h)
        rfl
      · simp only [guard_eq_ok_iff, bind_eq_ok_iff, Prod.exists, pure_eq_ok_iff,
          Prod.mk.injEq] at h
        obtain ⟨-, hours, _, -, _, -, minutes, _, -, -, rfl, -⟩ := h
        split <;> omega

theorem ofText_written {text : Text} (h : ofText text = .ok t) : t.Written := by
  have hrange := ofText_inRange h
  simp only [ofText, bind_eq_ok_iff, Prod.exists, guard_eq_ok_iff, pure_eq_ok_iff] at h
  obtain ⟨-, date, _, -, _, -, secondOfDay, nanos, _, hclock, offset, _, hoffset, -, -, rfl⟩ := h
  have hclock := readClock_minuteEnd hclock
  have hoffset := readOffset_mod hoffset
  refine ⟨hrange.nanos_lt, fun hleap => ?_⟩
  have hsecond := hclock (isLeap_iff.mp hleap)
  dsimp only at hsecond ⊢
  omega

/-- The instant lies in a leap second at the end of a day. -/
def ClosesDay (t : Timestamp) : Prop :=
  t.isLeap = true ∧ t.secondOfDay = 86399

instance (t : Timestamp) : Decidable t.ClosesDay :=
  inferInstanceAs (Decidable (_ ∧ _))

/-- Looking back from `now`, the leap second that ends the day of `s` falls together with the first
second of the next day. -/
def Blurred (now s : Timestamp) : Prop :=
  s.ClosesDay ∧ (now.secondOfDay = 0 ∨ now.ClosesDay)

instance (now s : Timestamp) : Decidable (Blurred now s) :=
  inferInstanceAs (Decidable (_ ∧ _))

/-! ## The sign of a span -/

/-- A leap second between the two times of day makes the span longer, or shorter when the later
instant has the earlier time of day. -/
theorem total_since_cases (now s : Timestamp) :
    let apart := (now.seconds - s.seconds) * second + (now.nanos - s.nanos : Int)
    (s.isLeap = true ∧ s.secondOfDay < now.secondOfDay ∧ (now.since s).total = apart + second) ∨
      (now.isLeap = true ∧ now.secondOfDay < s.secondOfDay ∧
        (now.since s).total = apart - second) ∨
      (¬ (s.isLeap = true ∧ s.secondOfDay < now.secondOfDay) ∧
        ¬ (now.isLeap = true ∧ now.secondOfDay < s.secondOfDay) ∧
        (now.since s).total = apart) := by
  intro apart
  simp only [since, Span.total, Bool.and_eq_true, decide_eq_true_eq, second, apart]
  split_ifs with hpast hnow
  · exact Or.inl ⟨hpast.2, hpast.1, by omega⟩
  · exact Or.inr (Or.inl ⟨hnow.2, hnow.1, by omega⟩)
  · exact Or.inr (Or.inr ⟨fun h => hpast ⟨h.2, h.1⟩, fun h => hnow ⟨h.2, h.1⟩, by omega⟩)

theorem order_of_total (hnow : now.nanos < 2 * second) (ht : t.Written) :
    (0 ≤ (now.since t).total →
        now.lt t = false ∨ now.ClosesDay ∧ t.seconds = now.seconds + 1) ∧
      (0 < (now.since t).total →
        t.lt now = true ∨ now.ClosesDay ∧ t.seconds = now.seconds + 1) := by
  obtain ⟨ht, hend⟩ := ht
  have hcases := total_since_cases now t
  simp only [lt_iff, lt_eq_false_iff, ClosesDay, isLeap_iff, secondOfDay, second] at *
  rcases hcases with ⟨_, _, _⟩ | ⟨_, _, _⟩ | ⟨_, _, _⟩ <;> omega

theorem total_of_order (hnow : now.nanos < 2 * second) (hs : s.nanos < 2 * second)
    (hclear : ¬ Blurred now s) :
    (now.lt s = false → 0 ≤ (now.since s).total) ∧
      (s.lt now = true → 0 < (now.since s).total) := by
  have hcases := total_since_cases now s
  simp only [lt_iff, lt_eq_false_iff, Blurred, ClosesDay, isLeap_iff, secondOfDay, second] at *
  rcases hcases with ⟨_, _, _⟩ | ⟨_, _, _⟩ | ⟨_, _, _⟩ <;> omega

/-- In the first second after a leap second that ends a day nothing leaps, so spans back from that
leap second are ordered like the instants. -/
theorem total_le_of_same_second (hs : s.Written) (ht : t.Written) (hclose : now.ClosesDay)
    (hsNext : s.seconds = now.seconds + 1) (htNext : t.seconds = now.seconds + 1)
    (hle : t.lt s = false) : (now.since t).total ≤ (now.since s).total := by
  have hsEnd := hs.minuteEnd
  have htEnd := ht.minuteEnd
  have hcs := total_since_cases now s
  have hct := total_since_cases now t
  simp only [lt_eq_false_iff, ClosesDay, isLeap_iff, secondOfDay, second] at *
  rcases hcs with ⟨_, _, _⟩ | ⟨_, _, _⟩ | ⟨_, _, _⟩ <;>
    rcases hct with ⟨_, _, _⟩ | ⟨_, _, _⟩ | ⟨_, _, _⟩ <;> omega

theorem lt_of_lt_next (hclose : now.ClosesDay) (hclear : ¬ Blurred now s)
    (htNext : t.seconds = now.seconds + 1) (hsNext : s.seconds ≠ now.seconds + 1)
    (hle : t.lt s = false) : s.lt now = true := by
  simp only [lt_iff, lt_eq_false_iff, Blurred, ClosesDay, isLeap_iff, secondOfDay] at *
  omega

/-- What lies before a past instant is past, and before the present instant not in the future. -/
theorem total_of_total (hnow : now.nanos < 2 * second) (hs : s.Written) (ht : t.Written)
    (hle : t.lt s = false) (hclear : ¬ Blurred now s) :
    (0 ≤ (now.since t).total → 0 ≤ (now.since s).total) ∧
      (0 < (now.since t).total → 0 < (now.since s).total) := by
  obtain ⟨hpresent, hpast⟩ := order_of_total hnow ht
  obtain ⟨hpresent', hpast'⟩ := total_of_order hnow hs.nanos_lt hclear
  constructor
  · intro htotal
    rcases hpresent htotal with horder | ⟨hclose, htNext⟩
    · exact hpresent' (by rw [lt_eq_false_iff] at *; omega)
    · by_cases hsNext : s.seconds = now.seconds + 1
      · exact htotal.trans (total_le_of_same_second hs ht hclose hsNext htNext hle)
      · exact (hpast' (lt_of_lt_next hclose hclear htNext hsNext hle)).le
  · intro htotal
    rcases hpast htotal with horder | ⟨hclose, htNext⟩
    · exact hpast' (by rw [lt_eq_false_iff] at hle; rw [lt_iff] at *; omega)
    · by_cases hsNext : s.seconds = now.seconds + 1
      · exact htotal.trans_le (total_le_of_same_second hs ht hclose hsNext htNext hle)
      · exact hpast' (lt_of_lt_next hclose hclear htNext hsNext hle)

/-! ## Whole days -/

def addDays (t : Timestamp) (n : Int) : Timestamp :=
  { t with seconds := t.seconds + 86400 * n }

theorem secondOfDay_addDays (t : Timestamp) (n : Int) :
    (t.addDays n).secondOfDay = t.secondOfDay :=
  Int.add_mul_emod_self_left ..

theorem total_since_addDays (now t : Timestamp) (n : Int) :
    (now.since (t.addDays n)).total = (now.since t).total - Span.nanosPerDay * n := by
  have hleap : (t.addDays n).isLeap = t.isLeap := rfl
  simp only [since, Span.total, secondOfDay_addDays, hleap, Span.nanosPerDay]
  simp only [addDays]
  ring

theorem Written.addDays (ht : t.Written) (n : Int) : (t.addDays n).Written where
  nanos_lt := ht.nanos_lt
  minuteEnd hleap := by
    have hend := ht.minuteEnd hleap
    simp only [Timestamp.addDays]
    omega

theorem lt_addDays (s t : Timestamp) (n : Int) : (s.addDays n).lt (t.addDays n) = s.lt t := by
  rw [Bool.eq_iff_iff]
  simp only [lt_iff, addDays]
  omega

theorem blurred_addDays (now s : Timestamp) (n : Int) :
    Blurred now (s.addDays n) ↔ Blurred now s := by
  simp only [Blurred, ClosesDay, secondOfDay_addDays]
  rfl

/-- Shifted by whole days, instants keep their time of day, so what holds of the present holds of
every number of days. -/
theorem total_reaches (hnow : now.nanos < 2 * second) (hs : s.Written) (ht : t.Written)
    (hle : t.lt s = false) (hclear : ¬ Blurred now s) (n : Int) :
    (Span.nanosPerDay * n ≤ (now.since t).total → Span.nanosPerDay * n ≤ (now.since s).total) ∧
      (Span.nanosPerDay * n < (now.since t).total →
        Span.nanosPerDay * n < (now.since s).total) := by
  have hshifted := total_of_total hnow (hs.addDays n) (ht.addDays n) (by rwa [lt_addDays])
    (by rwa [blurred_addDays])
  simp only [total_since_addDays] at hshifted
  omega

/-- A later instant has not been left behind for more days. -/
theorem wholeDays_since_le (hnow : now.nanos < 2 * second) (hs : s.Written) (ht : t.Written)
    (hle : t.lt s = false) (hclear : ¬ Blurred now s) :
    (now.since t).wholeDays ≤ (now.since s).wholeDays := by
  have hnanos : ∀ earlier, (now.since earlier).nanos < second := by
    intro earlier
    simp only [since, second]
    omega
  rw [Span.le_wholeDays_iff (hnanos s)]
  rcases (Span.le_wholeDays_iff (hnanos t)).mp le_rfl with ⟨hpos, hreached⟩ | ⟨hneg, hexceeded⟩
  · exact Or.inl ⟨hpos, (total_reaches hnow hs ht hle hclear _).1 hreached⟩
  · exact Or.inr ⟨hneg, (total_reaches hnow hs ht hle hclear _).2 hexceeded⟩

end Timestamp
end RepoAudit
