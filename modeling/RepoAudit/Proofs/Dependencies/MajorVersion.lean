import RepoAudit.Dependencies.VersionSpec
import RepoAudit.Proofs.Decimal.Unsigned
import RepoAudit.Proofs.Pattern.Preferred
import RepoAudit.Proofs.Text.Words

/-!
# The major version of a specification

A requirement that can be read has its first digits right behind an operator, and what follows them
is no digit.  So its major version is the number that a search for digits finds, and it does not
matter which of the two ways a specification is read.
-/

namespace RepoAudit.VersionSpec

variable {t rest spec : Text} {n : Nat} {majors : List Nat}

/-! ## The first run of digits -/

theorem firstNumber?_eq (t : Text) :
    firstNumber? t = (Text.runs isDecimal t).head?.bind fun run =>
      (Decimal.readUnsigned UInt64.size run).toOption := by
  rw [← Pattern.firstFrom_many1 isDecimal [] t, Option.bind_map]
  rfl

theorem firstNumber?_congr {s : Text} (h : Text.runs isDecimal s = Text.runs isDecimal t) :
    firstNumber? s = firstNumber? t := by
  rw [firstNumber?_eq, firstNumber?_eq, h]

theorem firstNumber?_eq_some_iff :
    firstNumber? t = some n ↔ ∃ run, (Text.runs isDecimal t).head? = some run ∧
      (∀ c ∈ run, c.isDigit = true) ∧ Decimal.digitsValue 0 run = n ∧ n < UInt64.size := by
  rw [firstNumber?_eq, Option.bind_eq_some_iff]
  refine exists_congr fun run => and_congr_right fun hhead => ?_
  have hrun : run ∈ Text.runs isDecimal t := List.mem_of_head? hhead
  obtain ⟨hpiece, hne⟩ := List.mem_filter.mp hrun
  have hall : ∀ c ∈ run, isDecimal c = true := by
    intro c hc
    simpa using Text.cut_eq_false_of_mem_splitBy hpiece c hc
  rw [← Decimal.readUnsigned_eq_ok_iff (by decide) (by simpa using hne) hall]
  cases Decimal.readUnsigned UInt64.size run <;> simp [Except.toOption]

/-! ## Requirements -/

theorem runs_skipSpaces (t : Text) :
    Text.runs isDecimal (skipSpaces t) = Text.runs isDecimal t := by
  apply Text.runs_dropWhile
  simp only [beq_iff_eq]
  rintro c rfl
  rfl

theorem runs_dropOperator (t : Text) :
    Text.runs isDecimal (dropOperator t) = Text.runs isDecimal t := by
  fun_cases dropOperator t <;> rfl

theorem runs_of_wildcard? (h : wildcard? t = some rest) :
    Text.runs isDecimal t = Text.runs isDecimal rest := by
  unfold wildcard? at h
  split at h
  · cases h
    rfl
  · cases h
    rfl
  · cases h
    rfl
  · cases h

theorem number?_eq_some (h : number? t = some (n, rest)) :
    ∃ digits, digits ≠ [] ∧ (∀ c ∈ digits, c.isDigit = true) ∧ t = digits ++ rest ∧
      Decimal.readUnsigned UInt64.size digits = .ok n := by
  have hcut : t.takeWhile Char.isDigit ++ t.drop (t.takeWhile Char.isDigit).length = t :=
    List.prefix_iff_eq_append.mp (List.takeWhile_prefix Char.isDigit)
  unfold number? at h
  dsimp only at h
  split at h
  · cases h
  · cases h
  · next hne _ =>
      split at h
      · next value hvalue =>
          obtain ⟨rfl, rfl⟩ := Prod.mk.inj (Option.some.inj h)
          exact ⟨_, hne, fun c hc => List.mem_takeWhile_imp hc, hcut.symm, hvalue⟩
      · cases h

theorem afterMajor?_eq_some (h : afterMajor? t = some rest) : t.head? = some '.' ∨ rest = t := by
  unfold afterMajor? at h
  split at h
  · exact .inl rfl
  · exact .inr (Option.some.inj h).symm

/-- The digits of the first part end at a point, at a space or where the comparator does. -/
theorem firstNumber?_of_comparator? (h : comparator? t = some (n, rest))
    (hrest : ∀ c ∈ rest.head?, isDecimal c = false) : firstNumber? t = some n := by
  unfold comparator? at h
  obtain ⟨⟨major, tail⟩, hnumber, h⟩ := Option.bind_eq_some_iff.mp h
  obtain ⟨after, hafter, h⟩ := Option.bind_eq_some_iff.mp h
  obtain ⟨rfl, rfl⟩ := Prod.mk.inj (Option.some.inj h)
  obtain ⟨digits, hne, hdigits, hcut, hvalue⟩ := number?_eq_some hnumber
  have htail : ∀ c ∈ tail.head?, isDecimal c = false := by
    rcases afterMajor?_eq_some hafter with hpoint | rfl
    · rw [hpoint]
      rintro c ⟨⟩
      rfl
    · cases after with
      | nil => simp
      | cons c after =>
          rintro d ⟨⟩
          by_cases hspace : c = ' '
          · rw [hspace]
            rfl
          · apply hrest
            rw [skipSpaces, List.dropWhile_cons_of_neg (by simpa using hspace)]
            rfl
  have hruns : Text.runs isDecimal t = digits :: Text.runs isDecimal tail := by
    rw [← runs_dropOperator, ← runs_skipSpaces, hcut]
    exact Text.runs_append hne (fun c hc => Decimal.isDecimal_of_isDigit (hdigits c hc)) htail
  rw [firstNumber?_eq, hruns, List.head?_cons, Option.bind_some, hvalue]
  rfl

theorem comparators?_head? {limit : Nat} (h : comparators? limit t = some majors) :
    majors.head? = firstNumber? t := by
  cases limit with
  | zero => cases h
  | succ limit =>
      unfold comparators? at h
      obtain ⟨⟨major, rest⟩, hfirst, h⟩ := Option.bind_eq_some_iff.mp h
      dsimp only at h
      split at h
      · cases h
        exact (firstNumber?_of_comparator? hfirst (by simp)).symm
      · obtain ⟨others, -, h⟩ := Option.bind_eq_some_iff.mp h
        cases h
        refine (firstNumber?_of_comparator? hfirst ?_).symm
        rintro c ⟨⟩
        rfl
      · cases h

theorem majors?_head? (h : majors? t = some majors) : majors.head? = firstNumber? t := by
  unfold majors? at h
  dsimp only at h
  rw [← firstNumber?_congr (runs_skipSpaces t)]
  split at h
  · next rest hwildcard =>
      split at h
      · next hspaces =>
          cases h
          have hnone : Text.runs isDecimal (skipSpaces t) = [] := by
            rw [runs_of_wildcard? hwildcard, ← runs_skipSpaces, List.isEmpty_iff.mp hspaces]
            rfl
          rw [firstNumber?_eq, hnone]
          rfl
      · cases h
  · exact comparators?_head? h

/-! ## Specifications -/

theorem firstNumber?_trim (spec : Text) : firstNumber? spec.trim = firstNumber? spec := by
  have hblank : ∀ n ∈ Text.blankCodes, isDecimal (Char.ofNat n) = false := by
    decide +kernel
  exact firstNumber?_congr (Text.runs_trim (fun _ => Text.of_isBlank hblank) spec)

theorem major?_eq_firstNumber? (h : isUnversioned spec.trim = false) :
    major? spec = firstNumber? spec.trim := by
  have hmark : Text.runs isDecimal (spec.trim.dropWhile fun c => c == 'v' || c == 'V') =
      Text.runs isDecimal spec.trim := by
    apply Text.runs_dropWhile
    simp only [Bool.or_eq_true, beq_iff_eq]
    rintro c (rfl | rfl) <;> rfl
  unfold major?
  dsimp only
  rw [h, if_neg Bool.false_ne_true]
  split
  · next majors hmajors =>
      rw [majors?_head? hmajors, firstNumber?_congr hmark]
  · rfl

/-- A specification that names a version asks for the number that its first digits write. -/
theorem majorVersion_first_run (h : isUnversioned spec.trim = false) :
    major? spec = firstNumber? spec.trim ∧
      ∀ n, major? spec = some n ↔ ∃ run, (Text.runs isDecimal spec).head? = some run ∧
        (∀ c ∈ run, c.isDigit = true) ∧ Decimal.digitsValue 0 run = n ∧ n < UInt64.size := by
  refine ⟨major?_eq_firstNumber? h, fun n => ?_⟩
  rw [major?_eq_firstNumber? h, firstNumber?_trim]
  exact firstNumber?_eq_some_iff

theorem twelve_of_range :
    isUnversioned (Text.trim " >=12.4, <13".toList) = false ∧
      major? " >=12.4, <13".toList = some 12 := by
  have hversioned : isUnversioned (Text.trim " >=12.4, <13".toList) = false := by
    decide +kernel
  refine ⟨hversioned, ((majorVersion_first_run hversioned).2 12).mpr ⟨"12".toList, ?_, ?_, ?_, ?_⟩⟩
  · decide +kernel
  · exact List.all_eq_true.mp rfl
  · decide
  · decide

end RepoAudit.VersionSpec
