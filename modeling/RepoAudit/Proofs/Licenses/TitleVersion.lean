import RepoAudit.Licenses.Recognition
import RepoAudit.Proofs.Pattern.Matches
import RepoAudit.Proofs.Pattern.Preferred
import RepoAudit.Proofs.Text.Search
import Mathlib

/-!
# Versions in the titles of copyleft licenses

A license of the GNU family is recognized by its title, and its version by the first one that the
title lines state.  That version is compared as text: for each family one numeral is told from all
others, so a version with a minor part counts as one of the others.
-/

namespace RepoAudit

open Pattern

namespace LicenseText

/-! ## The first version -/

/-- The value of a decimal digit.  Past ASCII the digits stand in blocks from zero to nine. -/
def digitWorth (c : Char) : Nat :=
  if c.toNat < 128 then c.toNat - 48
  else
    let boundaries := WordChar.digitBoundaries
    let passed := CharClass.countUpTo boundaries c.toNat 16 0 boundaries.size
    (c.toNat - boundaries.getD (passed - 1) 0) % 10

def numeralValue (digits : Text) : Nat :=
  digits.foldl (fun value c => value * 10 + digitWorth c) 0

def IsNumeral (digits : Text) : Prop :=
  digits ≠ [] ∧ ∀ c ∈ digits, isDecimal c = true

def versionText (major : Text) : (minor : Option Text) → Text
  | none => major
  | some minor => major ++ '.' :: minor

/-- A version that is taken whole when `after` follows it. -/
structure IsWholeVersion (major : Text) (minor : Option Text) (after : Text) : Prop where
  majorNumeral : IsNumeral major
  minorNumeral : ∀ digits ∈ minor, IsNumeral digits
  ends : ∀ c ∈ after.head?, isDecimal c = false
  /-- What follows a version without a minor part is not one. -/
  noMinor : minor = none → ∀ c rest, after = '.' :: c :: rest → isDecimal c = false

/-- The version stands first in the text, between `before` and `after`. -/
structure IsFirstVersion (t before major : Text) (minor : Option Text) (after : Text) : Prop
    extends IsWholeVersion major minor after where
  text : t = before ++ ("VERSION ".toList ++ (versionText major minor ++ after))
  first : ∀ lead c trail, t = lead ++ ("VERSION ".toList ++ c :: trail) → isDecimal c = true →
    before.length ≤ lead.length

variable {t before major after rest : Text} {minor : Option Text} {α : Type} {a : α}
  {groups : List (Nat × Cursor × Cursor)}

def number : Pattern :=
  .seq (many1 isDecimal) (perhaps (.seq (char '.') (many1 isDecimal)))

theorem advance_number {next : Progress → Option α} (h : IsWholeVersion major minor after)
    (hnext : next ⟨⟨(versionText major minor).reverse ++ before, after⟩, groups⟩ = some a) :
    number.advance ⟨⟨before, versionText major minor ++ after⟩, groups⟩ next = some a := by
  obtain ⟨hmajor, hminor, hends, hwhole⟩ := h
  cases minor with
  | none =>
      apply advance_many1 hmajor.1 hmajor.2 hends
      have hnone : ∀ q, ¬ (Pattern.seq (char '.') (many1 isDecimal)).Takes
          ⟨⟨major.reverse ++ before, after⟩, groups⟩ q := by
        intro q htakes
        obtain ⟨r, hpoint, hdigits⟩ := takes_seq.mp htakes
        obtain ⟨hreads, -⟩ := takes_char.mp hpoint
        obtain ⟨c, trail, hrest, hc⟩ := exists_cons_of_takes_many1 hdigits
        have hafter : after = '.' :: c :: trail := by
          rw [show after = ['.'] ++ r.cursor.rest from hreads.rest, hrest]
          rfl
        rw [hwhole rfl c trail hafter] at hc
        cases hc
      change (_ <|> next ⟨⟨major.reverse ++ before, after⟩, groups⟩) = some a
      rw [advance_eq_none hnone]
      exact hnext
  | some digits =>
      have hdigits := hminor digits rfl
      have hpoint : ∀ c ∈ ('.' :: (digits ++ after)).head?, isDecimal c = false := by
        rintro c ⟨⟩
        decide +kernel
      unfold versionText at hnext ⊢
      rw [List.append_assoc, List.cons_append]
      apply advance_many1 hmajor.1 hmajor.2 hpoint
      have hminor : (many1 isDecimal).advance
          ⟨⟨'.' :: (major.reverse ++ before), digits ++ after⟩, groups⟩ next = some a := by
        apply advance_many1 hdigits.1 hdigits.2 hends
        simpa using hnext
      change ((many1 isDecimal).advance
        ⟨⟨'.' :: (major.reverse ++ before), digits ++ after⟩, groups⟩ next <|> _) = some a
      rw [hminor]
      rfl

theorem matchAt_versionMark (before : Text) (h : IsWholeVersion major minor after) :
    ∃ m, versionMark.matchAt ⟨before, "VERSION ".toList ++ (versionText major minor ++ after)⟩ =
        some m ∧
      m.group? 1 = some (versionText major minor) := by
  let origin : Cursor := ⟨before, "VERSION ".toList ++ (versionText major minor ++ after)⟩
  let start : Cursor :=
    ⟨"VERSION ".toList.reverse ++ before, versionText major minor ++ after⟩
  let stop : Cursor := ⟨(versionText major minor).reverse ++ start.before, after⟩
  have hreads : start.Reads (versionText major minor) stop := ⟨rfl, rfl⟩
  refine ⟨⟨origin, stop, [(1, start, stop)]⟩, ?_, ?_⟩
  · change (literal "VERSION ").advance ⟨origin, []⟩ (fun p => number.advance p fun q =>
      some (Match.mk origin q.cursor ((1, p.cursor, q.cursor) :: q.groups))) = _
    rw [advance_literal]
    exact advance_number h rfl
  · change some (start.upTo stop) = _
    rw [hreads.upTo]

theorem matchAt_versionMark_eq_none
    (h : ∀ c trail, rest = "VERSION ".toList ++ c :: trail → isDecimal c = false) :
    versionMark.matchAt ⟨before, rest⟩ = none := by
  rw [matchAt_eq_none_iff]
  intro q htakes
  obtain ⟨r, hliteral, hgroup⟩ := takes_seq.mp htakes
  obtain ⟨hreads, -⟩ := takes_literal.mp hliteral
  obtain ⟨s, hnumber, -⟩ := takes_group.mp hgroup
  obtain ⟨u, hmajor, -⟩ := takes_seq.mp hnumber
  obtain ⟨c, trail, hdigits, hc⟩ := exists_cons_of_takes_many1 hmajor
  have hrest : rest = "VERSION ".toList ++ c :: trail := by
    rw [show rest = "VERSION ".toList ++ r.cursor.rest from hreads.rest, ← hdigits]
  rw [h c trail hrest] at hc
  cases hc

theorem version?_eq (h : IsFirstVersion t before major minor after) :
    version? t = some (versionText major minor) := by
  obtain ⟨m, hmatch, hgroup⟩ := matchAt_versionMark (before.reverse ++ []) h.toIsWholeVersion
  have hpassed : ∀ tail, tail <:+ before → tail ≠ [] → ∀ above, versionMark.matchAt
      ⟨above, tail ++ ("VERSION ".toList ++ (versionText major minor ++ after))⟩ = none := by
    rintro tail ⟨lead, rfl⟩ hne above
    apply matchAt_versionMark_eq_none
    intro c trail htrail
    by_contra hc
    have hfirst := h.first lead c trail
      (by rw [h.text, List.append_assoc, htrail]) (Bool.eq_true_of_not_eq_false hc)
    rw [List.length_append] at hfirst
    exact hne (List.length_eq_zero_iff.mp (by omega))
  unfold version? first?
  rw [h.text, firstFrom_append hpassed, firstFrom_of_matchAt hmatch]
  exact hgroup

/-! ## Families -/

/-- The license of the family, or the lesser one, which was called the one for libraries. -/
inductive Family where
  | general
  | lesser

def NamesLicense (t : Text) (title : String) : Prop :=
  title.toList <:+: t

def NamesLesser (t : Text) : Prop :=
  NamesLicense t "GNU LESSER GENERAL PUBLIC LICENSE" ∨
    NamesLicense t "GNU LIBRARY GENERAL PUBLIC LICENSE"

namespace Family

def IsNamed (t : Text) : Family → Prop
  | general => NamesLicense t "GNU GENERAL PUBLIC LICENSE" ∧ ¬ NamesLesser t
  | lesser => NamesLesser t

/-- The license by its major version, of which there are two. -/
def license : Family → Nat → LicenseId
  | general, 2 => .gpl2
  | general, _ => .gpl3
  | lesser, 2 => .lgpl21
  | lesser, _ => .lgpl3

/-- The major version that is told from all others. -/
def told : Family → Nat
  | general => 2
  | lesser => 3

/-- The major version that everything else is taken for. -/
def assumed : Family → Nat
  | general => 3
  | lesser => 2

end Family

variable {family : Family}

theorem containsAny_singleton {title : String} :
    t.containsAny [title] = true ↔ NamesLicense t title := by
  simp [Text.containsAny, NamesLicense, Text.contains_iff]

theorem containsAny_lesser : t.containsAny ["GNU LESSER GENERAL PUBLIC LICENSE",
    "GNU LIBRARY GENERAL PUBLIC LICENSE"] = true ↔ NamesLesser t := by
  simp [Text.containsAny, NamesLesser, NamesLicense, Text.contains_iff]

theorem ofHeading?_eq (hmozilla : ¬ NamesLicense t "MOZILLA PUBLIC LICENSE")
    (haffero : ¬ NamesLicense t "GNU AFFERO GENERAL PUBLIC LICENSE") (hnamed : family.IsNamed t) :
    ofHeading? t = some (family.license
      (if version? t = some (toString family.told).toList then family.told
        else family.assumed)) := by
  unfold ofHeading?
  rw [if_neg (mt containsAny_singleton.mp hmozilla), if_neg (mt containsAny_singleton.mp haffero)]
  cases family with
  | general =>
      obtain ⟨htitle, hlesser⟩ := hnamed
      rw [if_neg (mt containsAny_lesser.mp hlesser), if_pos (containsAny_singleton.mpr htitle)]
      change some (if version? t == some ['2'] then LicenseId.gpl2 else .gpl3) =
        some (Family.general.license (if version? t = some ['2'] then 2 else 3))
      by_cases hversion : version? t = some ['2'] <;> simp [hversion, Family.license]
  | lesser =>
      rw [if_pos (containsAny_lesser.mpr hnamed)]
      change some (if version? t == some ['3'] then LicenseId.lgpl3 else .lgpl21) =
        some (Family.lesser.license (if version? t = some ['3'] then 3 else 2))
      by_cases hversion : version? t = some ['3'] <;> simp [hversion, Family.license]

theorem versionText_eq_singleton_iff {c : Char} (hmajor : IsNumeral major) :
    versionText major minor = [c] ↔ major = [c] ∧ minor = none := by
  obtain ⟨first, more, rfl⟩ := List.exists_cons_of_ne_nil hmajor.1
  cases minor with
  | none => simp [versionText]
  | some digits => simp [versionText]

theorem versionText_eq_told_iff (hmajor : IsNumeral major) :
    versionText major minor = (toString family.told).toList ↔
      major = (toString family.told).toList ∧ minor = none := by
  cases family with
  | general => exact versionText_eq_singleton_iff hmajor
  | lesser => exact versionText_eq_singleton_iff hmajor

theorem numeralValue_told : numeralValue (toString family.told).toList = family.told := by
  cases family <;> decide +kernel

theorem told_ne_assumed : family.told ≠ family.assumed := by
  cases family <;> decide

theorem license_told_ne_assumed :
    family.license family.told ≠ family.license family.assumed := by
  cases family <;> decide

theorem eq_told_or_eq_assumed (family : Family) {n : Nat} (hn : n = 2 ∨ n = 3) :
    n = family.told ∨ n = family.assumed := by
  cases family with
  | general => exact hn
  | lesser => exact hn.symm

/-- A version is recognized when it is the numeral told from all others, or when it is the one that
these are taken for. -/
theorem recognize?_of_title {n : Nat}
    (hmozilla : ¬ NamesLicense (heading t) "MOZILLA PUBLIC LICENSE")
    (haffero : ¬ NamesLicense (heading t) "GNU AFFERO GENERAL PUBLIC LICENSE")
    (hnamed : family.IsNamed (heading t))
    (hversion : IsFirstVersion (heading t) before major minor after)
    (hvalue : numeralValue major = n) (hn : n = 2 ∨ n = 3) :
    recognize? t = some (family.license
      (if major = (toString n).toList ∧ minor = none then n else family.assumed)) ∧
    (recognize? t = some (family.license n) ↔
      n = family.assumed ∨ major = (toString n).toList ∧ minor = none) := by
  have hrecognize : recognize? t = some (family.license
      (if major = (toString family.told).toList ∧ minor = none then family.told
        else family.assumed)) := by
    unfold recognize?
    rw [ofHeading?_eq hmozilla haffero hnamed, version?_eq hversion]
    simp only [Option.some.injEq, versionText_eq_told_iff hversion.majorNumeral]
    rfl
  rw [hrecognize, Option.some.injEq, Option.some.injEq]
  rcases eq_told_or_eq_assumed family hn with rfl | rfl
  · by_cases hbare : major = (toString family.told).toList ∧ minor = none
    · rw [if_pos hbare]
      exact ⟨rfl, iff_of_true rfl (Or.inr hbare)⟩
    · rw [if_neg hbare]
      refine ⟨rfl, iff_of_false license_told_ne_assumed.symm ?_⟩
      rintro (htold | hbare')
      · exact told_ne_assumed htold
      · exact hbare hbare'
  · have hother : ¬ (major = (toString family.told).toList ∧ minor = none) := by
      rintro ⟨rfl, -⟩
      exact told_ne_assumed (numeralValue_told.symm.trans hvalue)
    rw [if_neg hother, ite_self]
    exact ⟨rfl, iff_of_true rfl (Or.inl rfl)⟩

/-! ## Two titles -/

theorem isNumeral_singleton {c : Char} (hc : isDecimal c = true) : IsNumeral [c] :=
  ⟨List.cons_ne_nil _ _, List.forall_mem_singleton.mpr hc⟩

theorem isFirstVersion_point {c d : Char} (hc : isDecimal c = true) (hd : isDecimal d = true)
    (hends : after.head?.any isDecimal = false)
    (ht : t = before ++ ("VERSION ".toList ++ (versionText [c] (some [d]) ++ after)))
    (hfirst : ∀ k < before.length, ¬ "VERSION ".toList <+: t.drop k) :
    IsFirstVersion t before [c] (some [d]) after where
  majorNumeral := isNumeral_singleton hc
  minorNumeral := by
    rintro digits ⟨⟩
    exact isNumeral_singleton hd
  ends := by
    rintro c hc
    rwa [Option.mem_def.mp hc] at hends
  noMinor := by
    rintro ⟨⟩
  text := ht
  first lead e trail hlead _ := by
    by_contra hlt
    apply hfirst lead.length (by omega)
    rw [hlead, List.drop_left]
    exact List.prefix_append _ _

instance (t : Text) (title : String) : Decidable (NamesLicense t title) :=
  decidable_of_iff _ Text.contains_iff

def lesserTitle : String :=
  "GNU Lesser General Public License\nVersion 2.1, February 1999\n"

theorem lesserTitle_recognized :
    IsFirstVersion (heading lesserTitle.toList) "GNU LESSER GENERAL PUBLIC LICENSE\n".toList ['2']
        (some ['1']) ", FEBRUARY 1999".toList ∧
      recognize? lesserTitle.toList = some .lgpl21 := by
  have hheading : heading lesserTitle.toList =
      "GNU LESSER GENERAL PUBLIC LICENSE\nVERSION 2.1, FEBRUARY 1999".toList := by cbv
  have hversion : IsFirstVersion (heading lesserTitle.toList)
      "GNU LESSER GENERAL PUBLIC LICENSE\n".toList ['2'] (some ['1'])
      ", FEBRUARY 1999".toList := by
    rw [hheading]
    apply isFirstVersion_point <;> decide +kernel
  refine ⟨hversion, ?_⟩
  have hnamed : Family.lesser.IsNamed (heading lesserTitle.toList) := by
    rw [hheading]
    exact Or.inl (by decide +kernel)
  exact (recognize?_of_title (by rw [hheading]; decide +kernel) (by rw [hheading]; decide +kernel)
    hnamed hversion (by decide +kernel) (Or.inl rfl)).2.mpr (Or.inl rfl)

def generalTitle : String :=
  "GNU GENERAL PUBLIC LICENSE\nVersion 2.0"

/-- The minor part makes the second version the third. -/
theorem generalTitle_mistaken : ∃ before after,
    IsFirstVersion (heading generalTitle.toList) before ['2'] (some ['0']) after ∧
      Family.general.IsNamed (heading generalTitle.toList) ∧
      ¬ NamesLicense (heading generalTitle.toList) "MOZILLA PUBLIC LICENSE" ∧
      ¬ NamesLicense (heading generalTitle.toList) "GNU AFFERO GENERAL PUBLIC LICENSE" ∧
      recognize? generalTitle.toList = some (Family.general.license 3) ∧
      Family.general.license 3 ≠ Family.general.license 2 := by
  have hheading : heading generalTitle.toList =
      "GNU GENERAL PUBLIC LICENSE\nVERSION 2.0".toList := by cbv
  have hrecognize : recognize? generalTitle.toList = some .gpl3 := by
    have hthird : ofHeading? "GNU GENERAL PUBLIC LICENSE\nVERSION 2.0".toList = some .gpl3 := by
      decide +kernel
    unfold recognize?
    rw [hheading, hthird]
    rfl
  rw [hheading]
  refine ⟨"GNU GENERAL PUBLIC LICENSE\n".toList, [], ?_, ⟨?_, ?_⟩, ?_, ?_, hrecognize, by decide⟩
  · apply isFirstVersion_point <;> decide +kernel
  · decide +kernel
  · rintro (hlesser | hlibrary)
    · exact absurd hlesser (by decide +kernel)
    · exact absurd hlibrary (by decide +kernel)
  · decide +kernel
  · decide +kernel

end LicenseText
end RepoAudit
