import RepoAudit.Licenses.Recognition
import RepoAudit.Proofs.Text.LetterCase
import RepoAudit.Proofs.Text.Lines
import RepoAudit.Proofs.Text.Search
import Mathlib.Tactic

/-!
# Families of licenses named by titles

The license of a text with a title depends on the title lines alone, and on these only up to the
blanks around them and the case of their letters.  It is one of the first family that is named
there, whatever the lines below say.
-/

namespace RepoAudit.LicenseText

open Text

/-! ## Title lines -/

/-- The lines with a title: the first ones that are not blank.  What stands before a line feed is
the line, and a carriage return there is a blank at its end. -/
def titleRows (t : Text) : List Text :=
  ((t.splitBy (· == '\n')).filter (!isBlankLine ·)).take titleLines

/-- The line is the given text with blanks before and behind it. -/
def Shows (line t : Text) : Prop :=
  ∃ lead trail : Text, (∀ c ∈ lead, isBlank c = true) ∧ (∀ c ∈ trail, isBlank c = true) ∧
    line = lead ++ (t ++ trail)

/-- The lines differ at most in the blanks around them and in the case of letters. -/
def SameLine (a b : Text) : Prop :=
  ∃ s t, Shows a s ∧ Shows b t ∧ SameLetters s t

variable {t u line : Text}

theorem trim_of_shows (h : Shows line t) : line.trim = t.trim := by
  obtain ⟨lead, trail, hlead, htrail, rfl⟩ := h
  rw [trim_blank_append hlead, trim_append_blank htrail]

theorem sameLine_iff {a b : Text} : SameLine a b ↔ a.trim.upper = b.trim.upper := by
  constructor
  · rintro ⟨s, t, ha, hb, hletters⟩
    rw [trim_of_shows ha, trim_of_shows hb, upper_trim s, upper_trim t, upper_eq_iff.mpr hletters]
  · intro h
    exact ⟨a.trim, b.trim, exists_eq_trim a, exists_eq_trim b, upper_eq_iff.mp h⟩

theorem map_trim_lines (t : Text) :
    (t.lines.map trim).filter (!·.isEmpty) =
      ((t.splitBy (· == '\n')).filter (!isBlankLine ·)).map trim := by
  have hne := splitBy_ne_nil (· == '\n') t
  obtain ⟨init, last, hsplit⟩ := (List.eq_nil_or_concat' (t.splitBy (· == '\n'))).resolve_left hne
  have hrows : ∀ row ∈ init ++ [last], '\n' ∉ row := by
    intro row hrow hmem
    have hcut := cut_eq_false_of_mem_splitBy (hsplit ▸ hrow) '\n' hmem
    cases hcut
  rw [List.forall_mem_append, List.forall_mem_singleton] at hrows
  have ht : t = unlines init ++ last := by
    have hwhole : t ++ ['\n'] = unlines init ++ last ++ ['\n'] := by
      rw [← unlines_splitBy, hsplit]
      simp [unlines]
    exact List.append_cancel_right hwhole
  have hlast : (last.lines.map trim).filter (!·.isEmpty) = ([last].map trim).filter (!·.isEmpty) := by
    rcases eq_or_ne last [] with rfl | hlast
    · rfl
    · rw [lines_of_not_mem hrows.2 hlast]
  have hinit : (init.map dropReturn).map trim = init.map trim := by
    rw [List.map_map]
    exact List.map_congr_left fun row _ => trim_dropReturn row
  calc
    (t.lines.map trim).filter (!·.isEmpty)
        = (((init ++ [last]).map trim).filter (!·.isEmpty)) := by
      rw [ht, lines_unlines_append hrows.1, List.map_append, List.filter_append, hinit, hlast,
        List.map_append, List.filter_append]
    _ = (((init ++ [last]).filter (!isBlankLine ·)).map trim) := by
      rw [List.filter_map]
      simp only [Function.comp_def, isEmpty_trim]
    _ = _ := by rw [hsplit]

theorem heading_eq (t : Text) :
    heading t = join ['\n'] ((titleRows t).map fun row => row.trim.upper) := by
  rw [heading, map_trim_lines, ← List.map_take, upper_join, List.map_map]
  rfl

theorem heading_congr (h : List.Forall₂ SameLine (titleRows t) (titleRows u)) :
    heading t = heading u := by
  have hrows : (titleRows t).map (fun row => row.trim.upper) =
      (titleRows u).map fun row => row.trim.upper := by
    rw [map_eq_map_iff_forall₂]
    exact h.imp fun _ _ => sameLine_iff.mp
  rw [heading_eq, heading_eq, hrows]

/-! ## Titles -/

/-- The families of licenses that have a title. -/
inductive TitledFamily where
  | mozilla
  | affero
  | lesser
  | general
  | apache

namespace TitledFamily

def titles : TitledFamily → List String
  | mozilla => ["MOZILLA PUBLIC LICENSE"]
  | affero => ["GNU AFFERO GENERAL PUBLIC LICENSE"]
  | lesser => ["GNU LESSER GENERAL PUBLIC LICENSE", "GNU LIBRARY GENERAL PUBLIC LICENSE"]
  | general => ["GNU GENERAL PUBLIC LICENSE"]
  | apache => ["APACHE LICENSE"]

def licenses : TitledFamily → List LicenseId
  | mozilla => [.mpl2]
  | affero => [.agpl3]
  | lesser => [.lgpl21, .lgpl3]
  | general => [.gpl2, .gpl3]
  | apache => [.apache2]

/-- A title of a lower rank is looked for first. -/
def rank : TitledFamily → Nat
  | mozilla => 0
  | affero => 1
  | lesser => 2
  | general => 3
  | apache => 4

/-- A title of the family stands in one of the title lines, in letters of any case. -/
def IsNamedIn (f : TitledFamily) (t : Text) : Prop :=
  ∃ row ∈ titleRows t, ∃ title ∈ f.titles, ∃ piece, piece <:+: row ∧
    SameLetters piece title.toList

structure IsFirstNamedIn (f : TitledFamily) (t : Text) : Prop where
  named : f.IsNamedIn t
  first : ∀ g : TitledFamily, g.rank < f.rank → ¬ g.IsNamedIn t

end TitledFamily

open TitledFamily

/-- A title is in capital letters, in one line, and neither begins nor ends with a blank. -/
structure IsTitle (title : Text) : Prop where
  capital : title.upper = title
  oneLine : '\n' ∉ title
  head : (title.head?.any fun c => !isBlank c) = true
  last : (title.getLast?.any fun c => !isBlank c) = true

theorem isTitle_of_mem {f : TitledFamily} {title : String} (h : title ∈ f.titles) :
    IsTitle title.toList := by
  have hchecked : ∀ title ∈ f.titles, upper title.toList = title.toList ∧ '\n' ∉ title.toList ∧
      (title.toList.head?.any fun c => !isBlank c) = true ∧
      (title.toList.getLast?.any fun c => !isBlank c) = true := by
    cases f <;> decide
  obtain ⟨hcapital, hline, hhead, hlast⟩ := hchecked title h
  exact ⟨hcapital, hline, hhead, hlast⟩

namespace IsTitle

variable {title : Text}

theorem infix_trim_iff (h : IsTitle title) (row : Text) :
    title <:+: row.trim ↔ title <:+: row := by
  obtain ⟨lead, trail, hlead, htrail, hrow⟩ := exists_eq_trim row
  obtain ⟨first, hfirst, hfirstBlank⟩ := (Option.any_eq_true _ _).mp h.head
  obtain ⟨rest, rfl⟩ := List.head?_eq_some_iff.mp hfirst
  have hnotLead : first ∉ lead := by
    intro hmem
    simp [hlead first hmem] at hfirstBlank
  have hnotTrail : ∃ c ∈ (first :: rest).getLast?, c ∉ trail := by
    obtain ⟨last, hlast, hlastBlank⟩ := (Option.any_eq_true _ _).mp h.last
    refine ⟨last, hlast, ?_⟩
    intro hmem
    simp [htrail last hmem] at hlastBlank
  calc
    first :: rest <:+: row.trim ↔ first :: rest <:+: row.trim ++ trail :=
      (infix_append_right_iff hnotTrail row.trim).symm
    _ ↔ first :: rest <:+: lead ++ (row.trim ++ trail) :=
      (Passes.of_not_mem hnotLead).infix_append_iff.symm
    _ ↔ first :: rest <:+: row := by rw [← hrow]

theorem infix_upper_iff (h : IsTitle title) (row : Text) :
    title <:+: row.upper ↔ ∃ piece, piece <:+: row ∧ SameLetters piece title := by
  unfold upper
  rw [List.infix_map_iff]
  constructor
  · rintro ⟨piece, hpiece, heq⟩
    exact ⟨piece, hpiece, upper_eq_iff.mp (heq.symm.trans h.capital.symm)⟩
  · rintro ⟨piece, hpiece, hletters⟩
    exact ⟨piece, hpiece, (upper_eq_iff.mpr hletters).trans h.capital |>.symm⟩

theorem infix_heading_iff (h : IsTitle title) (t : Text) :
    title <:+: heading t ↔ ∃ row ∈ titleRows t, ∃ piece, piece <:+: row ∧
      SameLetters piece title := by
  have hne : title ≠ [] := by
    rintro rfl
    cases h.head
  rw [heading_eq, infix_join_iff h.oneLine hne]
  simp only [List.mem_map, exists_exists_and_eq_and, upper_trim, h.infix_trim_iff,
    h.infix_upper_iff]

end IsTitle

theorem containsAny_heading_iff (f : TitledFamily) (t : Text) :
    (heading t).containsAny f.titles = true ↔ f.IsNamedIn t := by
  simp only [containsAny, List.any_eq_true, contains_iff, IsNamedIn]
  constructor
  · rintro ⟨title, htitle, hheading⟩
    obtain ⟨row, hrow, hpiece⟩ := ((isTitle_of_mem htitle).infix_heading_iff t).mp hheading
    exact ⟨row, hrow, title, htitle, hpiece⟩
  · rintro ⟨row, hrow, title, htitle, hpiece⟩
    exact ⟨title, htitle, ((isTitle_of_mem htitle).infix_heading_iff t).mpr ⟨row, hrow, hpiece⟩⟩

/-! ## The family that decides -/

theorem exists_isFirstNamedIn (h : ∃ f : TitledFamily, f.IsNamedIn t) :
    ∃ f : TitledFamily, f.IsFirstNamedIn t := by
  obtain ⟨f, hf, hleast⟩ := WellFounded.has_min (measure rank).wf {f | f.IsNamedIn t} h
  exact ⟨f, hf, fun g hlt hg => hleast g hg hlt⟩

theorem exists_ofHeading?_of_first {f : TitledFamily} (hnamed : t.containsAny f.titles = true)
    (hfirst : ∀ g : TitledFamily, g.rank < f.rank → t.containsAny g.titles = false) :
    ∃ id ∈ f.licenses, ofHeading? t = some id := by
  unfold ofHeading?
  cases f with
  | mozilla => exact ⟨.mpl2, by decide, if_pos hnamed⟩
  | affero =>
      have hmozilla := hfirst mozilla (by decide)
      simp only [titles] at hnamed hmozilla
      simp [hnamed, hmozilla, licenses]
  | lesser =>
      have hmozilla := hfirst mozilla (by decide)
      have haffero := hfirst affero (by decide)
      simp only [titles] at hnamed hmozilla haffero
      simp only [hnamed, hmozilla, haffero, Bool.false_eq_true, if_false, if_true]
      refine ⟨_, ?_, rfl⟩
      split <;> decide
  | general =>
      have hmozilla := hfirst mozilla (by decide)
      have haffero := hfirst affero (by decide)
      have hlesser := hfirst lesser (by decide)
      simp only [titles] at hnamed hmozilla haffero hlesser
      simp only [hnamed, hmozilla, haffero, hlesser, Bool.false_eq_true, if_false, if_true]
      refine ⟨_, ?_, rfl⟩
      split <;> decide
  | apache =>
      have hmozilla := hfirst mozilla (by decide)
      have haffero := hfirst affero (by decide)
      have hlesser := hfirst lesser (by decide)
      have hgeneral := hfirst general (by decide)
      simp only [titles] at hnamed hmozilla haffero hlesser hgeneral
      simp [hnamed, hmozilla, haffero, hlesser, hgeneral, licenses]

/-- Texts with the same title lines, whose blanks around and letter cases may differ, are texts of
one license, and it is one of the first family named there. -/
theorem recognize?_of_same_titles (hsame : List.Forall₂ SameLine (titleRows t) (titleRows u))
    (hnamed : ∃ f : TitledFamily, f.IsNamedIn t) :
    ∃ (f : TitledFamily) (id : LicenseId), f.IsFirstNamedIn t ∧ id ∈ f.licenses ∧
      recognize? t = some id ∧ recognize? u = some id := by
  obtain ⟨f, hf⟩ := exists_isFirstNamedIn hnamed
  obtain ⟨id, hid, hheading⟩ := exists_ofHeading?_of_first
    ((containsAny_heading_iff f t).mpr hf.named) fun g hlt => by
      rw [← Bool.not_eq_true, containsAny_heading_iff]
      exact hf.first g hlt
  have ht : recognize? t = some id := by
    rw [recognize?, hheading]
    rfl
  have hu : recognize? u = some id := by
    rw [recognize?, ← heading_congr hsame, hheading]
    rfl
  exact ⟨f, id, hf, hid, ht, hu⟩

/-- The title of the lesser license, which names the general one in its third line. -/
def lesserThird : Text :=
  ("GNU Lesser General Public License\nVersion 3\nadds to the GNU General Public License\n" ++
    "MIT License").toList

/-- The same title with other line ends, blanks and capitals above another text. -/
def lesserThirdSpaced : Text :=
  ("\r\n  GNU LESSER GENERAL PUBLIC LICENSE\r\n\t\r\n\tversion 3 \r\n" ++
    "Adds to the gnu General Public License\r\nMozilla Public License").toList

theorem lesserThird_spaced :
    List.Forall₂ SameLine (titleRows lesserThird) (titleRows lesserThirdSpaced) ∧
      ∃ (f : TitledFamily) (id : LicenseId), f.IsFirstNamedIn lesserThird ∧ id ∈ f.licenses ∧
        recognize? lesserThird = some id ∧ recognize? lesserThirdSpaced = some id := by
  have hrows : titleRows lesserThird = ["GNU Lesser General Public License".toList,
      "Version 3".toList, "adds to the GNU General Public License".toList] := by decide +kernel
  have hspaced : titleRows lesserThirdSpaced = ["  GNU LESSER GENERAL PUBLIC LICENSE\r".toList,
      "\tversion 3 \r".toList, "Adds to the gnu General Public License\r".toList] := by
    decide +kernel
  have hsame : List.Forall₂ SameLine (titleRows lesserThird) (titleRows lesserThirdSpaced) := by
    rw [hrows, hspaced]
    refine .cons ?_ (.cons ?_ (.cons ?_ .nil)) <;> exact sameLine_iff.mpr (by decide +kernel)
  refine ⟨hsame, recognize?_of_same_titles hsame ⟨lesser, ?_⟩⟩
  rw [← containsAny_heading_iff, heading_eq, hrows]
  decide +kernel

end RepoAudit.LicenseText
