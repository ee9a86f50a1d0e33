import RepoAudit.Licenses.Identifier
import RepoAudit.Proofs.Text.LetterCase
import RepoAudit.Proofs.Text.Removal
import RepoAudit.Proofs.Text.Words
import Mathlib.Tactic

/-!
# Spellings of one license

The case of letters, blanks around a name, a leading `GNU` and a trailing qualifier say nothing
about which license is meant.  Qualifiers are taken out of the text wherever they occur, and one
behind a name never joins with the end of the name into an occurrence of another.
-/

namespace RepoAudit.LicenseId

open Text

/-- What may be written behind the name of a license. -/
def qualifiers : List String :=
  ["-only", "-or-later", "+", " License"]

/-- The text can be got from `raw` by changes that do not concern the license. -/
inductive Respells (raw : Text) : Text → Prop
  | same : Respells raw raw
  | recased {s t : Text} (hs : Respells raw s) (hletters : SameLetters s t) : Respells raw t
  | spaced {s lead trail : Text} (hs : Respells raw s) (hlead : ∀ c ∈ lead, isBlank c = true)
      (htrail : ∀ c ∈ trail, isBlank c = true) : Respells raw (lead ++ (s ++ trail))
  | prefixed {s : Text} (hs : Respells raw s) : Respells raw ("GNU ".toList ++ s)
  | qualified {s : Text} {qualifier : String} (hs : Respells raw s)
      (hqualifier : qualifier ∈ qualifiers) : Respells raw (s ++ qualifier.toList)

/-! ## Keys -/

theorem key_eq (raw : Text) : key raw = (withoutAll fillers raw.upper).filter Char.isAlphanum :=
  rfl

theorem key_nil : key [] = [] := by
  decide

theorem key_of_sameLetters {s t : Text} (h : SameLetters s t) : key s = key t := by
  rw [key_eq, key_eq, upper_eq_iff.mpr h]

theorem key_append {trail : Text} (h : Apart fillers trail.upper) (t : Text) :
    key (t ++ trail) = key t ++ key trail := by
  rw [key_eq, upper_append, withoutAll_append h, List.filter_append]
  rfl

/-- A blank is in no filler and in no key. -/
theorem key_append_blank_cons {c : Char} (hc : isBlank c = true) (s t : Text) :
    key (s ++ c :: t) = key s ++ key t := by
  have hblank : isBlank c.toUpper = true := (isBlank_toUpper c).trans hc
  have hfillers : ∀ filler ∈ fillers, filler.toList ≠ [] ∧ c.toUpper ∉ filler.toList := by
    have hchecked : ∀ filler ∈ fillers,
        filler.toList ≠ [] ∧ (filler.toList.any isBlank) = false := by decide
    intro filler hfiller
    obtain ⟨hne, hnone⟩ := hchecked filler hfiller
    refine ⟨hne, ?_⟩
    intro hmem
    rw [List.any_eq_false] at hnone
    exact hnone _ hmem hblank
  have hplain : c.toUpper.isAlphanum = false := of_isBlank (by decide) hblank
  have hdropped : ¬ c.toUpper.isAlphanum = true := Bool.eq_false_iff.mp hplain
  rw [key_eq, upper_append]
  change (withoutAll fillers (s.upper ++ c.toUpper :: t.upper)).filter Char.isAlphanum = _
  rw [withoutAll_append_cons hfillers, List.filter_append, List.filter_cons_of_neg hdropped]
  rfl

theorem key_blank_append {gap : Text} (hgap : ∀ c ∈ gap, isBlank c = true) (t : Text) :
    key (gap ++ t) = key t := by
  induction gap with
  | nil => rfl
  | cons c gap ih =>
      rw [List.forall_mem_cons] at hgap
      have hstart : key (c :: (gap ++ t)) = key [] ++ key (gap ++ t) :=
        key_append_blank_cons hgap.1 [] (gap ++ t)
      rw [List.cons_append, hstart, ih hgap.2, key_nil, List.nil_append]

theorem key_append_blank {gap : Text} (hgap : ∀ c ∈ gap, isBlank c = true) (t : Text) :
    key (t ++ gap) = key t := by
  cases gap with
  | nil => rw [List.append_nil]
  | cons c gap =>
      rw [List.forall_mem_cons] at hgap
      have hsilent : key gap = [] := by
        rw [← List.append_nil gap, key_blank_append hgap.2, key_nil]
      rw [key_append_blank_cons hgap.1, hsilent, List.append_nil]

theorem key_gnu_append (t : Text) : key ("GNU ".toList ++ t) = key t := by
  have hname : key "GNU".toList = [] := by decide
  calc
    key ("GNU ".toList ++ t) = key "GNU".toList ++ key t :=
      key_append_blank_cons (by decide) "GNU".toList t
    _ = key t := by rw [hname, List.nil_append]

theorem key_append_qualifier {qualifier : String} (h : qualifier ∈ qualifiers) (t : Text) :
    key (t ++ qualifier.toList) = key t := by
  have hchecked : ∀ q ∈ qualifiers, Apart fillers (upper q.toList) ∧ key q.toList = [] := by
    decide
  obtain ⟨hapart, hsilent⟩ := hchecked qualifier h
  rw [key_append hapart, hsilent, List.append_nil]

theorem key_of_respells {raw t : Text} (h : Respells raw t) : key t = key raw := by
  induction h with
  | same => rfl
  | recased hs hletters ih => rw [← key_of_sameLetters hletters, ih]
  | spaced hs hlead htrail ih => rw [key_blank_append hlead, key_append_blank htrail, ih]
  | prefixed hs ih => rw [key_gnu_append, ih]
  | qualified hs hqualifier ih => rw [key_append_qualifier hqualifier, ih]

theorem ofSpelling?_name (id : LicenseId) : ofSpelling? id.name.toList = some id := by
  cases id <;> decide

/-- A respelled text means the same license, if any, and the name of a license means it. -/
theorem ofSpelling?_of_respells {raw t : Text} (h : Respells raw t) :
    ofSpelling? t = ofSpelling? raw ∧
      ∀ id, ofSpelling? t = some id → ofSpelling? id.name.toList = some id := by
  refine ⟨?_, fun id _ => ofSpelling?_name id⟩
  unfold ofSpelling?
  rw [key_of_respells h]

theorem lesser_respelled :
    Respells "LGPL-2.1".toList "\tGNU lgpl-2.1-ONLY+\n".toList ∧
      ofSpelling? "\tGNU lgpl-2.1-ONLY+\n".toList = some .lgpl21 ∧
      ofSpelling? lgpl21.name.toList = some .lgpl21 := by
  have hnamed : Respells "LGPL-2.1".toList ("GNU ".toList ++ "LGPL-2.1".toList) :=
    .prefixed .same
  have honly : Respells "LGPL-2.1".toList "GNU LGPL-2.1-only".toList :=
    .qualified hnamed (by decide : "-only" ∈ qualifiers)
  have hplus : Respells "LGPL-2.1".toList "GNU LGPL-2.1-only+".toList :=
    .qualified honly (by decide : "+" ∈ qualifiers)
  have hcased : Respells "LGPL-2.1".toList "GNU lgpl-2.1-ONLY+".toList :=
    .recased hplus (upper_eq_iff.mp (by decide))
  have hspaced : Respells "LGPL-2.1".toList "\tGNU lgpl-2.1-ONLY+\n".toList :=
    @Respells.spaced _ _ ['\t'] ['\n'] hcased (List.forall_mem_singleton.mpr rfl)
      (List.forall_mem_singleton.mpr rfl)
  obtain ⟨hsame, hname⟩ := ofSpelling?_of_respells hspaced
  have hlesser : ofSpelling? "LGPL-2.1".toList = some .lgpl21 := by decide
  rw [hlesser] at hsame
  exact ⟨hspaced, hsame, hname .lgpl21 hsame⟩

end RepoAudit.LicenseId
