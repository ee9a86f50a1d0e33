import RepoAudit.Licenses.Analysis
import RepoAudit.Proofs.Licenses.Expression
import Mathlib.Tactic

/-!
# Forms of a declared license

A manifest declares its licenses as one expression, as a list of texts or of objects with a type,
or as lists of lists of them, under one of two names.  What the terms are depends on the leaves
alone: the texts without operators from which a declaration is put together, from left to right.
-/

namespace RepoAudit

open Text

/-! ## Leaves -/

/-- A text that can stand in an expression as one license. -/
structure IsLeafText (t : Text) : Prop where
  notBlank : t.isBlankLine = false
  plain : ∀ c ∈ t, c ≠ '(' ∧ c ≠ ')' ∧ c ≠ '/'
  noOperator : ∀ w ∈ t.words, ∀ op : LicenseOperator, w ≠ op.word

theorem isLeafText_of_checked {t : Text} (hblank : t.isBlankLine = false)
    (hplain : (t.all fun c => c != '(' && c != ')' && c != '/') = true)
    (hwords : ∀ w ∈ t.words, LicenseOperator.words.contains w = false) : IsLeafText t where
  notBlank := hblank
  plain c hc := by
    simpa [and_assoc] using List.all_eq_true.mp hplain c hc
  noOperator w hw op hop := by
    have hword := hwords w hw
    rw [LicenseOperator.contains_words.mpr ⟨op, hop⟩] at hword
    cases hword

theorem isNameWord_of_mem_words {t w : Text} (ht : IsLeafText t) (hw : w ∈ t.words) :
    IsNameWord w := by
  have hrun : w ∈ runs (fun c => !isBlank c) t := words_eq_runs t ▸ hw
  obtain ⟨hne, hchars⟩ := mem_of_mem_runs hrun
  refine ⟨hne, ?_, ht.noOperator w hw⟩
  intro c hc
  obtain ⟨hblank, hmem⟩ := hchars c hc
  exact ⟨by simpa using hblank, ht.plain c hmem⟩

theorem Writes.blank_append {lead t : Text} {ls : List LicenseLexeme}
    (hlead : ∀ c ∈ lead, isBlank c = true) (h : Writes t ls) : Writes (lead ++ t) ls := by
  cases h with
  | nil hgap => exact .nil (List.forall_mem_append.mpr ⟨hlead, hgap⟩)
  | @word gap w t ls hgap hend ht =>
      rw [← List.append_assoc]
      exact .word (List.forall_mem_append.mpr ⟨hlead, hgap⟩) hend ht
  | @opening gap t ls hgap ht =>
      rw [← List.append_assoc]
      exact .opening (List.forall_mem_append.mpr ⟨hlead, hgap⟩) ht
  | @closing gap t ls hgap ht =>
      rw [← List.append_assoc]
      exact .closing (List.forall_mem_append.mpr ⟨hlead, hgap⟩) ht

/-- Two texts are written behind each other when no word of the first runs into the second. -/
theorem Writes.append {s t : Text} {ls more : List LicenseLexeme} (hs : Writes s ls)
    (ht : Writes t more) (hhead : ∀ c ∈ t.head?, isBlank c = true ∨ c = '(' ∨ c = ')') :
    Writes (s ++ t) (ls ++ more) := by
  induction hs with
  | nil hgap => exact ht.blank_append hgap
  | @word gap w rest ls hgap hend _ ih =>
      have hend' : ∀ c ∈ (rest ++ t).head?, isBlank c = true ∨ c = '(' ∨ c = ')' := by
        cases rest with
        | nil => exact hhead
        | cons d rest => exact hend
      rw [List.append_assoc, List.append_assoc]
      exact .word hgap hend' ih
  | @opening gap rest ls hgap _ ih =>
      rw [List.append_assoc, List.cons_append]
      exact .opening hgap ih
  | @closing gap rest ls hgap _ ih =>
      rw [List.append_assoc, List.cons_append]
      exact .closing hgap ih

/-- Every text is written with its own words. -/
theorem writes_words (t : Text) : Writes t (t.words.map .word) := by
  induction t using runs_induction fun c => !isBlank c with
  | nil => exact .nil (by simp)
  | mark c rest hc ih =>
      have hblank : isBlank c = true := by simpa using hc
      rw [words_blank_cons hblank]
      exact @Writes.blank_append [c] rest _ (List.forall_mem_singleton.mpr hblank) ih
  | run run rest hne hrun hend ih =>
      have hrest : ∀ c ∈ rest.head?, isBlank c = true := by simpa using hend
      rw [words_append hne (by simpa using hrun) hrest, List.map_cons]
      exact @Writes.word [] run rest _ (by simp) (fun c hc => Or.inl (hrest c hc)) ih

theorem words_ne_nil {t : Text} (ht : t.isBlankLine = false) : t.words ≠ [] := by
  intro hnil
  have hwrites := writes_words t
  rw [hnil, List.map_nil] at hwrites
  cases hwrites with
  | nil hgap =>
      rw [isBlankLine, List.all_eq_true.mpr hgap] at ht
      cases ht

def IsLeafText.leaf {t : Text} (ht : IsLeafText t) : LicenseLeaf where
  words := t.words
  ne_nil := words_ne_nil ht.notBlank
  nameWords _ := isNameWord_of_mem_words ht

/-- The leaf with single spaces between its words. -/
def evenlySpaced (leaf : String) : Text :=
  sentence (words leaf.toList)

/-! ## Declarations -/

/-- A written expression with these leaves, up to the blanks between words. -/
def IsExpressionOf (s : String) (leaves : List String) : Prop :=
  ∃ e : LicenseExpression, e.Spelled s.toList ∧
    e.leaves.map LicenseLeaf.words = leaves.map fun leaf => words leaf.toList

namespace IsExpressionOf

variable {s t : String} {xs ys : List String}

theorem leaf (hs : IsLeafText s.toList) : IsExpressionOf s [s] :=
  ⟨.leaf hs.leaf, writes_words s.toList, rfl⟩

theorem combined (hs : IsExpressionOf s xs) (op : LicenseOperator) (ht : IsExpressionOf t ys) :
    IsExpressionOf (s ++ String.ofList (markOf op.word) ++ t) (xs ++ ys) := by
  obtain ⟨left, hleft, hxs⟩ := hs
  obtain ⟨right, hright, hys⟩ := ht
  refine ⟨.combined left op right, ?_, ?_⟩
  · have hop : Writes (markOf op.word ++ t.toList) (.word op.word :: right.lexemes) := by
      have hnext : Writes (' ' :: t.toList) right.lexemes :=
        hright.blank_append (List.forall_mem_singleton.mpr (by decide))
      have hword : Writes ([' '] ++ (op.word ++ ' ' :: t.toList)) (.word op.word :: right.lexemes) :=
        .word (List.forall_mem_singleton.mpr (by decide)) (by simp [isBlank]) hnext
      simpa [markOf] using hword
    have hwhole := hleft.append hop (by simp [markOf, isBlank])
    simpa [LicenseExpression.Spelled, LicenseExpression.lexemes] using hwhole
  · rw [LicenseExpression.leaves, List.map_append, hxs, hys, List.map_append]

theorem grouped (hs : IsExpressionOf s xs) : IsExpressionOf ("(" ++ s ++ ")") xs := by
  obtain ⟨e, he, hxs⟩ := hs
  refine ⟨.grouped e, ?_, hxs⟩
  have hclosing : Writes [')'] [.closing] := @Writes.closing [] [] [] (by simp) (.nil (by simp))
  have hwhole : Writes ('(' :: (s.toList ++ [')'])) (.opening :: (e.lexemes ++ [.closing])) :=
    @Writes.opening [] _ _ (by simp) (he.append hclosing (by simp))
  simpa [LicenseExpression.Spelled, LicenseExpression.lexemes] using hwhole

theorem ne_nil (h : IsExpressionOf s xs) : xs ≠ [] := by
  obtain ⟨e, -, hwords⟩ := h
  rintro rfl
  exact e.leaves_ne_nil (List.map_eq_nil_iff.mp hwords)

theorem splitExpression_eq (h : IsExpressionOf s xs) :
    splitExpression s.toList = xs.map evenlySpaced := by
  obtain ⟨e, hspelled, hwords⟩ := h
  rw [LicenseExpression.splitExpression_of_spelled hspelled]
  calc
    e.leaves.map LicenseLeaf.text = (e.leaves.map LicenseLeaf.words).map sentence := by
      rw [List.map_map]
      rfl
    _ = xs.map evenlySpaced := by
      rw [hwords, List.map_map]
      rfl

end IsExpressionOf

namespace Licenses

/-- The value declares the leaves, from left to right.  One with no text where a license would be
declares nothing. -/
inductive Declares : Json → List String → Prop
  | text {s : String} {leaves : List String} (h : IsExpressionOf s leaves) :
      Declares (.str s) leaves
  | typed {members : List (String × Json)} {s : String} {leaves : List String}
      (htype : members.lookup "type" = some (.str s)) (h : IsExpressionOf s leaves) :
      Declares (.obj members) leaves
  | untyped {members : List (String × Json)}
      (htype : ∀ s, members.lookup "type" ≠ some (.str s)) : Declares (.obj members) []
  | empty : Declares (.arr []) []
  | item {item : Json} {items : List Json} {first leaves : List String} (hitem : Declares item first)
      (hitems : Declares (.arr items) leaves) : Declares (.arr (item :: items)) (first ++ leaves)
  | null : Declares .null []
  | bool (b : Bool) : Declares (.bool b) []
  | int (n : Int) : Declares (.int n) []
  | float (x : Float) : Declares (.float x) []

/-- The old name counts where the new one is absent or declares nothing. -/
inductive ManifestDeclares (manifest : Json) (leaves : List String) : Prop
  | current {value : Json} (hvalue : manifest.get? "license" = some value)
      (h : Declares value leaves)
  | legacy {value : Json} (hcurrent : ∀ v, manifest.get? "license" = some v → Declares v [])
      (hvalue : manifest.get? "licenses" = some value) (h : Declares value leaves)

/-- The terms of the licenses that a manifest declares. -/
def declaredTerms (table : LicenseTable) (manifest : Json) : LicenseTerms :=
  table.termsOfAll ((declaredLicenses manifest).map String.toList)

variable {value manifest : Json} {leaves : List String}

theorem declaredUnder_of_get? {name : String} (h : manifest.get? name = some value) :
    declaredUnder manifest name = declaredTexts value := by
  rw [declaredUnder, h]
  rfl

theorem declaredTexts_untyped {members : List (String × Json)}
    (htype : ∀ s, members.lookup "type" ≠ some (.str s)) : declaredTexts (.obj members) = [] := by
  have hnone : (members.lookup "type").bind Json.str? = none := by
    rw [Option.bind_eq_none_iff]
    intro v hv
    cases v with
    | str s => exact absurd hv (htype s)
    | _ => rfl
  rw [declaredTexts, hnone]
  rfl

theorem declaredTexts_items (item : Json) (items : List Json) :
    declaredTexts (.arr (item :: items)) = declaredTexts item ++ declaredTexts (.arr items) := by
  rw [declaredTexts, declaredTexts, declaredTextsOf]

theorem Declares.split_declaredTexts (h : Declares value leaves) :
    (declaredTexts value).flatMap (fun s => splitExpression s.toList) =
      leaves.map evenlySpaced := by
  induction h with
  | text h =>
      rw [declaredTexts, List.flatMap_singleton, h.splitExpression_eq]
  | typed htype h =>
      rw [declaredTexts, htype]
      change List.flatMap _ [_] = _
      rw [List.flatMap_singleton, h.splitExpression_eq]
  | untyped htype =>
      rw [declaredTexts_untyped htype]
      rfl
  | empty => rfl
  | item hitem hitems ihItem ihItems =>
      rw [declaredTexts_items, List.flatMap_append, ihItem, ihItems, List.map_append]
  | null => rfl
  | bool b => rfl
  | int n => rfl
  | float x => rfl

theorem Declares.declaredTexts_eq_nil_iff (h : Declares value leaves) :
    declaredTexts value = [] ↔ leaves = [] := by
  constructor
  · intro hnil
    have hsplit := h.split_declaredTexts
    rw [hnil, List.flatMap_nil] at hsplit
    exact List.map_eq_nil_iff.mp hsplit.symm
  · intro hnil
    induction h with
    | text h => exact absurd hnil h.ne_nil
    | typed htype h => exact absurd hnil h.ne_nil
    | untyped htype => exact declaredTexts_untyped htype
    | empty => rfl
    | item hitem hitems ihItem ihItems =>
        obtain ⟨hfirst, hleaves⟩ := List.append_eq_nil_iff.mp hnil
        rw [declaredTexts_items, ihItem hfirst, ihItems hleaves]
        rfl
    | null => rfl
    | bool b => rfl
    | int n => rfl
    | float x => rfl

theorem split_declaredLicenses (hne : leaves ≠ []) (h : ManifestDeclares manifest leaves) :
    (declaredLicenses manifest).flatMap (fun s => splitExpression s.toList) =
      leaves.map evenlySpaced := by
  cases h with
  | @current value hvalue h =>
      have hsome : (declaredTexts value).isEmpty = false := by
        rw [List.isEmpty_eq_false_iff, ne_eq, h.declaredTexts_eq_nil_iff]
        exact hne
      have hdeclared : declaredLicenses manifest = declaredTexts value := by
        rw [declaredLicenses, declaredUnder_of_get? hvalue, hsome]
        rfl
      rw [hdeclared, h.split_declaredTexts]
  | @legacy value hcurrent hvalue h =>
      have hnone : declaredUnder manifest "license" = [] := by
        cases hget : manifest.get? "license" with
        | none =>
            rw [declaredUnder, hget]
            rfl
        | some v =>
            rw [declaredUnder_of_get? hget]
            exact (hcurrent v hget).declaredTexts_eq_nil_iff.mpr rfl
      have hdeclared : declaredLicenses manifest = declaredTexts value := by
        rw [declaredLicenses, hnone, declaredUnder_of_get? hvalue]
        rfl
      rw [hdeclared, h.split_declaredTexts]

theorem declaredTerms_eq (table : LicenseTable) (hne : leaves ≠ [])
    (h : ManifestDeclares manifest leaves) :
    declaredTerms table manifest =
      .combine (leaves.map fun leaf => table.terms (evenlySpaced leaf)) := by
  rw [declaredTerms, LicenseTable.termsOfAll, List.flatMap_map, split_declaredLicenses hne h,
    List.map_map]
  simp only [Function.comp_def]

theorem declares_strings (hleaves : ∀ leaf ∈ leaves, IsLeafText leaf.toList) :
    Declares (.strings leaves) leaves := by
  induction leaves with
  | nil => exact .empty
  | cons leaf leaves ih =>
      rw [List.forall_mem_cons] at hleaves
      have hleaf : Declares (.str leaf) [leaf] :=
        .text (.leaf hleaves.1)
      exact .item hleaf (ih hleaves.2)

/-- All manifests that declare the same leaves give the same terms, those that a plain list of the
leaves gives: the terms of the leaves taken together. -/
theorem declaredTerms_of_leaves (table : LicenseTable) (hne : leaves ≠ [])
    (hleaves : ∀ leaf ∈ leaves, IsLeafText leaf.toList) (h : ManifestDeclares manifest leaves) :
    declaredTerms table manifest = declaredTerms table (.obj [("license", .strings leaves)]) ∧
      declaredTerms table manifest =
        .combine (leaves.map fun leaf => table.terms (evenlySpaced leaf)) := by
  have hlist : ManifestDeclares (.obj [("license", .strings leaves)]) leaves :=
    .current rfl (declares_strings hleaves)
  have hterms := declaredTerms_eq table hne h
  exact ⟨hterms.trans (declaredTerms_eq table hne hlist).symm, hterms⟩

def threeLeaves : List String :=
  ["MIT", "Apache  2.0", "BSD"]

theorem threeLeaves_leafTexts : ∀ leaf ∈ threeLeaves, IsLeafText leaf.toList := by
  unfold threeLeaves
  simp only [List.forall_mem_cons, List.not_mem_nil, IsEmpty.forall_iff, implies_true, and_true]
  refine ⟨?_, ?_, ?_⟩ <;> exact isLeafText_of_checked (by decide) (by decide) (by decide)

/-- The old name with lists of lists, an object and an expression, and nothing under the new one. -/
def mixedManifest : Json :=
  .obj [
    ("license", .arr [.null, .obj [("url", .str "x")]]),
    ("licenses", .arr [
      .arr [.obj [("type", .str "MIT")]], .null, .str "(Apache  2.0 OR BSD)"])]

theorem mixedManifest_declared :
    threeLeaves ≠ [] ∧ (∀ leaf ∈ threeLeaves, IsLeafText leaf.toList) ∧
      ManifestDeclares mixedManifest threeLeaves ∧
      declaredTerms .builtIn mixedManifest =
        declaredTerms .builtIn (.obj [("license", .strings threeLeaves)]) := by
  have hleaves := threeLeaves_leafTexts
  have hmit : Declares (.arr [.obj [("type", .str "MIT")]]) ["MIT"] :=
    .item (.typed rfl (.leaf (hleaves "MIT" (by simp [threeLeaves])))) .empty
  have hchoice : IsExpressionOf "(Apache  2.0 OR BSD)" ["Apache  2.0", "BSD"] :=
    .grouped (.combined (.leaf (hleaves "Apache  2.0" (by simp [threeLeaves]))) .upperOr
      (.leaf (hleaves "BSD" (by simp [threeLeaves]))))
  have hsilent : Declares (.arr [.null, .obj [("url", .str "x")]]) [] := by
    refine .item .null (.item (.untyped ?_) .empty)
    rintro s ⟨⟩
  have hmixed : ManifestDeclares mixedManifest threeLeaves := by
    refine .legacy ?_ rfl (.item hmit (.item .null (.item (.text hchoice) .empty)))
    rintro v ⟨⟩
    exact hsilent
  have hne : threeLeaves ≠ [] := List.cons_ne_nil _ _
  exact ⟨hne, hleaves, hmixed, (declaredTerms_of_leaves .builtIn hne hleaves hmixed).1⟩

end Licenses
end RepoAudit
