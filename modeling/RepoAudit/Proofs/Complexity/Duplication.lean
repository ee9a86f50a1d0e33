import RepoAudit.Complexity.Metrics
import RepoAudit.Proofs.Text.Words
import Mathlib

/-!
# Duplicated lines

Lines are counted in groups of one text, and the groups of more than one line are added up.  This is
the number of the lines whose text some other line has too, so the share of duplicated lines does
not depend on the order of the lines, on the blanks around their words or on the lines that are too
short to be compared.
-/

namespace RepoAudit.Complexity

/-! ## Groups -/

variable {lines lines' : List Text} {groups : List (Text × Nat)} {line text : Text}

/-- The lines that the groups stand for. -/
def groupedLines (groups : List (Text × Nat)) : List Text :=
  groups.flatMap fun (text, size) => List.replicate size text

theorem groupedLines_addToGroup (groups : List (Text × Nat)) (line : Text) :
    (groupedLines (addToGroup groups line)).Perm (line :: groupedLines groups) := by
  induction groups with
  | nil => exact List.Perm.refl [line]
  | cons group groups ih =>
      obtain ⟨text, size⟩ := group
      rw [addToGroup]
      split
      next hsame =>
        obtain rfl := eq_of_beq hsame
        exact List.Perm.refl _
      next =>
        calc
          List.replicate size text ++ groupedLines (addToGroup groups line)
          _ |>.Perm (List.replicate size text ++ line :: groupedLines groups) := ih.append_left _
          _ |>.Perm (line :: (List.replicate size text ++ groupedLines groups)) :=
            List.perm_middle

theorem mem_texts_addToGroup :
    text ∈ (addToGroup groups line).map Prod.fst ↔ text = line ∨ text ∈ groups.map Prod.fst := by
  induction groups with
  | nil => simp [addToGroup]
  | cons group groups ih =>
      obtain ⟨first, size⟩ := group
      rw [addToGroup]
      split
      next hsame =>
        rw [eq_of_beq hsame]
        simp
      next =>
        rw [List.map_cons, List.mem_cons, ih, List.map_cons, List.mem_cons]
        tauto

theorem nodup_texts_addToGroup (h : (groups.map Prod.fst).Nodup) (line : Text) :
    ((addToGroup groups line).map Prod.fst).Nodup := by
  induction groups with
  | nil => simp [addToGroup]
  | cons group groups ih =>
      obtain ⟨first, size⟩ := group
      rw [addToGroup]
      split
      next => exact h
      next hother =>
        rw [List.map_cons, List.nodup_cons] at h ⊢
        refine ⟨?_, ih h.2⟩
        rw [mem_texts_addToGroup, not_or]
        exact ⟨fun heq => hother (beq_iff_eq.mpr heq), h.1⟩

/-- The groups have different texts and together the given lines. -/
structure Grouped (lines : List Text) (groups : List (Text × Nat)) : Prop where
  once : (groups.map Prod.fst).Nodup
  perm : (groupedLines groups).Perm lines

theorem Grouped.add (h : Grouped lines groups) (line : Text) :
    Grouped (lines ++ [line]) (addToGroup groups line) where
  once := nodup_texts_addToGroup h.once line
  perm :=
    calc
      groupedLines (addToGroup groups line)
      _ |>.Perm (line :: groupedLines groups) := groupedLines_addToGroup groups line
      _ |>.Perm (line :: lines) := h.perm.cons line
      _ |>.Perm (lines ++ [line]) := (List.perm_append_singleton line lines).symm

theorem Grouped.foldl (h : Grouped lines groups) (more : List Text) :
    Grouped (lines ++ more) (more.foldl addToGroup groups) := by
  induction more generalizing lines groups with
  | nil => rwa [List.append_nil]
  | cons line more ih =>
      rw [List.foldl_cons, ← List.singleton_append, ← List.append_assoc]
      exact ih (h.add line)

theorem grouped_lineGroups (lines : List Text) : Grouped lines (lineGroups lines) := by
  have hempty : Grouped [] [] := ⟨List.nodup_nil, List.Perm.refl []⟩
  exact hempty.foldl lines

theorem count_groupedLines {size : Nat} (h : (groups.map Prod.fst).Nodup)
    (hmem : (text, size) ∈ groups) : (groupedLines groups).count text = size := by
  induction groups with
  | nil => cases hmem
  | cons group groups ih =>
      obtain ⟨first, n⟩ := group
      rw [List.map_cons, List.nodup_cons] at h
      have hcons : groupedLines ((first, n) :: groups) =
          List.replicate n first ++ groupedLines groups := rfl
      rw [hcons, List.count_append, List.count_replicate]
      rcases List.mem_cons.mp hmem with heq | hmore
      · obtain ⟨rfl, rfl⟩ := Prod.mk.inj heq
        have hnone : (groupedLines groups).count text = 0 := by
          rw [List.count_eq_zero, groupedLines, List.mem_flatMap]
          rintro ⟨⟨other, k⟩, hother, htext⟩
          rw [List.eq_of_mem_replicate htext] at h
          exact h.1 (List.mem_map.mpr ⟨_, hother, rfl⟩)
        simp [hnone]
      · have hne : first ≠ text := by
          rintro rfl
          exact h.1 (List.mem_map.mpr ⟨_, hmore, rfl⟩)
        simp [hne, ih h.2 hmore]

theorem sumOf_filter_eq (sizes : List Nat) (p : Nat → Bool) :
    sumOf (sizes.filter p) = (sizes.map fun n => if p n then n else 0).sum := by
  have hsum : ∀ counts, sumOf counts = counts.sum := fun _ => rfl
  rw [hsum]
  induction sizes with
  | nil => rfl
  | cons n sizes ih =>
      rw [List.filter_cons]
      split <;> simp_all

/-- Adding up the groups of more than one line counts every line that stands there again. -/
theorem duplicatedCount_eq (lines : List Text) :
    duplicatedCount lines = lines.countP fun line => 2 ≤ lines.count line := by
  obtain ⟨honce, hperm⟩ := grouped_lineGroups lines
  calc
    duplicatedCount lines =
        ((lineGroups lines).map fun group => if 2 ≤ group.2 then group.2 else 0).sum := by
      rw [duplicatedCount, sumOf_filter_eq, List.map_map]
      simp [Function.comp_def]
    _ = (groupedLines (lineGroups lines)).countP fun line => 2 ≤ lines.count line := by
      rw [groupedLines, List.countP_flatMap]
      congr 1
      apply List.map_congr_left
      rintro ⟨text, size⟩ hmem
      have hsize : lines.count text = size := by
        rw [← hperm.count_eq, count_groupedLines honce hmem]
      simp [List.countP_replicate, hsize]
    _ = lines.countP fun line => 2 ≤ lines.count line := hperm.countP_eq _

/-! ## Lines that stand there again -/

/-- The places of the lines whose text stands at some other place too. -/
def repeatedPlaces (lines : List Text) : Finset (Fin lines.length) :=
  Finset.univ.filter fun i => ∃ j, j ≠ i ∧ lines[j] = lines[i]

theorem mem_repeatedPlaces {i : Fin lines.length} :
    i ∈ repeatedPlaces lines ↔ ∃ j, j ≠ i ∧ lines[j] = lines[i] := by
  simp [repeatedPlaces]

theorem two_le_count_iff (i : Fin lines.length) :
    2 ≤ lines.count lines[i] ↔ ∃ j, j ≠ i ∧ lines[j] = lines[i] := by
  have hpair : List.replicate 2 lines[i] = [lines[i], lines[i]] := rfl
  rw [← List.replicate_sublist_iff, hpair, ← List.duplicate_iff_sublist,
    List.duplicate_iff_exists_distinct_get]
  constructor
  · rintro ⟨m, n, hlt, hm, hn⟩
    by_cases him : m = i
    · exact ⟨n, him ▸ hlt.ne', hn.symm⟩
    · exact ⟨m, him, hm.symm⟩
  · rintro ⟨j, hne, hj⟩
    rcases lt_or_gt_of_ne hne with hlt | hgt
    · exact ⟨j, i, hlt, hj.symm, rfl⟩
    · exact ⟨i, j, hgt, rfl, hj.symm⟩

theorem card_repeatedPlaces (lines : List Text) :
    (repeatedPlaces lines).card = duplicatedCount lines := by
  have hplaces : ∀ p : Text → Bool,
      (Finset.univ.filter fun i : Fin lines.length => p lines[i]).card = lines.countP p := by
    intro p
    conv_rhs => rw [← List.map_getElem_finRange lines, List.countP_map]
    rw [Finset.card_def, Finset.filter_val, ← Multiset.countP_eq_card_filter, Fin.univ_def]
    simp only [Multiset.coe_countP, Bool.decide_eq_true]
    rfl
  rw [duplicatedCount_eq, ← hplaces, repeatedPlaces]
  simp only [decide_eq_true_eq, two_le_count_iff]

/-- A line that stands there again is not alone. -/
theorem duplicatedCount_ne_one (lines : List Text) : duplicatedCount lines ≠ 1 := by
  rw [← card_repeatedPlaces, Ne, Finset.card_eq_one]
  rintro ⟨i, hi⟩
  obtain ⟨j, hne, hj⟩ := mem_repeatedPlaces.mp (hi ▸ Finset.mem_singleton_self i)
  have hmem : j ∈ repeatedPlaces lines := mem_repeatedPlaces.mpr ⟨i, hne.symm, hj.symm⟩
  rw [hi, Finset.mem_singleton] at hmem
  exact hne hmem

theorem duplicatedCount_of_perm (h : lines.Perm lines') :
    duplicatedCount lines = duplicatedCount lines' := by
  have hcount : ∀ line, lines.count line = lines'.count line := h.count_eq
  rw [duplicatedCount_eq, duplicatedCount_eq, h.countP_eq]
  simp only [hcount]

/-! ## Lines that are compared -/

/-- The lines that are long enough, with single blanks between their words. -/
def keptLines (lines : List Text) : List Text :=
  (lines.map collapsed).filter fun line => 10 < line.byteSize

theorem keptLines_append (lines lines' : List Text) :
    keptLines (lines ++ lines') = keptLines lines ++ keptLines lines' := by
  rw [keptLines, List.map_append, List.filter_append]
  rfl

theorem keptLines_cons_of_short {line : Text} (hline : (collapsed line).byteSize ≤ 10)
    (lines : List Text) : keptLines (line :: lines) = keptLines lines :=
  List.filter_cons_of_neg (by simpa using hline)

theorem keptLines_cons_congr {line line' : Text} (hline : collapsed line = collapsed line')
    (lines : List Text) : keptLines (line :: lines) = keptLines (line' :: lines) := by
  rw [keptLines, List.map_cons, hline]
  rfl

theorem duplication_eq (t : Text) :
    duplication t =
      if (comparedLines t).length = 0 then 0
      else round1 ((duplicatedCount (comparedLines t)).toFloat /
        (comparedLines t).length.toFloat * 100) := by
  simp only [duplication, List.isEmpty_iff, List.length_eq_zero_iff]

theorem duplication_of_perm {t t' : Text} (h : (keptLines t.lines).Perm (keptLines t'.lines)) :
    duplication t = duplication t' := by
  have hcompared : (comparedLines t).Perm (comparedLines t') := h
  rw [duplication_eq, duplication_eq, duplicatedCount_of_perm hcompared, hcompared.length_eq]

theorem words_around {gap : Text} (hgap : ∀ c ∈ gap, isBlank c = true) (hne : gap ≠ [])
    (lead trail : Text) : Text.words (lead ++ (gap ++ trail)) = lead.words ++ trail.words := by
  obtain ⟨c, gap, rfl⟩ := List.exists_cons_of_ne_nil hne
  rw [List.forall_mem_cons] at hgap
  rw [List.cons_append, Text.words_append_blank_cons hgap.1, Text.words_blank_append hgap.2]

/-- A change to the lines of a text that is none to the lines that are compared. -/
inductive Immaterial : List Text → List Text → Prop where
  | reordered {lines lines' : List Text} (h : lines.Perm lines') : Immaterial lines lines'
  /-- Other blanks before the first word of a line, between two words or behind the last one. -/
  | respaced (above below : List Text) {lead gap gap' trail : Text}
      (hgap : ∀ c ∈ gap, isBlank c = true) (hgap' : ∀ c ∈ gap', isBlank c = true)
      (hends : lead = [] ∨ trail = [] ∨ gap ≠ [] ∧ gap' ≠ []) :
      Immaterial (above ++ (lead ++ (gap ++ trail)) :: below)
        (above ++ (lead ++ (gap' ++ trail)) :: below)
  | dropped (above below : List Text) {line : Text} (h : (collapsed line).byteSize ≤ 10) :
      Immaterial (above ++ line :: below) (above ++ below)

theorem collapsed_respaced {lead gap gap' trail : Text} (hgap : ∀ c ∈ gap, isBlank c = true)
    (hgap' : ∀ c ∈ gap', isBlank c = true)
    (hends : lead = [] ∨ trail = [] ∨ gap ≠ [] ∧ gap' ≠ []) :
    collapsed (lead ++ (gap ++ trail)) = collapsed (lead ++ (gap' ++ trail)) := by
  unfold collapsed
  rcases hends with rfl | rfl | ⟨hne, hne'⟩
  · rw [List.nil_append, List.nil_append, Text.words_blank_append hgap,
      Text.words_blank_append hgap']
  · rw [List.append_nil, List.append_nil, Text.words_append_blank hgap,
      Text.words_append_blank hgap']
  · rw [words_around hgap hne, words_around hgap' hne']

theorem Immaterial.perm_keptLines (h : Immaterial lines lines') :
    (keptLines lines).Perm (keptLines lines') := by
  cases h with
  | reordered h => exact (h.map collapsed).filter _
  | respaced above below hgap hgap' hends =>
      rw [keptLines_append, keptLines_append,
        keptLines_cons_congr (collapsed_respaced hgap hgap' hends)]
  | dropped above below h =>
      rw [keptLines_append, keptLines_append, keptLines_cons_of_short h]

theorem perm_keptLines_of_eqvGen (h : Relation.EqvGen Immaterial lines lines') :
    (keptLines lines).Perm (keptLines lines') := by
  induction h with
  | rel lines lines' h => exact h.perm_keptLines
  | refl lines => exact List.Perm.refl _
  | symm lines lines' _ ih => exact ih.symm
  | trans lines lines' lines'' _ _ ih ih' => exact ih.trans ih'

/-- Duplication is the share of the compared lines that stand there again, which are never one line
alone, and no immaterial change of the lines changes it. -/
theorem duplication_eq_share_of_repeated (t : Text) :
    duplication t =
        (if (comparedLines t).length = 0 then 0
        else round1 ((repeatedPlaces (comparedLines t)).card.toFloat /
          (comparedLines t).length.toFloat * 100)) ∧
      (repeatedPlaces (comparedLines t)).card ≠ 1 ∧
      ∀ t' : Text, Relation.EqvGen Immaterial t.lines t'.lines → duplication t' = duplication t := by
  refine ⟨?_, ?_, fun t' h => (duplication_of_perm (perm_keptLines_of_eqvGen h)).symm⟩
  · rw [card_repeatedPlaces, duplication_eq]
  · rw [card_repeatedPlaces]
    exact duplicatedCount_ne_one _

/-- A line that stands there twice, around a short one. -/
def repeatedCall : Text :=
  "let total = sum(rows);\nend\nlet total = sum(rows);\n".toList

/-- The same lines indented in another way, spaced in another way and without the short one. -/
def respacedCall : Text :=
  "  let total  = sum(rows);\nlet total = sum(rows);\n".toList

theorem duplication_respacedCall :
    duplication repeatedCall = 100 ∧
      Relation.EqvGen Immaterial repeatedCall.lines respacedCall.lines ∧
      duplication respacedCall = duplication repeatedCall := by
  let call : Text := "let total = sum(rows);".toList
  have hblank : ∀ n, ∀ c ∈ List.replicate n ' ', isBlank c = true := by
    intro n c hc
    rw [List.eq_of_mem_replicate hc]
    rfl
  have hdropped : Immaterial ([call] ++ "end".toList :: [call]) ([call] ++ [call]) :=
    .dropped [call] [call] (by decide)
  have hindented : Immaterial ([] ++ ([] ++ ([] ++ call)) :: [call])
      ([] ++ ([] ++ ([' ', ' '] ++ call)) :: [call]) :=
    .respaced [] [call] (hblank 0) (hblank 2) (.inl rfl)
  have hspaced : Immaterial
      ([] ++ ("  let total".toList ++ ([' '] ++ "= sum(rows);".toList)) :: [call])
      ([] ++ ("  let total".toList ++ ([' ', ' '] ++ "= sum(rows);".toList)) :: [call]) :=
    .respaced [] [call] (hblank 1) (hblank 2)
      (.inr (.inr ⟨List.cons_ne_nil _ _, List.cons_ne_nil _ _⟩))
  have hsteps : Relation.EqvGen Immaterial repeatedCall.lines respacedCall.lines :=
    .trans _ _ _ (.rel _ _ hdropped) (.trans _ _ _ (.rel _ _ hindented) (.rel _ _ hspaced))
  obtain ⟨hshare, -, hinvariant⟩ := duplication_eq_share_of_repeated repeatedCall
  refine ⟨?_, hsteps, hinvariant respacedCall hsteps⟩
  rw [hshare]
  decide +kernel

end RepoAudit.Complexity
