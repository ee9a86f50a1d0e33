import RepoAudit.Proofs.Report.PlainCells
import RepoAudit.Proofs.Report.TableRows
import RepoAudit.Proofs.Text.Lines
import RepoAudit.Proofs.Text.Words
import Mathlib.Tactic

/-!
# The table of recommendations

In a Markdown report every recommendation is written as one row of a table.  The row stays one line
when the description does not hold the end of a line, and its third cell is the description when no
backslash in it reaches the one that is put before a bar.
-/

namespace RepoAudit.Markdown

open Text

/-! ## Lines -/

/-- A line ends at a line feed, at a carriage return, or at both of them together. -/
def linesOf (t : Text) : List Text :=
  t.lines.flatMap (splitBy (· == '\r'))

/-- What a line is read as that was written with a line feed after it. -/
def pieces (line : Text) : List Text :=
  (line.splitBy (· == '\n')).flatMap fun piece => (dropReturn piece).splitBy (· == '\r')

theorem linesOf_unlines (written : List Text) :
    linesOf (unlines written) = written.flatMap pieces := by
  induction written with
  | nil => rfl
  | cons line written ih =>
      have hline : unlines (line :: written) =
          unlines (line.splitBy (· == '\n')) ++ unlines written := by
        rw [unlines_splitBy]
        rfl
      have hpieces : ∀ piece ∈ line.splitBy (· == '\n'), '\n' ∉ piece := by
        intro piece hpiece hmem
        have hcut := cut_eq_false_of_mem_splitBy hpiece '\n' hmem
        cases hcut
      unfold linesOf at ih ⊢
      rw [hline, lines_unlines_append hpieces, List.flatMap_append, ih, List.flatMap_map]
      rfl

theorem length_splitBy (cut : Char → Bool) (t : Text) :
    (t.splitBy cut).length = t.countP cut + 1 := by
  induction t with
  | nil => rfl
  | cons c t ih =>
      rw [splitBy, List.countP_cons]
      split
      · rw [List.length_cons, ih]
      · obtain ⟨piece, more, hpieces⟩ := List.exists_cons_of_ne_nil (splitBy_ne_nil cut t)
        rw [hpieces] at ih ⊢
        exact ih

theorem length_le_length_flatMap {α β : Type} {f : α → List β} {l : List α}
    (hf : ∀ a ∈ l, f a ≠ []) : l.length ≤ (l.flatMap f).length := by
  induction l with
  | nil => exact Nat.zero_le _
  | cons a l ih =>
      rw [List.forall_mem_cons] at hf
      have hhead := List.length_pos_of_ne_nil hf.1
      have htail := ih hf.2
      rw [List.flatMap_cons, List.length_append, List.length_cons]
      omega

/-- When there are no more pieces than elements, each has but one. -/
theorem forall_length_eq_one {α β : Type} {f : α → List β} {l : List α} (hf : ∀ a ∈ l, f a ≠ [])
    (hlength : (l.flatMap f).length = l.length) : ∀ a ∈ l, (f a).length = 1 := by
  induction l with
  | nil => exact List.forall_mem_nil _
  | cons a l ih =>
      rw [List.forall_mem_cons] at hf ⊢
      have hhead := List.length_pos_of_ne_nil hf.1
      have htail := length_le_length_flatMap hf.2
      rw [List.flatMap_cons, List.length_append, List.length_cons] at hlength
      constructor
      · omega
      · apply ih hf.2
        omega

theorem pieces_ne_nil (line : Text) : pieces line ≠ [] := by
  unfold pieces
  obtain ⟨piece, more, hpieces⟩ := List.exists_cons_of_ne_nil (splitBy_ne_nil (· == '\n') line)
  rw [hpieces, List.flatMap_cons]
  exact List.append_ne_nil_of_left_ne_nil (splitBy_ne_nil _ _) _

theorem pieces_of_unbroken {line : Text} (h : Unbroken line) :
    pieces line = [line] := by
  have hends : ∀ c ∈ line, (c == '\n') = false ∧ (c == '\r') = false :=
    fun c hc => Bool.or_eq_false_iff.mp (h c hc)
  have hlast : line.getLast? ≠ some '\r' := by
    intro hlast
    have hreturn := (hends '\r' (List.mem_of_getLast? hlast)).2
    cases hreturn
  unfold pieces
  rw [splitBy_of_not_mem fun c hc => (hends c hc).1, List.flatMap_singleton, dropReturn_of_ne hlast,
    splitBy_of_not_mem fun c hc => (hends c hc).2]

theorem unbroken_of_length_pieces {line : Text} (hlast : line.getLast? ≠ some '\r')
    (h : (pieces line).length = 1) : Unbroken line := by
  have hfeeds : line.countP (· == '\n') = 0 := by
    have hle : (line.splitBy (· == '\n')).length ≤ (pieces line).length :=
      length_le_length_flatMap fun _ _ => splitBy_ne_nil _ _
    rw [length_splitBy, h] at hle
    omega
  have hfree : ∀ c ∈ line, (c == '\n') = false := by
    simpa [List.countP_eq_zero] using hfeeds
  unfold pieces at h
  rw [splitBy_of_not_mem hfree, List.flatMap_singleton, dropReturn_of_ne hlast, length_splitBy,
    Nat.add_eq_right, List.countP_eq_zero] at h
  intro c hc
  exact Bool.or_eq_false_iff.mpr ⟨hfree c hc, Bool.eq_false_iff.mpr (h c hc)⟩

/-! ## Rows -/

/-- Between its outer bars the line has four cells, and the third gives the description back. -/
def Shows (reading : Escaping) (line : Text) (r : Recommendation) : Prop :=
  ∃ third, splitBars reading false line =
      [[], padded r.priority.name.toList, padded r.category.toList, padded third,
        padded r.effort.toList, []] ∧
    unescapeBars third = r.description.toList

variable {reading : Escaping} {r : Recommendation} {rs : List Recommendation}

theorem toList_row (r : Recommendation) : (row r).toList =
    '|' :: (padded r.priority.name.toList ++ '|' :: (padded r.category.toList ++
      '|' :: (padded (escapeBars r.description.toList) ++
        '|' :: (padded r.effort.toList ++ '|' :: [])))) := by
  unfold row padded escapeBars
  simp

theorem bar_not_mem_padded {s : String} (h : IsPlainCell s) : '|' ∉ padded s.toList := by
  unfold padded
  simp only [List.mem_cons, List.mem_append, List.not_mem_nil, or_false, not_or]
  exact ⟨by decide, fun hmem => (h '|' hmem).1 rfl, by decide⟩

theorem plain_priority (level : Level) : IsPlainCell level.name := by
  cases level <;> decide

theorem splitBars_row (h : IsPlainCell r.category ∧ IsPlainCell r.effort) :
    splitBars reading false (row r).toList =
      [[], padded r.priority.name.toList, padded r.category.toList] ++
        splitBars reading false (padded (escapeBars r.description.toList)) ++
        [padded r.effort.toList, []] := by
  rw [toList_row, splitBars_bar, splitBars_padded_append, splitBars_padded_append,
    splitBars_padded_append, splitBars_padded_append,
    splitBars_of_not_mem _ _ (bar_not_mem_padded (plain_priority r.priority)),
    splitBars_of_not_mem _ _ (bar_not_mem_padded h.1),
    splitBars_of_not_mem _ _ (bar_not_mem_padded h.2)]
  simp [splitBars]

theorem shows_row_iff (h : IsPlainCell r.category ∧ IsPlainCell r.effort) :
    Shows reading (row r).toList r ↔ reading.Keeps r.description.toList := by
  rw [← splitBars_padded_iff]
  unfold Shows
  rw [splitBars_row h]
  constructor
  · rintro ⟨third, hcells, -⟩
    have hthird : splitBars reading false (padded (escapeBars r.description.toList)) =
        [padded third] := by
      rw [List.append_assoc] at hcells
      exact List.append_cancel_right (List.append_cancel_left hcells)
    rw [hthird, eq_of_splitBars_eq_singleton hthird]
  · intro hthird
    refine ⟨escapeBars r.description.toList, ?_, unescapeBars_escapeBars _⟩
    rw [hthird]
    rfl

theorem mem_escapeBars_iff {c : Char} {t : Text} (hc : isLineEnd c = true) :
    c ∈ escapeBars t ↔ c ∈ t := by
  have hbar : c ≠ '|' := by
    rintro rfl
    cases hc
  have hbackslash : c ≠ '\\' := by
    rintro rfl
    cases hc
  induction t with
  | nil => rfl
  | cons d t ih =>
      by_cases hd : d = '|'
      · rw [hd, escapeBars_bar]
        simp [hbar, hbackslash, ih]
      · rw [escapeBars_cons hd, List.mem_cons, List.mem_cons]
        exact or_congr_right ih

theorem mem_row_iff (h : IsPlainCell r.category ∧ IsPlainCell r.effort) {c : Char}
    (hc : isLineEnd c = true) : c ∈ (row r).toList ↔ c ∈ r.description.toList := by
  have hcell : ∀ s : String, IsPlainCell s → c ∉ s.toList := by
    intro s hs hmem
    rw [(hs c hmem).2] at hc
    cases hc
  have hbar : c ≠ '|' := by
    rintro rfl
    cases hc
  have hblank : c ≠ ' ' := by
    rintro rfl
    cases hc
  rw [toList_row]
  simp [padded, hbar, hblank, mem_escapeBars_iff hc, hcell _ (plain_priority r.priority),
    hcell _ h.1, hcell _ h.2]

theorem unbroken_row_iff (h : IsPlainCell r.category ∧ IsPlainCell r.effort) :
    Unbroken (row r).toList ↔ Unbroken r.description.toList := by
  constructor
  · intro hrow c hmem
    by_contra hc
    rw [Bool.not_eq_false] at hc
    rw [hrow c ((mem_row_iff h hc).mpr hmem)] at hc
    cases hc
  · intro hdescription c hmem
    by_contra hc
    rw [Bool.not_eq_false] at hc
    rw [hdescription c ((mem_row_iff h hc).mp hmem)] at hc
    cases hc

theorem getLast?_row (r : Recommendation) : (row r).toList.getLast? = some '|' := by
  unfold row
  rw [String.toList_append]
  exact List.getLast?_append_of_ne_nil _ (List.cons_ne_nil _ _)

/-! ## Tables -/

/-- The two lines of the head and one line for each recommendation. -/
def IsTable (reading : Escaping) (rs : List Recommendation) (lines : List Text) : Prop :=
  ∃ rows, lines = tableHead.map String.toList ++ rows ∧ List.Forall₂ (Shows reading) rows rs

/-- The table of recommendations as it is written. -/
def tableText (rs : List Recommendation) : Text :=
  (ReportFormat.ofLines (tableHead ++ rs.map row)).toList

theorem toList_ofLines (lines : List String) :
    (ReportFormat.ofLines lines).toList = unlines (lines.map String.toList) := by
  unfold ReportFormat.ofLines unlines
  rw [String.toList_join, List.flatMap_map, List.flatMap_map]
  simp

theorem linesOf_tableText (rs : List Recommendation) : linesOf (tableText rs) =
    tableHead.map String.toList ++ rs.flatMap fun r => pieces (row r).toList := by
  have hhead : (tableHead.map String.toList).flatMap pieces = tableHead.map String.toList := by
    decide +kernel
  unfold tableText
  rw [toList_ofLines, linesOf_unlines, List.map_append, List.flatMap_append, hhead, List.map_map,
    List.flatMap_map]
  rfl

theorem flatMap_pieces (h : ∀ r ∈ rs, Unbroken (row r).toList) :
    (rs.flatMap fun r => pieces (row r).toList) = rs.map fun r => (row r).toList := by
  rw [List.map_eq_flatMap]
  exact List.flatMap_congr fun r hr => pieces_of_unbroken (h r hr)

theorem isTable_tableText_iff (hplain : PlainAdvice rs) :
    IsTable reading rs (linesOf (tableText rs)) ↔
      ∀ r ∈ rs, Unbroken r.description.toList ∧ reading.Keeps r.description.toList := by
  rw [linesOf_tableText]
  constructor
  · rintro ⟨rows, hrows, hshows⟩
    obtain rfl := List.append_cancel_left hrows
    -- As many lines as recommendations, and at least one for each.
    have hsingle := forall_length_eq_one (fun r _ => pieces_ne_nil (row r).toList)
      hshows.length_eq
    have hunbroken : ∀ r ∈ rs, Unbroken (row r).toList := by
      intro r hr
      apply unbroken_of_length_pieces _ (hsingle r hr)
      rw [getLast?_row]
      decide
    rw [flatMap_pieces hunbroken, List.forall₂_map_left_iff, List.forall₂_same] at hshows
    intro r hr
    constructor
    · exact (unbroken_row_iff (hplain r hr)).mp (hunbroken r hr)
    · exact (shows_row_iff (hplain r hr)).mp (hshows r hr)
  · intro h
    refine ⟨_, rfl, ?_⟩
    rw [flatMap_pieces fun r hr => (unbroken_row_iff (hplain r hr)).mpr (h r hr).1,
      List.forall₂_map_left_iff, List.forall₂_same]
    intro r hr
    exact (shows_row_iff (hplain r hr)).mpr (h r hr).2

/-! ## The section of a report -/

/-- A result without what is written after its insights. -/
def withoutAdvice (r : Result) : Result :=
  { r with assessment := { r.assessment with recommendations := [], warnings := [] } }

theorem ofLines_append (lines more : List String) :
    (ReportFormat.ofLines (lines ++ more)).toList =
      (ReportFormat.ofLines lines).toList ++ (ReportFormat.ofLines more).toList := by
  simp only [toList_ofLines, unlines, List.map_append, List.flatMap_append]

theorem sectionOf_of_ne_nil {body : List String} (heading : String) (head : List String)
    (hne : body ≠ []) : sectionOf heading head body =
      ["### " ++ heading, ""] ++ head ++ body ++ [""] := by
  unfold sectionOf
  rw [if_neg (by simpa using hne)]

theorem resultLines_eq {result : Result} (hne : result.assessment.recommendations ≠ []) :
    ∃ after, resultLines result = resultLines (withoutAdvice result) ++
      (["### Recommendations", ""] ++ (tableHead ++ result.assessment.recommendations.map row) ++
        [""] ++ after) := by
  refine ⟨sectionOf ("Warnings (" ++ toString result.assessment.warnings.length ++ ")") []
    (result.assessment.warnings.map fun w => "- " ++ w.toString), ?_⟩
  have hrows : result.assessment.recommendations.map row ≠ [] :=
    fun hnil => hne (List.map_eq_nil_iff.mp hnil)
  have hnone : ∀ heading head, sectionOf heading head [] = [] := fun _ _ => rfl
  simp only [resultLines, withoutAdvice, Result.kind, sectionOf_of_ne_nil _ _ hrows, List.map_nil,
    hnone]
  simp

theorem exists_render_eq (colors : Bool) (earlier later : List Result) {result : Result}
    (hne : result.assessment.recommendations ≠ []) :
    ∃ after, (ReportFormat.markdown.render colors (earlier ++ result :: later)).toList =
      (ReportFormat.markdown.render colors (earlier ++ [withoutAdvice result])).toList ++
        "### Recommendations\n\n".toList ++ tableText result.assessment.recommendations ++
          '\n' :: after := by
  obtain ⟨after, hresult⟩ := resultLines_eq hne
  refine ⟨(ReportFormat.ofLines (after ++ later.flatMap resultLines)).toList, ?_⟩
  have hlines : lines (earlier ++ result :: later) = lines (earlier ++ [withoutAdvice result]) ++
      ["### Recommendations", ""] ++ (tableHead ++ result.assessment.recommendations.map row) ++
        [""] ++ (after ++ later.flatMap resultLines) := by
    unfold lines
    simp [hresult]
  have hheading : (ReportFormat.ofLines ["### Recommendations", ""]).toList =
      "### Recommendations\n\n".toList := by
    decide +kernel
  have hend : (ReportFormat.ofLines [""]).toList = ['\n'] := by
    decide +kernel
  unfold ReportFormat.render tableText
  rw [hlines, ofLines_append, ofLines_append, ofLines_append, ofLines_append, hheading, hend]
  simp

/-- Every analysis gives plain categories and efforts.  Where these are plain, the section with the
recommendations is a table of one line and four cells for each of them, in which the third cell gives
the description back, exactly when no description holds the end of a line and none holds a bar whose
backslash is escaped by the one before it. -/
theorem recommendations_table_iff (reading : Escaping) (colors : Bool)
    (earlier later : List Result) (result : Result)
    (hne : result.assessment.recommendations ≠ [])
    (hplain : PlainAdvice result.assessment.recommendations) :
    (∃ after, (ReportFormat.markdown.render colors (earlier ++ result :: later)).toList =
      (ReportFormat.markdown.render colors (earlier ++ [withoutAdvice result])).toList ++
        "### Recommendations\n\n".toList ++ tableText result.assessment.recommendations ++
          '\n' :: after) ∧
    (IsTable reading result.assessment.recommendations
        (linesOf (tableText result.assessment.recommendations)) ↔
      ∀ r ∈ result.assessment.recommendations,
        Unbroken r.description.toList ∧ reading.Keeps r.description.toList) ∧
    ∀ {v now settings command found},
      CommandLine.assessments v now settings command = .ok found →
        ∀ a ∈ found, PlainAdvice a.recommendations := by
  refine ⟨exists_render_eq colors earlier later hne, isTable_tableText_iff hplain, ?_⟩
  intro v now settings command found hfound
  exact CommandLine.plain_of_assessments hfound

/-! ## A bar and a line feed in a name -/

def barAdvice : Recommendation :=
  { category := "complexity", priority := .critical
    description := "Refactor src/a|b.js: 312 lines of code", effort := "2-4 hours" }

def barResult : Result :=
  { assessment :=
      { report := .dependencies (.ofDependencies []), recommendations := [barAdvice] }
    generatedAt := ⟨0, 0⟩ }

theorem barResult_table : PlainAdvice [barAdvice] ∧
    ∀ reading, IsTable reading [barAdvice] (linesOf (tableText [barAdvice])) := by
  have hplain : PlainAdvice [barAdvice] := by
    rw [plainAdvice_cons]
    exact ⟨by decide, plainAdvice_nil⟩
  refine ⟨hplain, ?_⟩
  intro reading
  obtain ⟨-, htable, -⟩ := recommendations_table_iff reading false [] [] barResult
    (List.cons_ne_nil _ _) hplain
  apply htable.mpr
  intro r hr
  obtain rfl := List.mem_singleton.mp hr
  constructor
  · decide +kernel
  · cases reading with
    | byAny => exact keeps_byAny _
    | byUnescaped =>
        apply splitBars_padded_iff.mp
        decide +kernel

theorem exists_advice_on_vulnerable {r : Dependencies.Report} (names : List String)
    (hnames : (r.dependencies.filter Dependency.isVulnerable).map Dependency.name = names)
    (hne : names ≠ []) : ∃ x ∈ Dependencies.recommendations r, x.description =
      "Update or replace vulnerable dependencies: " ++ ", ".intercalate names := by
  have hsome : ¬ names.isEmpty = true := fun hnil => hne (List.isEmpty_iff.mp hnil)
  unfold Dependencies.recommendations
  simp only [hnames]
  rw [if_neg hsome]
  exact ⟨_, List.mem_append_left _ (List.mem_append_left _ (List.mem_singleton_self _)), rfl⟩

def twoLineManifest : String :=
  "\x7b\"dependencies\":\x7b\"lodash\\nx\":\"^4\"\x7d\x7d"

def twoLineName : Dependency :=
  { name := "lodash\nx", version := "^4", ecosystem := .npm, scope := .runtime }

theorem twoLineManifest_no_table : ∃ found,
    Manifest.parsePackageJson twoLineManifest.toList = .ok found ∧
      let advice := (Dependencies.assess
        (.ofDependencies (found.map (Dependency.lookUp .offline))) []).recommendations
      PlainAdvice advice ∧ ∀ reading, ¬ IsTable reading advice (linesOf (tableText advice)) := by
  have hparse : Manifest.parsePackageJson twoLineManifest.toList =
      .ok [twoLineName] := by
    cbv
  refine ⟨_, hparse, ?_⟩
  intro advice
  have hplain : PlainAdvice advice :=
    plainAdvice_byUrgency (Dependencies.plain_recommendations _)
  refine ⟨hplain, ?_⟩
  intro reading htable
  have hnames : ((([twoLineName].map (Dependency.lookUp .offline)).filter
      Dependency.isVulnerable).map Dependency.name) = ["lodash\nx"] := by
    decide +kernel
  obtain ⟨x, hx, hdescription⟩ := exists_advice_on_vulnerable (r := .ofDependencies _) _ hnames
    (List.cons_ne_nil _ _)
  have hunbroken := ((isTable_tableText_iff hplain).mp htable x (List.mem_mergeSort.mpr hx)).1
  rw [hdescription] at hunbroken
  exact absurd hunbroken (by decide +kernel)

end RepoAudit.Markdown
