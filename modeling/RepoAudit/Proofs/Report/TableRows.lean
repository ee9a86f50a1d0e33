import RepoAudit.Report.Markdown
import Mathlib.Tactic

/-!
# Rows of Markdown tables

A row is read by cutting it at the bars that no backslash escapes.  Readers differ in whether a
backslash that is escaped itself still escapes the bar behind it.  A text in which a backslash is put
before every bar is one piece where these backslashes escape, and then gives the text back.
-/

namespace RepoAudit.Markdown

/-- Which backslashes escape the character behind them: all, or those that are not escaped. -/
inductive Escaping where
  | byAny
  | byUnescaped

namespace Escaping

/-- A character escapes the one behind it, given whether it is escaped itself. -/
def escapes (reading : Escaping) (escaped : Bool) (c : Char) : Bool :=
  match reading with
  | byAny => c == '\\'
  | byUnescaped => c == '\\' && !escaped

/-- The character behind a text is escaped. -/
def behind (reading : Escaping) (t : Text) : Bool :=
  t.foldl reading.escapes false

/-- A backslash that is put before a bar of the text escapes it. -/
def Keeps (reading : Escaping) (t : Text) : Prop :=
  ∀ before after, t = before ++ '|' :: after →
    reading.escapes (reading.behind before) '\\' = true

end Escaping

/-- The pieces of a text between the bars that are not escaped. -/
def splitBars (reading : Escaping) : (escaped : Bool) → Text → List Text
  | _, [] => [[]]
  | escaped, c :: rest =>
      if c == '|' && !escaped then [] :: splitBars reading false rest
      else (splitBars reading (reading.escapes escaped c) rest).modifyHead (c :: ·)

def escapeBars (t : Text) : Text :=
  t.replaceChar '|' ['\\', '|']

def unescapeBars : Text → Text
  | '\\' :: '|' :: rest => '|' :: unescapeBars rest
  | c :: rest => c :: unescapeBars rest
  | [] => []

/-- A cell with a blank on each side. -/
def padded (t : Text) : Text :=
  ' ' :: (t ++ [' '])

variable {reading : Escaping} {escaped : Bool} {c : Char} {t rest : Text}

/-! ## Cutting -/

theorem escapes_bar (reading : Escaping) (escaped : Bool) : reading.escapes escaped '|' = false := by
  cases reading <;> rfl

theorem escapes_blank (reading : Escaping) (escaped : Bool) :
    reading.escapes escaped ' ' = false := by
  cases reading <;> rfl

theorem splitBars_bar (reading : Escaping) (rest : Text) :
    splitBars reading false ('|' :: rest) = [] :: splitBars reading false rest := by
  rfl

theorem splitBars_cons (reading : Escaping) (rest : Text) (h : c = '|' → escaped = true) :
    splitBars reading escaped (c :: rest) =
      (splitBars reading (reading.escapes escaped c) rest).modifyHead (c :: ·) := by
  rw [splitBars]
  apply if_neg
  intro hbar
  obtain ⟨hc, hfree⟩ := Bool.and_eq_true_iff.mp hbar
  rw [h (eq_of_beq hc)] at hfree
  cases hfree

theorem splitBars_ne_nil (reading : Escaping) (escaped : Bool) (t : Text) :
    splitBars reading escaped t ≠ [] := by
  induction t generalizing escaped with
  | nil => exact List.cons_ne_nil _ _
  | cons c rest ih =>
      unfold splitBars
      split
      · exact List.cons_ne_nil _ _
      · intro hnil
        exact ih _ (List.modifyHead_eq_nil_iff.mp hnil)

theorem splitBars_of_not_mem (reading : Escaping) (escaped : Bool) (ht : '|' ∉ t) :
    splitBars reading escaped t = [t] := by
  induction t generalizing escaped with
  | nil => rfl
  | cons c rest ih =>
      rw [List.mem_cons, not_or] at ht
      rw [splitBars_cons reading rest fun hc => absurd hc.symm ht.1, ih _ ht.2]
      rfl

theorem splitBars_append (reading : Escaping) (rest : Text)
    (hbehind : t.foldl reading.escapes escaped = false) :
    splitBars reading escaped (t ++ '|' :: rest) =
      splitBars reading escaped t ++ splitBars reading false rest := by
  induction t generalizing escaped with
  | nil =>
      rw [List.foldl_nil] at hbehind
      subst hbehind
      rfl
  | cons c t ih =>
      rw [List.foldl_cons] at hbehind
      rw [List.cons_append]
      by_cases hbar : c = '|' ∧ escaped = false
      · obtain ⟨rfl, rfl⟩ := hbar
        rw [escapes_bar] at hbehind
        rw [splitBars_bar, splitBars_bar, ih hbehind, List.cons_append]
      · have hfree : c = '|' → escaped = true := by
          intro hc
          by_contra hescaped
          exact hbar ⟨hc, Bool.eq_false_iff.mpr hescaped⟩
        obtain ⟨piece, more, hpieces⟩ :=
          List.exists_cons_of_ne_nil (splitBars_ne_nil reading (reading.escapes escaped c) t)
        rw [splitBars_cons _ _ hfree, splitBars_cons _ _ hfree, ih hbehind, hpieces]
        rfl

theorem eq_of_splitBars_eq_singleton {piece : Text} (h : splitBars reading escaped t = [piece]) :
    piece = t := by
  induction t generalizing escaped piece with
  | nil => exact (List.singleton_inj.mp h).symm
  | cons c t ih =>
      unfold splitBars at h
      split at h
      · exact absurd (List.cons.inj h).2 (splitBars_ne_nil _ _ _)
      · obtain ⟨first, more, hpieces⟩ :=
          List.exists_cons_of_ne_nil (splitBars_ne_nil reading (reading.escapes escaped c) t)
        rw [hpieces, List.modifyHead_cons] at h
        obtain ⟨rfl, rfl⟩ := List.cons.inj h
        rw [ih hpieces]

theorem foldl_padded (reading : Escaping) (escaped : Bool) (t : Text) :
    (padded t).foldl reading.escapes escaped = false := by
  unfold padded
  rw [List.foldl_cons, List.foldl_append, List.foldl_cons, List.foldl_nil]
  exact escapes_blank reading _

/-- The blank at the end of a cell lets the bar behind it end the cell. -/
theorem splitBars_padded_append (reading : Escaping) (t rest : Text) :
    splitBars reading false (padded t ++ '|' :: rest) =
      splitBars reading false (padded t) ++ splitBars reading false rest :=
  splitBars_append reading rest (foldl_padded reading false t)

/-! ## Escaping -/

theorem escapeBars_bar (t : Text) : escapeBars ('|' :: t) = '\\' :: '|' :: escapeBars t := by
  rfl

theorem escapeBars_cons (hc : c ≠ '|') (t : Text) : escapeBars (c :: t) = c :: escapeBars t := by
  unfold escapeBars Text.replaceChar
  rw [List.flatMap_cons, if_neg (by simpa using hc), List.singleton_append]

theorem escapeBars_padded (t : Text) : padded (escapeBars t) = escapeBars (padded t) := by
  unfold padded
  rw [escapeBars_cons (by decide)]
  unfold escapeBars Text.replaceChar
  rw [List.flatMap_append]
  rfl

theorem head?_escapeBars (t : Text) : (escapeBars t).head? ≠ some '|' := by
  cases t with
  | nil => exact Option.some_ne_none _ |>.symm
  | cons c t =>
      by_cases hc : c = '|'
      · rw [hc, escapeBars_bar, List.head?_cons]
        decide
      · rw [escapeBars_cons hc, List.head?_cons]
        exact fun h => hc (Option.some.inj h)

theorem unescapeBars_cons (h : c = '\\' → rest.head? ≠ some '|') :
    unescapeBars (c :: rest) = c :: unescapeBars rest := by
  apply unescapeBars.eq_2
  rintro rest' rfl rfl
  exact h rfl rfl

theorem unescapeBars_escapeBars (t : Text) : unescapeBars (escapeBars t) = t := by
  induction t with
  | nil => rfl
  | cons c t ih =>
      by_cases hc : c = '|'
      · rw [hc, escapeBars_bar]
        exact congrArg ('|' :: ·) ih
      · rw [escapeBars_cons hc, unescapeBars_cons fun _ => head?_escapeBars t, ih]

theorem modifyHead_eq_singleton_iff {pieces : List Text} (hne : pieces ≠ []) :
    pieces.modifyHead (c :: ·) = [c :: t] ↔ pieces = [t] := by
  obtain ⟨piece, more, rfl⟩ := List.exists_cons_of_ne_nil hne
  rw [List.modifyHead_cons, List.cons.injEq, List.cons.injEq, List.cons.injEq]
  simp

theorem forall_split_cons_iff {p : Text → Prop} :
    (∀ before after, c :: t = before ++ '|' :: after → p before) ↔
      (c = '|' → p []) ∧ ∀ before after, t = before ++ '|' :: after → p (c :: before) := by
  constructor
  · intro h
    constructor
    · rintro rfl
      exact h [] t rfl
    · rintro before after rfl
      exact h (c :: before) after rfl
  · rintro ⟨hhere, hlater⟩ before after heq
    cases before with
    | nil =>
        obtain ⟨hc, -⟩ := List.cons.inj heq
        exact hhere hc
    | cons d before =>
        obtain ⟨rfl, ht⟩ := List.cons.inj heq
        exact hlater before after ht

/-- The state of the reader goes along: whether the next character is escaped. -/
theorem splitBars_escapeBars_iff (reading : Escaping) (escaped : Bool) (t : Text) :
    splitBars reading escaped (escapeBars t) = [escapeBars t] ↔
      ∀ before after, t = before ++ '|' :: after →
        reading.escapes (before.foldl reading.escapes escaped) '\\' = true := by
  induction t generalizing escaped with
  | nil => simp [escapeBars, Text.replaceChar, splitBars]
  | cons c t ih =>
      rw [forall_split_cons_iff]
      by_cases hc : c = '|'
      · subst hc
        rw [escapeBars_bar, splitBars_cons _ _ (by rintro ⟨⟩),
          modifyHead_eq_singleton_iff (splitBars_ne_nil _ _ _)]
        cases hescapes : reading.escapes escaped '\\' with
        | false =>
            rw [splitBars_bar]
            constructor
            · intro h
              cases (List.cons.inj h).1
            · rintro ⟨hhere, -⟩
              rw [List.foldl_nil, hescapes] at hhere
              cases hhere rfl
        | true =>
            rw [splitBars_cons _ _ fun _ => rfl, modifyHead_eq_singleton_iff
              (splitBars_ne_nil _ _ _), escapes_bar, ih]
            simp only [List.foldl_nil, hescapes, List.foldl_cons, escapes_bar]
            simp
      · rw [escapeBars_cons hc, splitBars_cons _ _ fun h => absurd h hc,
          modifyHead_eq_singleton_iff (splitBars_ne_nil _ _ _), ih]
        simp only [hc, false_implies, true_and, List.foldl_cons]

theorem split_concat_blank_iff {before : Text} :
    (∃ after, t ++ [' '] = before ++ '|' :: after) ↔ ∃ after, t = before ++ '|' :: after := by
  constructor
  · rintro ⟨after, heq⟩
    rcases List.eq_nil_or_concat' after with rfl | ⟨init, last, rfl⟩
    · have hlast := List.append_inj_right' heq rfl
      simp at hlast
    · refine ⟨init, ?_⟩
      rw [← List.cons_append, ← List.append_assoc] at heq
      exact List.append_inj_left' heq rfl
  · rintro ⟨after, rfl⟩
    exact ⟨after ++ [' '], by rw [List.append_assoc, List.cons_append]⟩

theorem splitBars_padded_iff :
    splitBars reading false (padded (escapeBars t)) = [padded (escapeBars t)] ↔
      reading.Keeps t := by
  rw [escapeBars_padded, splitBars_escapeBars_iff]
  unfold padded Escaping.Keeps Escaping.behind
  rw [forall_split_cons_iff]
  simp only [List.foldl_cons, escapes_blank]
  constructor
  · rintro ⟨-, hlater⟩ before after heq
    obtain ⟨after', heq'⟩ := split_concat_blank_iff.mpr ⟨after, heq⟩
    exact hlater before after' heq'
  · intro hkeeps
    constructor
    · rintro ⟨⟩
    · intro before after heq
      obtain ⟨after', heq'⟩ := split_concat_blank_iff.mp ⟨after, heq⟩
      exact hkeeps before after' heq'

theorem keeps_byAny (t : Text) : Escaping.byAny.Keeps t :=
  fun _ _ _ => rfl

end RepoAudit.Markdown
