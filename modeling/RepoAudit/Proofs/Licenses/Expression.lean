import RepoAudit.Proofs.Licenses.Combination
import RepoAudit.Proofs.Text.Sentences
import RepoAudit.Proofs.Text.Words

/-!
# License expressions

An expression combines leaves by operators and groups them by parentheses.  It can be written with
any blanks, as long as words do not run into each other.  The parts of a written expression are its
leaves, from left to right, and its terms are those of the leaves taken together.
-/

namespace RepoAudit

inductive LicenseOperator where
  | upperOr
  | upperAnd
  | lowerOr
  | lowerAnd

namespace LicenseOperator

def word : LicenseOperator → Text
  | upperOr => ['O', 'R']
  | upperAnd => ['A', 'N', 'D']
  | lowerOr => ['o', 'r']
  | lowerAnd => ['a', 'n', 'd']

def words : List Text :=
  [upperOr, upperAnd, lowerOr, lowerAnd].map word

theorem contains_words {w : Text} :
    words.contains w = true ↔ ∃ op : LicenseOperator, w = op.word := by
  rw [List.contains_iff_mem, words, List.mem_map]
  constructor
  · rintro ⟨op, -, hop⟩
    exact ⟨op, hop.symm⟩
  · rintro ⟨op, rfl⟩
    exact ⟨op, by cases op <;> simp, rfl⟩

end LicenseOperator

/-- A word that can stand in the name of a license. -/
structure IsNameWord (w : Text) : Prop where
  ne_nil : w ≠ []
  plain : ∀ c ∈ w, isBlank c = false ∧ c ≠ '(' ∧ c ≠ ')' ∧ c ≠ '/'
  not_operator : ∀ op : LicenseOperator, w ≠ op.word

theorem isNameWord_iff {w : Text} :
    IsNameWord w ↔ w ≠ [] ∧
      (w.all fun c => !isBlank c && c != '(' && c != ')' && c != '/') = true ∧
      LicenseOperator.words.contains w = false := by
  have hplain : (w.all fun c => !isBlank c && c != '(' && c != ')' && c != '/') = true ↔
      ∀ c ∈ w, isBlank c = false ∧ c ≠ '(' ∧ c ≠ ')' ∧ c ≠ '/' := by
    simp [and_assoc]
  have hoperator : LicenseOperator.words.contains w = false ↔
      ∀ op : LicenseOperator, w ≠ op.word := by
    rw [← Bool.not_eq_true, LicenseOperator.contains_words, not_exists]
  rw [hplain, hoperator]
  constructor
  · rintro ⟨hne, hchars, hword⟩
    exact ⟨hne, hchars, hword⟩
  · rintro ⟨hne, hchars, hword⟩
    exact ⟨hne, hchars, hword⟩

instance (w : Text) : Decidable (IsNameWord w) :=
  decidable_of_iff _ isNameWord_iff.symm

structure LicenseLeaf where
  words : List Text
  ne_nil : words ≠ []
  nameWords : ∀ w ∈ words, IsNameWord w

def LicenseLeaf.text (l : LicenseLeaf) : Text :=
  Text.join [' '] l.words

inductive LicenseExpression where
  | leaf (l : LicenseLeaf)
  | combined (left : LicenseExpression) (op : LicenseOperator) (right : LicenseExpression)
  | grouped (e : LicenseExpression)

inductive LicenseLexeme where
  | word (w : Text)
  | opening
  | closing

namespace LicenseExpression

def leaves : LicenseExpression → List LicenseLeaf
  | leaf l => [l]
  | combined left _ right => left.leaves ++ right.leaves
  | grouped e => e.leaves

def lexemes : LicenseExpression → List LicenseLexeme
  | leaf l => l.words.map .word
  | combined left op right => left.lexemes ++ .word op.word :: right.lexemes
  | grouped e => .opening :: (e.lexemes ++ [.closing])

/-- The words of an expression, operators included. -/
def words : LicenseExpression → List Text
  | leaf l => l.words
  | combined left op right => left.words ++ op.word :: right.words
  | grouped e => e.words

end LicenseExpression

/-- A text writes down lexemes: blanks stand before and behind each of them, and only between a word
and a parenthesis or at an end may they be left out. -/
inductive Writes : Text → List LicenseLexeme → Prop
  | nil {gap : Text} (hgap : ∀ c ∈ gap, isBlank c = true) : Writes gap []
  | word {gap w t : Text} {ls : List LicenseLexeme} (hgap : ∀ c ∈ gap, isBlank c = true)
      (hend : ∀ c ∈ t.head?, isBlank c = true ∨ c = '(' ∨ c = ')') (ht : Writes t ls) :
      Writes (gap ++ (w ++ t)) (.word w :: ls)
  | opening {gap t : Text} {ls : List LicenseLexeme} (hgap : ∀ c ∈ gap, isBlank c = true)
      (ht : Writes t ls) : Writes (gap ++ '(' :: t) (.opening :: ls)
  | closing {gap t : Text} {ls : List LicenseLexeme} (hgap : ∀ c ∈ gap, isBlank c = true)
      (ht : Writes t ls) : Writes (gap ++ ')' :: t) (.closing :: ls)

theorem Writes.checked_word {gap w t : Text} {ls : List LicenseLexeme}
    (hgap : gap.all isBlank = true)
    (hend : (t.head?.all fun c => isBlank c || c == '(' || c == ')') = true) (ht : Writes t ls) :
    Writes (gap ++ (w ++ t)) (.word w :: ls) := by
  apply Writes.word (List.all_eq_true.mp hgap) _ ht
  intro c hc
  rw [Option.mem_def.mp hc] at hend
  simpa [or_assoc] using hend

/-! ## The words of a written expression -/

def withoutParentheses (t : Text) : Text :=
  (t.replaceChar '(' [' ']).replaceChar ')' [' ']

theorem withoutParentheses_append (t u : Text) :
    withoutParentheses (t ++ u) = withoutParentheses t ++ withoutParentheses u := by
  simp [withoutParentheses, Text.replaceChar]

theorem withoutParentheses_cons (c : Char) (t : Text) :
    withoutParentheses (c :: t) =
      (if c = '(' ∨ c = ')' then ' ' else c) :: withoutParentheses t := by
  by_cases hopening : c = '('
  · simp [withoutParentheses, Text.replaceChar, hopening]
  · by_cases hclosing : c = ')' <;>
      simp [withoutParentheses, Text.replaceChar, hopening, hclosing]

theorem withoutParentheses_of_plain {t : Text} (ht : ∀ c ∈ t, c ≠ '(' ∧ c ≠ ')') :
    withoutParentheses t = t := by
  induction t with
  | nil => rfl
  | cons c t ih =>
      rw [List.forall_mem_cons] at ht
      rw [withoutParentheses_cons, if_neg (by simp [ht.1]), ih ht.2]

theorem withoutParentheses_blank {gap : Text} (hgap : ∀ c ∈ gap, isBlank c = true) :
    withoutParentheses gap = gap := by
  apply withoutParentheses_of_plain
  intro c hc
  constructor
  · rintro rfl
    exact absurd (hgap _ hc) (by decide)
  · rintro rfl
    exact absurd (hgap _ hc) (by decide)

theorem head?_withoutParentheses {t : Text}
    (ht : ∀ c ∈ t.head?, isBlank c = true ∨ c = '(' ∨ c = ')') :
    ∀ c ∈ (withoutParentheses t).head?, isBlank c = true := by
  cases t with
  | nil => simp [withoutParentheses, Text.replaceChar]
  | cons d t =>
      intro c hc
      rw [withoutParentheses_cons, List.head?_cons, Option.mem_some_iff] at hc
      rcases ht d rfl with hd | hd
      · split at hc
        · rw [← hc]
          decide
        · rw [← hc]
          exact hd
      · rw [if_pos hd] at hc
        rw [← hc]
        decide

namespace LicenseLexeme

def word? : LicenseLexeme → Option Text
  | word w => some w
  | _ => none

end LicenseLexeme

theorem Writes.words_eq {t : Text} {ls : List LicenseLexeme} (h : Writes t ls)
    (hwords : ∀ w ∈ ls.filterMap LicenseLexeme.word?,
      w ≠ [] ∧ ∀ c ∈ w, isBlank c = false ∧ c ≠ '(' ∧ c ≠ ')') :
    (withoutParentheses t).words = ls.filterMap LicenseLexeme.word? := by
  induction h with
  | nil hgap =>
      rw [withoutParentheses_blank hgap]
      exact Text.words_of_blank hgap
  | @word gap w t ls hgap hend ht ih =>
      have hword : LicenseLexeme.word? (.word w) = some w := rfl
      rw [List.filterMap_cons_some hword] at hwords ⊢
      rw [List.forall_mem_cons] at hwords
      obtain ⟨⟨hne, hw⟩, hrest⟩ := hwords
      have hplain : withoutParentheses w = w :=
        withoutParentheses_of_plain fun c hc => (hw c hc).2
      rw [withoutParentheses_append, withoutParentheses_blank hgap, Text.words_blank_append hgap,
        withoutParentheses_append, hplain,
        Text.words_append hne (fun c hc => (hw c hc).1) (head?_withoutParentheses hend), ih hrest]
  | @opening gap t ls hgap ht ih =>
      rw [withoutParentheses_append, withoutParentheses_blank hgap, Text.words_blank_append hgap,
        withoutParentheses_cons, if_pos (Or.inl rfl), Text.words_blank_cons (by decide)]
      exact ih hwords
  | @closing gap t ls hgap ht ih =>
      rw [withoutParentheses_append, withoutParentheses_blank hgap, Text.words_blank_append hgap,
        withoutParentheses_cons, if_pos (Or.inr rfl), Text.words_blank_cons (by decide)]
      exact ih hwords

namespace LicenseExpression

def Spelled (e : LicenseExpression) (t : Text) : Prop :=
  Writes t e.lexemes

theorem filterMap_lexemes (e : LicenseExpression) :
    e.lexemes.filterMap LicenseLexeme.word? = e.words := by
  induction e with
  | leaf l =>
      rw [lexemes, List.filterMap_map]
      exact List.filterMap_some
  | combined left op right ihLeft ihRight =>
      have hword : LicenseLexeme.word? (.word op.word) = some op.word := rfl
      rw [lexemes, List.filterMap_append, List.filterMap_cons_some hword, ihLeft, ihRight, words]
  | grouped e ih =>
      rw [lexemes, List.filterMap_cons_none rfl, List.filterMap_append, ih, words]
      exact List.append_nil _

theorem isNameWord_or_operator {e : LicenseExpression} {w : Text} (hw : w ∈ e.words) :
    IsNameWord w ∨ ∃ op : LicenseOperator, w = op.word := by
  induction e with
  | leaf l => exact Or.inl (l.nameWords w hw)
  | combined left op right ihLeft ihRight =>
      rw [words, List.mem_append, List.mem_cons] at hw
      rcases hw with hw | rfl | hw
      · exact ihLeft hw
      · exact Or.inr ⟨op, rfl⟩
      · exact ihRight hw
  | grouped e ih => exact ih hw

theorem plain_of_mem_words {e : LicenseExpression} {w : Text} (hw : w ∈ e.words) :
    w ≠ [] ∧ ∀ c ∈ w, isBlank c = false ∧ c ≠ '(' ∧ c ≠ ')' := by
  rcases isNameWord_or_operator hw with hname | ⟨op, rfl⟩
  · refine ⟨hname.ne_nil, ?_⟩
    intro c hc
    obtain ⟨hblank, hopening, hclosing, -⟩ := hname.plain c hc
    exact ⟨hblank, hopening, hclosing⟩
  · have hop : op.word ≠ [] ∧
        (op.word.all fun c => !isBlank c && c != '(' && c != ')') = true := by
      cases op <;> decide
    simpa [and_assoc] using hop

theorem words_of_spelled {e : LicenseExpression} {t : Text} (h : e.Spelled t) :
    (withoutParentheses t).words = e.words := by
  have hwords := Writes.words_eq h
  rw [filterMap_lexemes] at hwords
  exact hwords fun w hw => plain_of_mem_words hw

/-! ## The leaves -/

theorem splitOnP_words (e : LicenseExpression) :
    e.words.splitOnP (fun w => LicenseOperator.words.contains w) =
      e.leaves.map LicenseLeaf.words := by
  induction e with
  | leaf l =>
      apply List.splitOnP_eq_singleton
      intro w hw
      exact (isNameWord_iff.mp (l.nameWords w hw)).2.2
  | combined left op right ihLeft ihRight =>
      have hop : LicenseOperator.words.contains op.word = true :=
        LicenseOperator.contains_words.mpr ⟨op, rfl⟩
      rw [words, List.splitOnP_append_cons _ _ hop, ihLeft, ihRight, leaves, List.map_append]
  | grouped e ih => exact ih

theorem leaves_ne_nil (e : LicenseExpression) : e.leaves ≠ [] := by
  induction e with
  | leaf l => exact List.cons_ne_nil _ _
  | combined left op right ihLeft _ =>
      rw [leaves]
      exact List.append_ne_nil_of_left_ne_nil ihLeft _
  | grouped e ih => exact ih

end LicenseExpression

namespace LicenseLeaf

theorem exists_text_eq (l : LicenseLeaf) : ∃ w rest, IsNameWord w ∧ l.text = w ++ rest := by
  obtain ⟨w, ws, hwords⟩ := List.exists_cons_of_ne_nil l.ne_nil
  refine ⟨w, Text.continuation ws, l.nameWords w (by simp [hwords]), ?_⟩
  rw [text, hwords]
  exact Text.sentence_cons w ws

theorem text_ne_nil (l : LicenseLeaf) : l.text ≠ [] := by
  obtain ⟨w, rest, hw, htext⟩ := l.exists_text_eq
  rw [htext]
  exact List.append_ne_nil_of_left_ne_nil hw.ne_nil _

theorem head?_text {l : LicenseLeaf} {c : Char} (hc : c ∈ l.text.head?) : isBlank c = false := by
  obtain ⟨w, rest, hw, htext⟩ := l.exists_text_eq
  rw [htext, List.head?_append_of_ne_nil _ hw.ne_nil] at hc
  exact (hw.plain c (List.mem_of_mem_head? hc)).1

theorem getLast?_text {l : LicenseLeaf} {c : Char} (hc : c ∈ l.text.getLast?) :
    isBlank c = false := by
  obtain ⟨ws, w, hwords⟩ := (List.eq_nil_or_concat' l.words).resolve_left l.ne_nil
  have hw : IsNameWord w := l.nameWords w (by simp [hwords])
  obtain ⟨lead, hlead⟩ := Text.exists_sentence_concat ws w
  rw [text, hwords, ← Text.sentence, hlead, List.getLast?_append_of_ne_nil _ hw.ne_nil] at hc
  exact (hw.plain c (List.mem_of_getLast? hc)).1

theorem slash_not_mem_text (l : LicenseLeaf) : '/' ∉ l.text := by
  intro hslash
  rcases Text.mem_sentence hslash with hspace | ⟨w, hw, hmem⟩
  · exact absurd hspace (by decide)
  · exact ((l.nameWords w hw).plain '/' hmem).2.2.2 rfl

theorem trim_text (l : LicenseLeaf) : l.text.trim = l.text :=
  Text.trim_of_ends (fun _ hc => head?_text hc) fun _ hc => getLast?_text hc

theorem split_texts (ls : List LicenseLeaf) :
    (((ls.map text).flatMap (Text.splitFrom ['/'] 0)).map Text.trim).filter (!·.isEmpty) =
      ls.map text := by
  induction ls with
  | nil => rfl
  | cons l ls ih =>
      -- Neither the cut at slashes nor the clean-up after it changes a name.
      have hslash : Text.splitFrom ['/'] 0 l.text = [l.text] :=
        Text.splitFrom_of_not_mem l.slash_not_mem_text
      have hkept : (!l.text.isEmpty) = true := by
        simpa using l.text_ne_nil
      rw [List.map_cons, List.flatMap_cons, hslash, List.map_append, List.map_singleton,
        l.trim_text, List.singleton_append, List.filter_cons, if_pos hkept, ih]

end LicenseLeaf

theorem operatorMarks_eq :
    operatorMarks.map String.toList = LicenseOperator.words.map Text.markOf ++ [['/']] := by
  decide

theorem splitExpression_eq (raw : Text) :
    splitExpression raw =
      (((LicenseOperator.words.foldl
        (fun parts op => parts.flatMap (Text.splitFrom (Text.markOf op) 0))
        [Text.sentence (withoutParentheses raw).words]).flatMap
          (Text.splitFrom ['/'] 0)).map Text.trim).filter (!·.isEmpty) := by
  have hfold : ∀ parts : List Text,
      operatorMarks.foldl (fun parts mark => parts.flatMap (Text.splitOn mark)) parts =
        (LicenseOperator.words.foldl
          (fun parts op => parts.flatMap (Text.splitFrom (Text.markOf op) 0)) parts).flatMap
            (Text.splitFrom ['/'] 0) := by
    intro parts
    calc
      operatorMarks.foldl (fun parts mark => parts.flatMap (Text.splitOn mark)) parts
          = (operatorMarks.map String.toList).foldl
              (fun parts mark => parts.flatMap (Text.splitFrom mark 0)) parts := by
        rw [List.foldl_map]
        rfl
      _ = _ := by
        rw [operatorMarks_eq, List.foldl_append, List.foldl_map]
        rfl
  rw [splitExpression, hfold]
  rfl

namespace LicenseExpression

theorem splitExpression_of_spelled {e : LicenseExpression} {t : Text} (h : e.Spelled t) :
    splitExpression t = e.leaves.map LicenseLeaf.text := by
  have hspace : ∀ w ∈ e.words, ' ' ∉ w := by
    intro w hw hmem
    have hblank := ((plain_of_mem_words hw).2 ' ' hmem).1
    exact absurd hblank (by decide)
  have hops : ∀ op ∈ LicenseOperator.words, ' ' ∉ op := by decide
  have hpieces : [e.words].flatMap (List.splitOnP fun w => LicenseOperator.words.contains w) =
      e.leaves.map LicenseLeaf.words := by
    rw [List.flatMap_singleton, splitOnP_words]
  have hne : [] ∉ e.leaves.map LicenseLeaf.words := by
    intro hnil
    obtain ⟨l, -, hl⟩ := List.mem_map.mp hnil
    exact l.ne_nil hl
  have hcut : LicenseOperator.words.foldl
      (fun parts op => parts.flatMap (Text.splitFrom (Text.markOf op) 0)) [Text.sentence e.words] =
        e.leaves.map LicenseLeaf.text := by
    rw [← List.map_singleton, Text.foldl_splitFrom_sentences hops (by simpa using hspace)
      (by rwa [hpieces]), hpieces, List.map_map]
    rfl
  rw [splitExpression_eq, words_of_spelled h, hcut]
  exact LicenseLeaf.split_texts e.leaves

/-- The parts of a written expression are the names of its leaves, and its terms are copyleft if
those of a leaf are, compatible and recognized only if those of all leaves are, and as risky as
those of the riskiest leaf. -/
theorem parts_and_terms_of_spelled {e : LicenseExpression} {t : Text} (h : e.Spelled t) :
    splitExpression t = e.leaves.map LicenseLeaf.text ∧
      ∀ table : LicenseTable,
        let whole := table.termsOfAll [t]
        let parts := e.leaves.map fun l => table.terms l.text
        (whole.copyleft = true ↔ ∃ p ∈ parts, p.copyleft = true) ∧
          (whole.compatible = true ↔ ∀ p ∈ parts, p.compatible = true) ∧
          (whole.recognized = true ↔ ∀ p ∈ parts, p.recognized = true) ∧
          (∃ p ∈ parts, p.risk = whole.risk) ∧ ∀ p ∈ parts, p.risk.rank ≤ whole.risk.rank := by
  have hsplit := splitExpression_of_spelled h
  refine ⟨hsplit, ?_⟩
  intro table whole parts
  have hwhole : whole = .combine parts := by
    simp only [whole, parts, LicenseTable.termsOfAll, List.flatMap_singleton, hsplit, List.map_map,
      Function.comp_def]
  have hne : parts ≠ [] := by
    simpa [parts] using e.leaves_ne_nil
  rw [hwhole]
  refine ⟨?_, ?_, ?_, ?_, ?_⟩
  · rw [LicenseTerms.copyleft_combine, List.any_eq_true]
  · rw [LicenseTerms.compatible_combine hne, List.all_eq_true]
  · rw [LicenseTerms.recognized_combine hne, List.all_eq_true]
  · exact LicenseTerms.exists_risk_eq_combine hne
  · exact fun p hp => LicenseTerms.risk_le_combine hp

def mitLeaf : LicenseLeaf where
  words := ["MIT".toList]
  ne_nil := by decide
  nameWords := by decide

def gplLeaf : LicenseLeaf where
  words := ["GPL-3.0".toList]
  ne_nil := by decide
  nameWords := by decide

def apacheLeaf : LicenseLeaf where
  words := ["Apache".toList, "2.0".toList]
  ne_nil := by decide
  nameWords := by decide

def choiceText : Text :=
  "(MIT\tor GPL-3.0)AND Apache  2.0".toList

def choice : LicenseExpression :=
  .combined (.grouped (.combined (.leaf mitLeaf) .lowerOr (.leaf gplLeaf))) .upperAnd
    (.leaf apacheLeaf)

theorem choice_spelled : choice.Spelled choiceText := by
  refine @Writes.opening [] _ _ (by simp) ?_
  refine @Writes.checked_word [] "MIT".toList _ _ rfl (by decide) ?_
  refine @Writes.checked_word ['\t'] "or".toList _ _ rfl (by decide) ?_
  refine @Writes.checked_word [' '] "GPL-3.0".toList _ _ rfl (by decide) ?_
  refine @Writes.closing [] _ _ (by simp) ?_
  refine @Writes.checked_word [] "AND".toList _ _ rfl (by decide) ?_
  refine @Writes.checked_word [' '] "Apache".toList _ _ rfl (by decide) ?_
  refine @Writes.checked_word [' ', ' '] "2.0".toList [] _ rfl (by decide) ?_
  exact .nil (by simp)

theorem choice_parts_and_terms :
    choice.Spelled choiceText ∧
      splitExpression choiceText = ["MIT".toList, "GPL-3.0".toList, "Apache 2.0".toList] ∧
      (LicenseTable.builtIn.termsOfAll [choiceText]).copyleft = true := by
  obtain ⟨hparts, hterms⟩ := parts_and_terms_of_spelled choice_spelled
  refine ⟨choice_spelled, hparts, ?_⟩
  apply (hterms LicenseTable.builtIn).1.mpr
  exact ⟨_, List.mem_map_of_mem (List.mem_cons_of_mem _ List.mem_cons_self), by decide⟩

end LicenseExpression
end RepoAudit
