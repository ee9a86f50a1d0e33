import RepoAudit.Text.Basic
import Mathlib.Tactic

/-!
# Cutting a sentence at some of its words

A sentence is a text of words with single spaces between them.  A word with the spaces around it is
a mark at which a sentence can be cut, and neighbouring marks would share a space.  As long as no
two of the words at which a sentence is cut are neighbours, and none stands at an end, cutting the
text at one mark after the other gives the sentences of the words between.
-/

namespace RepoAudit.Text

/-! ## Occurrences of a mark -/

theorem splitFrom_skip (mark x rest : Text) :
    splitFrom mark x.length (x ++ rest) = splitFrom mark 0 rest := by
  induction x with
  | nil => rfl
  | cons c x ih => exact ih

theorem splitFrom_mark_append {mark : Text} (hne : mark ≠ []) (rest : Text) :
    splitFrom mark 0 (mark ++ rest) = [] :: splitFrom mark 0 rest := by
  cases mark with
  | nil => exact absurd rfl hne
  | cons c mark =>
      have hstarts : (c :: mark).isPrefixOf (c :: (mark ++ rest)) = true :=
        List.isPrefixOf_iff_prefix.mpr (List.prefix_append (c :: mark) rest)
      rw [List.cons_append, splitFrom, if_pos hstarts]
      exact congrArg _ (splitFrom_skip (c :: mark) mark rest)

theorem splitFrom_cons {mark : Text} {c : Char} {rest : Text} (h : ¬ mark <+: c :: rest) :
    splitFrom mark 0 (c :: rest) = (splitFrom mark 0 rest).modifyHead (c :: ·) := by
  have hstarts : ¬ mark.isPrefixOf (c :: rest) = true :=
    fun hmark => h (List.isPrefixOf_iff_prefix.mp hmark)
  rw [splitFrom, if_neg hstarts]

theorem splitFrom_append_of_not_mem {c : Char} {mark t : Text} (ht : c ∉ t) (rest : Text) :
    splitFrom (c :: mark) 0 (t ++ rest) = (splitFrom (c :: mark) 0 rest).modifyHead (t ++ ·) := by
  induction t with
  | nil => cases h : splitFrom (c :: mark) 0 rest <;> simp [h]
  | cons d t ih =>
      rw [List.mem_cons, not_or] at ht
      have hstarts : ¬ c :: mark <+: d :: (t ++ rest) := by
        intro h
        exact ht.1 (List.cons_prefix_cons.mp h).1
      rw [List.cons_append, splitFrom_cons hstarts, ih ht.2, List.modifyHead_modifyHead]
      rfl

theorem splitFrom_of_not_mem {c : Char} {mark t : Text} (ht : c ∉ t) :
    splitFrom (c :: mark) 0 t = [t] := by
  have h : splitFrom (c :: mark) 0 (t ++ []) =
      (splitFrom (c :: mark) 0 []).modifyHead (t ++ ·) := splitFrom_append_of_not_mem ht []
  rw [List.append_nil] at h
  rw [h]
  simp [splitFrom]

/-! ## Sentences -/

def sentence (ws : List Text) : Text :=
  join [' '] ws

/-- The words of a sentence that come after others. -/
def continuation (ws : List Text) : Text :=
  ws.flatMap (' ' :: ·)

theorem sentence_cons_cons (w v : Text) (ws : List Text) :
    sentence (w :: v :: ws) = w ++ ' ' :: sentence (v :: ws) := by
  simp [sentence, join, List.intercalate_cons_cons]

theorem sentence_cons (w : Text) (ws : List Text) :
    sentence (w :: ws) = w ++ continuation ws := by
  induction ws generalizing w with
  | nil => simp [sentence, join, continuation]
  | cons v ws ih =>
      rw [sentence_cons_cons, ih]
      rfl

theorem exists_sentence_concat (ws : List Text) (w : Text) :
    ∃ lead, sentence (ws ++ [w]) = lead ++ w := by
  cases ws with
  | nil => exact ⟨[], by simp [sentence, join]⟩
  | cons v ws =>
      refine ⟨v ++ continuation ws ++ [' '], ?_⟩
      rw [List.cons_append, sentence_cons]
      simp [continuation]

theorem mem_sentence {c : Char} {ws : List Text} (h : c ∈ sentence ws) :
    c = ' ' ∨ ∃ w ∈ ws, c ∈ w := by
  cases ws with
  | nil => exact absurd h List.not_mem_nil
  | cons w ws =>
      rw [sentence_cons, List.mem_append, continuation, List.mem_flatMap] at h
      rcases h with h | ⟨v, hv, h⟩
      · exact Or.inr ⟨w, List.mem_cons_self, h⟩
      · rcases List.mem_cons.mp h with rfl | h
        · exact Or.inl rfl
        · exact Or.inr ⟨v, List.mem_cons_of_mem _ hv, h⟩

/-- A word with the spaces around it. -/
def markOf (w : Text) : Text :=
  ' ' :: (w ++ [' '])

theorem eq_of_markOf_leads {op w : Text} (hop : ' ' ∉ op) (hw : ' ' ∉ w) {ws : List Text}
    (h : markOf op <+: ' ' :: sentence (w :: ws)) : op = w := by
  rw [markOf, List.cons_prefix_cons, sentence_cons] at h
  obtain ⟨rest, hrest⟩ := h.2
  rw [List.append_assoc] at hrest
  -- On both sides the first space ends the first word.
  have htake := congrArg (List.takeWhile (· != ' ')) hrest
  have hword : ∀ {v : Text}, ' ' ∉ v → ∀ c ∈ v, (c != ' ') = true := by
    intro v hv c hc
    simp only [bne_iff_ne, ne_eq]
    rintro rfl
    exact hv hc
  rw [List.takeWhile_append_of_pos (hword hop), List.takeWhile_append_of_pos (hword hw)] at htake
  cases ws with
  | nil => simpa [continuation] using htake
  | cons v ws => simpa [continuation] using htake

theorem splitOn_cons_of_ne {op w : Text} (hw : w ≠ op) (ws : List Text) :
    (w :: ws).splitOn op = (ws.splitOn op).modifyHead (w :: ·) := by
  rw [List.splitOn_cons_eq_if_modifyHead, if_neg (by simpa using hw)]

theorem splitOn_cons_self (op : Text) (ws : List Text) :
    (op :: ws).splitOn op = [] :: ws.splitOn op := by
  rw [List.splitOn_cons_eq_if_modifyHead, if_pos (by simp)]

theorem ne_of_nil_not_mem_splitOn {op w : Text} {ws : List Text}
    (h : [] ∉ (w :: ws).splitOn op) : w ≠ op := by
  rintro rfl
  rw [splitOn_cons_self] at h
  exact h List.mem_cons_self

theorem splitFrom_sentence_cons_cons {op w : Text} (hw : ' ' ∉ w) (v : Text) (ws : List Text) :
    splitFrom (markOf op) 0 (sentence (w :: v :: ws)) =
      (splitFrom (markOf op) 0 (' ' :: sentence (v :: ws))).modifyHead (w ++ ·) := by
  rw [sentence_cons_cons]
  exact splitFrom_append_of_not_mem hw _

theorem splitFrom_space_self (op w : Text) (ws : List Text) :
    splitFrom (markOf op) 0 (' ' :: sentence (op :: w :: ws)) =
      [] :: splitFrom (markOf op) 0 (sentence (w :: ws)) := by
  -- The mark takes the spaces on both sides of its word.
  have hmark : ' ' :: sentence (op :: w :: ws) = markOf op ++ sentence (w :: ws) := by
    rw [sentence_cons_cons, markOf]
    simp
  rw [hmark]
  exact splitFrom_mark_append (List.cons_ne_nil _ _) _

theorem splitFrom_space_of_ne {op w : Text} (hop : ' ' ∉ op) (hw : ' ' ∉ w) (hne : w ≠ op)
    (ws : List Text) :
    splitFrom (markOf op) 0 (' ' :: sentence (w :: ws)) =
      (splitFrom (markOf op) 0 (sentence (w :: ws))).modifyHead (' ' :: ·) := by
  apply splitFrom_cons
  intro hleads
  exact hne (eq_of_markOf_leads hop hw hleads).symm

theorem splitFrom_sentence {op : Text} (hop : ' ' ∉ op) {ws : List Text}
    (hws : ∀ w ∈ ws, ' ' ∉ w) (hpieces : [] ∉ ws.splitOn op) :
    splitFrom (markOf op) 0 (sentence ws) = (ws.splitOn op).map sentence := by
  induction ws using List.twoStepInduction with
  | nil => exact absurd (by simp [List.splitOn_eq_splitOnP]) hpieces
  | singleton w =>
      have hsplit : splitFrom (markOf op) 0 w = [w] :=
        splitFrom_of_not_mem (hws w List.mem_cons_self)
      rw [splitOn_cons_of_ne (ne_of_nil_not_mem_splitOn hpieces)]
      simpa [sentence, join, List.splitOn_eq_splitOnP] using hsplit
  | cons_cons w v ws ih ihv =>
      have hw : w ≠ op := ne_of_nil_not_mem_splitOn hpieces
      rw [List.forall_mem_cons, List.forall_mem_cons] at hws
      rw [splitOn_cons_of_ne hw] at hpieces ⊢
      rw [splitFrom_sentence_cons_cons hws.1]
      by_cases hv : v = op
      · subst hv
        rw [splitOn_cons_self] at hpieces ⊢
        have hrest : [] ∉ ws.splitOn v := by
          simpa using hpieces
        cases ws with
        | nil => exact absurd (by simp [List.splitOn_eq_splitOnP]) hrest
        | cons u us =>
            rw [splitFrom_space_self, ih hws.2.2 hrest]
            simp [sentence, join]
      · obtain ⟨piece, pieces, hsplit⟩ := List.exists_cons_of_ne_nil (List.splitOn_ne_nil op ws)
        have hwhole : (v :: ws).splitOn op = (v :: piece) :: pieces := by
          rw [splitOn_cons_of_ne hv, hsplit, List.modifyHead_cons]
        have hcut := ihv v (List.forall_mem_cons.mpr hws.2)
        rw [hwhole] at hpieces hcut ⊢
        rw [splitFrom_space_of_ne hop hws.2.1 hv, hcut (by simpa using hpieces),
          List.modifyHead_cons, List.map_cons, List.map_cons, sentence_cons_cons,
          List.modifyHead_cons, List.modifyHead_cons]

/-! ## Several marks -/

theorem splitOnP_flatMap (p q : Text → Bool) (ws : List Text) :
    (ws.splitOnP p).flatMap (List.splitOnP q) = ws.splitOnP fun w => p w || q w := by
  induction ws with
  | nil => simp
  | cons w ws ih =>
      obtain ⟨piece, pieces, hsplit⟩ := List.exists_cons_of_ne_nil (List.splitOnP_ne_nil p ws)
      rw [hsplit, List.flatMap_cons] at ih
      rw [List.splitOnP_cons_eq_if_modifyHead, List.splitOnP_cons_eq_if_modifyHead, hsplit, ← ih]
      cases hp : p w with
      | true => simp
      | false =>
          cases hq : q w with
          | true => simp [List.splitOnP_cons_eq_if_modifyHead, hq]
          | false =>
              obtain ⟨first, more, hfirst⟩ :=
                List.exists_cons_of_ne_nil (List.splitOnP_ne_nil q piece)
              simp [List.splitOnP_cons_eq_if_modifyHead, hq, hfirst]

theorem mem_of_mem_splitOn {op w : Text} {piece ws : List Text} (hpiece : piece ∈ ws.splitOn op)
    (hw : w ∈ piece) : w ∈ ws := by
  induction ws generalizing piece with
  | nil =>
      obtain rfl : piece = [] := by simpa [List.splitOn_eq_splitOnP] using hpiece
      exact absurd hw List.not_mem_nil
  | cons v ws ih =>
      by_cases hv : v = op
      · rw [hv, splitOn_cons_self, List.mem_cons] at hpiece
        rcases hpiece with rfl | hpiece
        · exact absurd hw List.not_mem_nil
        · exact List.mem_cons_of_mem _ (ih hpiece hw)
      · obtain ⟨first, pieces, hsplit⟩ := List.exists_cons_of_ne_nil (List.splitOn_ne_nil op ws)
        rw [splitOn_cons_of_ne hv, hsplit, List.modifyHead_cons, List.mem_cons] at hpiece
        rw [hsplit] at ih
        rcases hpiece with rfl | hpiece
        · rcases List.mem_cons.mp hw with rfl | hw
          · exact List.mem_cons_self
          · exact List.mem_cons_of_mem _ (ih List.mem_cons_self hw)
        · exact List.mem_cons_of_mem _ (ih (List.mem_cons_of_mem _ hpiece) hw)

/-- Cutting at one mark after the other is cutting at all of the words at once. -/
theorem foldl_splitFrom_sentences {ops : List Text} (hops : ∀ op ∈ ops, ' ' ∉ op)
    {pieces : List (List Text)} (hpieces : ∀ ws ∈ pieces, ∀ w ∈ ws, ' ' ∉ w)
    (hne : [] ∉ pieces.flatMap (List.splitOnP fun w => ops.contains w)) :
    ops.foldl (fun parts op => parts.flatMap (splitFrom (markOf op) 0)) (pieces.map sentence) =
      (pieces.flatMap (List.splitOnP fun w => ops.contains w)).map sentence := by
  induction ops generalizing pieces with
  | nil =>
      have hwhole : ∀ ws : List Text, ws.splitOnP (fun w => [].contains w) = [ws] := by
        intro ws
        exact List.splitOnP_eq_singleton fun w _ => rfl
      have hsame : (List.splitOnP fun w : Text => [].contains w) = fun ws => [ws] := funext hwhole
      rw [hsame, List.flatMap_singleton']
      rfl
  | cons op ops ih =>
      rw [List.forall_mem_cons] at hops
      have hsplit : pieces.flatMap (List.splitOnP fun w => (op :: ops).contains w) =
          (pieces.flatMap (List.splitOn op)).flatMap (List.splitOnP fun w => ops.contains w) := by
        rw [List.flatMap_assoc]
        congr 1
        funext ws
        rw [List.splitOn_eq_splitOnP, splitOnP_flatMap]
        simp only [List.contains_cons]
      rw [hsplit] at hne ⊢
      have hstep : (pieces.map sentence).flatMap (splitFrom (markOf op) 0) =
          (pieces.flatMap (List.splitOn op)).map sentence := by
        rw [List.flatMap_map, List.map_flatMap]
        apply List.flatMap_congr
        intro ws hws
        apply splitFrom_sentence hops.1 (hpieces ws hws)
        intro hnil
        apply hne
        rw [List.mem_flatMap]
        exact ⟨[], List.mem_flatMap.mpr ⟨ws, hws, hnil⟩, by simp⟩
      rw [List.foldl_cons, hstep]
      apply ih hops.2 _ hne
      intro piece hpiece w hw
      obtain ⟨ws, hws, hpiece⟩ := List.mem_flatMap.mp hpiece
      exact hpieces ws hws w (mem_of_mem_splitOn hpiece hw)

end RepoAudit.Text
