import RepoAudit.Text.Basic
import Mathlib.Data.List.TakeWhile
import Mathlib.Tactic

/-!
# Pieces, runs and words of a text

A text falls into its pieces at every character that cuts.  The pieces that are not empty are the
maximal runs of all other characters, and the runs between blanks are the words.  A text that
neither begins nor ends with a blank is not changed by trimming.
-/

namespace RepoAudit.Text

theorem splitBy_of_not_mem {cut : Char → Bool} {t : Text} (ht : ∀ c ∈ t, cut c = false) :
    splitBy cut t = [t] := by
  induction t with
  | nil => rfl
  | cons c t ih =>
      rw [List.forall_mem_cons] at ht
      rw [splitBy, ht.1, ih ht.2]
      rfl

theorem splitBy_append_mark {cut : Char → Bool} {mark : Char} (hmark : cut mark = true)
    (t rest : Text) : splitBy cut (t ++ mark :: rest) = splitBy cut t ++ splitBy cut rest := by
  induction t with
  | nil => simp [splitBy, hmark]
  | cons c t ih =>
      rw [List.cons_append, splitBy, splitBy, ih]
      split
      · rfl
      · obtain ⟨piece, more, hpieces⟩ := List.exists_cons_of_ne_nil (splitBy_ne_nil cut t)
        rw [hpieces]
        rfl

/-- Where the characters of a class end, a text is cut in one way. -/
theorem append_unique {member : Char → Bool} {s t x y : Text} (hs : ∀ c ∈ s, member c = true)
    (ht : ∀ c ∈ t, member c = true) (hx : ∀ c ∈ x.head?, member c = false)
    (hy : ∀ c ∈ y.head?, member c = false) (h : s ++ x = t ++ y) : s = t ∧ x = y := by
  have hstop : ∀ {z : Text}, (∀ c ∈ z.head?, member c = false) → z.takeWhile member = [] := by
    intro z hz
    cases z with
    | nil => rfl
    | cons c z => rw [List.takeWhile_cons, hz c rfl]; rfl
  have hst : s = t := by
    calc
      s = (s ++ x).takeWhile member := by
        rw [List.takeWhile_append_of_pos hs, hstop hx, List.append_nil]
      _ = (t ++ y).takeWhile member := by rw [h]
      _ = t := by rw [List.takeWhile_append_of_pos ht, hstop hy, List.append_nil]
  subst hst
  exact ⟨rfl, List.append_cancel_left h⟩

theorem splitBy_append_cons {cut : Char → Bool} {t : Text} (ht : ∀ c ∈ t, cut c = false)
    {mark : Char} (hmark : cut mark = true) (rest : Text) :
    splitBy cut (t ++ mark :: rest) = t :: splitBy cut rest := by
  rw [splitBy_append_mark hmark, splitBy_of_not_mem ht]
  rfl

theorem cut_eq_false_of_mem_splitBy {cut : Char → Bool} {t piece : Text}
    (hpiece : piece ∈ splitBy cut t) : ∀ c ∈ piece, cut c = false := by
  induction t generalizing piece with
  | nil =>
      obtain rfl : piece = [] := by simpa [splitBy] using hpiece
      simp
  | cons c t ih =>
      rw [splitBy] at hpiece
      split at hpiece
      · rcases List.mem_cons.mp hpiece with rfl | hmore
        · simp
        · exact ih hmore
      next hc =>
        obtain ⟨first, more, hpieces⟩ := List.exists_cons_of_ne_nil (splitBy_ne_nil cut t)
        rw [hpieces] at ih hpiece
        rcases List.mem_cons.mp hpiece with rfl | hmore
        · exact List.forall_mem_cons.mpr
            ⟨Bool.eq_false_iff.mpr hc, ih (List.mem_cons_self ..)⟩
        · exact ih (List.mem_cons_of_mem _ hmore)

theorem head?_dropWhile {α : Type} {member : α → Bool} {l : List α} {a : α}
    (ha : a ∈ (l.dropWhile member).head?) : member a = false := by
  have hdrop := List.head?_dropWhile_not member l
  rw [Option.mem_def.mp ha] at hdrop
  simpa using hdrop

/-! ## Runs and words -/

/-- The maximal runs of characters of a class. -/
def runs (member : Char → Bool) (t : Text) : List Text :=
  (t.splitBy fun c => !member c).filter (!·.isEmpty)

@[simp] theorem runs_nil (member : Char → Bool) : runs member [] = [] := by
  rfl

theorem runs_cons_of_not {member : Char → Bool} {c : Char} (hc : member c = false) (t : Text) :
    runs member (c :: t) = runs member t := by
  simp [runs, splitBy, hc]

/-- A run ends where the text does or at a character outside of the class. -/
theorem runs_append {member : Char → Bool} {run rest : Text} (hne : run ≠ [])
    (hrun : ∀ c ∈ run, member c = true) (hrest : ∀ c ∈ rest.head?, member c = false) :
    runs member (run ++ rest) = run :: runs member rest := by
  have hkept : (!run.isEmpty) = true := by simpa using hne
  have huncut : ∀ c ∈ run, (!member c) = false := by simpa using hrun
  cases rest with
  | nil => simp [runs, splitBy_of_not_mem huncut, splitBy, hkept]
  | cons c rest =>
      have hc : member c = false := hrest c rfl
      rw [runs_cons_of_not hc, runs, runs,
        splitBy_append_cons huncut (by simpa using hc)]
      exact List.filter_cons_of_pos hkept

/-- A text is made of characters outside of a class and of whole runs of the class. -/
theorem runs_induction (member : Char → Bool) {motive : Text → Prop} (nil : motive [])
    (mark : ∀ c rest, member c = false → motive rest → motive (c :: rest))
    (run : ∀ run rest, run ≠ [] → (∀ c ∈ run, member c = true) →
      (∀ c ∈ rest.head?, member c = false) → motive rest → motive (run ++ rest))
    (t : Text) : motive t := by
  induction hsize : t.length using Nat.strong_induction_on generalizing t with
  | _ size ih =>
      subst hsize
      cases t with
      | nil => exact nil
      | cons c rest =>
          cases hc : member c with
          | false => exact mark c rest hc (ih _ (by simp) rest rfl)
          | true =>
              have hcut := List.takeWhile_append_dropWhile (p := member) (l := rest)
              have hshorter := (List.dropWhile_suffix member (l := rest)).length_le
              have hend : ∀ d ∈ (rest.dropWhile member).head?, member d = false :=
                fun d hd => head?_dropWhile hd
              have hall : ∀ d ∈ c :: rest.takeWhile member, member d = true :=
                List.forall_mem_cons.mpr ⟨hc, fun d hd => List.mem_takeWhile_imp hd⟩
              rw [← hcut, ← List.cons_append]
              exact run _ _ (List.cons_ne_nil _ _) hall hend
                (ih _ (Nat.lt_succ_of_le hshorter) _ rfl)

theorem mem_of_mem_runs {member : Char → Bool} {t w : Text} (hw : w ∈ runs member t) :
    w ≠ [] ∧ ∀ c ∈ w, member c = true ∧ c ∈ t := by
  induction t using runs_induction member with
  | nil => simp at hw
  | mark c rest hc ih =>
      rw [runs_cons_of_not hc] at hw
      obtain ⟨hne, hchars⟩ := ih hw
      exact ⟨hne, fun d hd => ⟨(hchars d hd).1, List.mem_cons_of_mem _ (hchars d hd).2⟩⟩
  | run run rest hne hrun hend ih =>
      rw [runs_append hne hrun hend, List.mem_cons] at hw
      rcases hw with rfl | hw
      · exact ⟨hne, fun d hd => ⟨hrun d hd, List.mem_append_left _ hd⟩⟩
      · obtain ⟨hne', hchars⟩ := ih hw
        exact ⟨hne', fun d hd => ⟨(hchars d hd).1, List.mem_append_right _ (hchars d hd).2⟩⟩

theorem runs_not_append {member : Char → Bool} {lead : Text} (hlead : ∀ c ∈ lead, member c = false)
    (t : Text) : runs member (lead ++ t) = runs member t := by
  induction lead with
  | nil => rfl
  | cons c lead ih =>
      rw [List.forall_mem_cons] at hlead
      rw [List.cons_append, runs_cons_of_not hlead.1, ih hlead.2]

theorem runs_append_not {member : Char → Bool} {trail : Text}
    (htrail : ∀ c ∈ trail, member c = false) (t : Text) :
    runs member (t ++ trail) = runs member t := by
  induction t using runs_induction member with
  | nil =>
      have hnone := runs_not_append htrail []
      rwa [List.append_nil] at hnone
  | mark c t hc ih => rw [List.cons_append, runs_cons_of_not hc, runs_cons_of_not hc, ih]
  | run run t hne hrun hend ih =>
      have hend' : ∀ c ∈ (t ++ trail).head?, member c = false := by
        cases t with
        | nil => exact fun c hc => htrail c (List.mem_of_mem_head? hc)
        | cons d t => exact hend
      rw [List.append_assoc, runs_append hne hrun hend', runs_append hne hrun hend, ih]

theorem runs_dropWhile {member cut : Char → Bool}
    (hcut : ∀ c, cut c = true → member c = false)
    (t : Text) : runs member (t.dropWhile cut) = runs member t := by
  have hall : ∀ c ∈ t.takeWhile cut, member c = false :=
    fun c hc => hcut c (List.mem_takeWhile_imp hc)
  rw [← runs_not_append hall (t.dropWhile cut), List.takeWhile_append_dropWhile]

theorem words_eq_runs (t : Text) : words t = runs (fun c => !isBlank c) t := by
  simp [words, runs]

theorem words_blank_cons {c : Char} (hc : isBlank c = true) (t : Text) :
    words (c :: t) = words t := by
  rw [words_eq_runs, runs_cons_of_not (by simpa using hc), ← words_eq_runs]

theorem words_blank_append {gap : Text} (hgap : ∀ c ∈ gap, isBlank c = true) (t : Text) :
    words (gap ++ t) = words t := by
  rw [words_eq_runs, runs_not_append (by simpa using hgap), ← words_eq_runs]

theorem words_append_blank {gap : Text} (hgap : ∀ c ∈ gap, isBlank c = true) (t : Text) :
    words (t ++ gap) = words t := by
  rw [words_eq_runs, runs_append_not (by simpa using hgap), ← words_eq_runs]

theorem words_append_blank_cons {c : Char} (hc : isBlank c = true) (s t : Text) :
    words (s ++ c :: t) = words s ++ words t := by
  rw [words, splitBy_append_mark hc, List.filter_append]
  rfl

theorem words_of_blank {t : Text} (ht : ∀ c ∈ t, isBlank c = true) : words t = [] := by
  have hwords := words_blank_append ht []
  rwa [List.append_nil] at hwords

/-- A word ends where the text does or at a blank. -/
theorem words_append {w : Text} (hne : w ≠ []) (hw : ∀ c ∈ w, isBlank c = false) {rest : Text}
    (hrest : ∀ c ∈ rest.head?, isBlank c = true) : words (w ++ rest) = w :: words rest := by
  rw [words_eq_runs, runs_append hne (by simpa using hw) (by simpa using hrest), ← words_eq_runs]

theorem not_mem_before (mark : Char) (t : Text) : mark ∉ t.before mark := by
  intro hmem
  simpa using List.mem_takeWhile_imp hmem

theorem eq_before_or (mark : Char) (t : Text) :
    t = t.before mark ∨ ∃ more, t = t.before mark ++ mark :: more := by
  induction t with
  | nil => exact .inl rfl
  | cons c t ih =>
      by_cases hc : c = mark
      · exact .inr ⟨t, by simp [before, hc]⟩
      · have hbefore : before (c :: t) mark = c :: before t mark := by
          simp [before, hc]
        rw [hbefore]
        rcases ih with hwhole | ⟨more, hcut⟩
        · exact .inl (congrArg (c :: ·) hwhole)
        · exact .inr ⟨more, congrArg (c :: ·) hcut⟩

theorem before_of_not_mem {mark : Char} {t : Text} (h : mark ∉ t) : t.before mark = t := by
  unfold before
  rw [List.takeWhile_eq_self_iff]
  intro c hc
  simpa using fun heq : c = mark => h (heq ▸ hc)

/-! ## Blanks -/

def blankCodes : List Nat :=
  [9, 10, 11, 12, 13, 0x20, 0x85, 0xA0, 0x1680, 0x2000, 0x2001, 0x2002, 0x2003, 0x2004, 0x2005,
    0x2006, 0x2007, 0x2008, 0x2009, 0x200A, 0x2028, 0x2029, 0x202F, 0x205F, 0x3000]

/-- There are so few blanks that what holds of all of them can be looked up. -/
theorem of_isBlank {member : Char → Bool} {value : Bool}
    (h : ∀ n ∈ blankCodes, member (Char.ofNat n) = value) {c : Char} (hc : isBlank c = true) :
    member c = value := by
  have hcode : c.toNat ∈ blankCodes := by
    simp only [isBlank, Bool.or_eq_true, Bool.and_eq_true, decide_eq_true_eq, beq_iff_eq] at hc
    simp only [blankCodes, List.mem_cons, List.not_mem_nil, or_false]
    omega
  rw [← Char.ofNat_toNat c]
  exact h _ hcode

theorem not_isBlank_of {member : Char → Bool}
    (h : ∀ n ∈ blankCodes, member (Char.ofNat n) = false) {c : Char} (hc : member c = true) :
    isBlank c = false := by
  by_contra hblank
  rw [of_isBlank h (by simpa using hblank)] at hc
  cases hc

theorem trim_of_ends {t : Text} (hhead : ∀ c ∈ t.head?, isBlank c = false)
    (hlast : ∀ c ∈ t.getLast?, isBlank c = false) : t.trim = t := by
  have hstart : t.trimStart = t := by
    cases t with
    | nil => rfl
    | cons c t => rw [trimStart, List.dropWhile_cons_of_neg (by simpa using hhead c rfl)]
  have hend : t.trimEnd = t := by
    rw [trimEnd]
    cases hreverse : t.reverse with
    | nil => rw [List.reverse_eq_nil_iff.mp hreverse]; rfl
    | cons c rest =>
        have hc : c ∈ t.getLast? := by
          rw [← List.head?_reverse, hreverse]
          rfl
        rw [List.dropWhile_cons_of_neg (by simpa using hlast c hc), ← hreverse,
          List.reverse_reverse]
  rw [trim, hstart, hend]

theorem head?_trim {t : Text} {c : Char} (hc : c ∈ t.trim.head?) : isBlank c = false := by
  have hstart : c ∈ t.trimStart.head? := by
    have hleads : t.trim <+: t.trimStart := by
      have hsuffix := List.dropWhile_suffix isBlank (l := t.trimStart.reverse)
      rw [← List.reverse_prefix, List.reverse_reverse] at hsuffix
      exact hsuffix
    obtain ⟨rest, hrest⟩ := hleads
    rw [← hrest]
    cases htrim : t.trim with
    | nil => simp [htrim] at hc
    | cons d ds =>
        rw [htrim] at hc
        exact hc
  exact head?_dropWhile hstart

theorem getLast?_trim {t : Text} {c : Char} (hc : c ∈ t.trim.getLast?) : isBlank c = false := by
  rw [trim, trimEnd, List.getLast?_reverse] at hc
  exact head?_dropWhile hc

theorem trim_trim (t : Text) : t.trim.trim = t.trim :=
  trim_of_ends (fun _ hc => head?_trim hc) fun _ hc => getLast?_trim hc

theorem trim_blank_append {gap : Text} (hgap : ∀ c ∈ gap, isBlank c = true) (t : Text) :
    (gap ++ t).trim = t.trim := by
  unfold trim trimStart
  rw [List.dropWhile_append_of_pos hgap]

theorem trimEnd_append_blank {gap : Text} (hgap : ∀ c ∈ gap, isBlank c = true) (t : Text) :
    (t ++ gap).trimEnd = t.trimEnd := by
  unfold trimEnd
  rw [List.reverse_append, List.dropWhile_append_of_pos (by simpa using hgap)]

/-- Trimming stops at the first character that is not blank. -/
theorem trim_append {lead : Text} (hhead : ∀ c ∈ lead.head?, isBlank c = false)
    (hlast : ∃ c ∈ lead.getLast?, isBlank c = false) (t : Text) :
    (lead ++ t).trim = lead ++ t.trimEnd := by
  obtain ⟨last, hmem, hlast⟩ := hlast
  obtain ⟨init, rfl⟩ := List.getLast?_eq_some_iff.mp (Option.mem_def.mp hmem)
  have hstart : Text.trimStart (init ++ [last] ++ t) = init ++ [last] ++ t := by
    cases init with
    | nil =>
        unfold trimStart
        exact List.dropWhile_cons_of_neg (by simpa using hlast)
    | cons c init =>
        unfold trimStart
        exact List.dropWhile_cons_of_neg (by simpa using hhead c rfl)
  rw [trim, hstart]
  unfold trimEnd
  rw [List.reverse_append, List.reverse_append, List.reverse_singleton, List.dropWhile_append]
  split
  · next hnil =>
      rw [List.isEmpty_iff.mp hnil, List.singleton_append,
        List.dropWhile_cons_of_neg (by simpa using hlast)]
      simp
  · simp

/-- Trimming cuts blanks off both ends of a text. -/
theorem exists_eq_trim (t : Text) : ∃ lead trail : Text, (∀ c ∈ lead, isBlank c = true) ∧
    (∀ c ∈ trail, isBlank c = true) ∧ t = lead ++ (t.trim ++ trail) := by
  have hstart : t.takeWhile isBlank ++ t.trimStart = t := List.takeWhile_append_dropWhile
  have hend : t.trimStart.reverse.takeWhile isBlank ++ t.trimStart.reverse.dropWhile isBlank =
      t.trimStart.reverse := List.takeWhile_append_dropWhile
  have hcut : t.trim ++ (t.trimStart.reverse.takeWhile isBlank).reverse = t.trimStart := by
    rw [trim, trimEnd, ← List.reverse_append, hend, List.reverse_reverse]
  refine ⟨t.takeWhile isBlank, (t.trimStart.reverse.takeWhile isBlank).reverse,
    fun c hc => List.mem_takeWhile_imp hc, ?_, ?_⟩
  · intro c hc
    exact List.mem_takeWhile_imp (List.mem_reverse.mp hc)
  · rw [hcut, hstart]

theorem isEmpty_trim (line : Text) : line.trim.isEmpty = line.isBlankLine := by
  rw [Bool.eq_iff_iff, List.isEmpty_iff, isBlankLine, List.all_eq_true]
  constructor
  · intro hnil
    obtain ⟨lead, trail, hlead, htrail, hline⟩ := exists_eq_trim line
    rw [hline, hnil]
    exact List.forall_mem_append.mpr ⟨hlead, htrail⟩
  · intro hblank
    have htrim := trim_blank_append hblank []
    rw [List.append_nil] at htrim
    exact htrim

theorem mem_of_mem_trim {c : Char} {t : Text} (hc : c ∈ t.trim) : c ∈ t := by
  obtain ⟨lead, trail, -, -, ht⟩ := exists_eq_trim t
  rw [ht]
  simp [hc]

theorem runs_trim {member : Char → Bool} (hblank : ∀ c, isBlank c = true → member c = false)
    (t : Text) : runs member t.trim = runs member t := by
  obtain ⟨lead, trail, hlead, htrail, ht⟩ := exists_eq_trim t
  calc
    runs member t.trim = runs member (lead ++ (t.trim ++ trail)) := by
      rw [runs_not_append fun c hc => hblank c (hlead c hc),
        runs_append_not fun c hc => hblank c (htrail c hc)]
    _ = runs member t := by rw [← ht]

theorem trim_append_blank {gap : Text} (hgap : ∀ c ∈ gap, isBlank c = true) (t : Text) :
    (t ++ gap).trim = t.trim := by
  by_cases hblank : ∀ c ∈ t, isBlank c = true
  · have hall : ∀ c ∈ t ++ gap, isBlank c = true := List.forall_mem_append.mpr ⟨hblank, hgap⟩
    rw [← List.append_nil (t ++ gap), trim_blank_append hall, ← List.append_nil t,
      trim_blank_append hblank]
  · obtain ⟨lead, trail, hlead, htrail, ht⟩ := exists_eq_trim t
    have hne : t.trim ≠ [] := by
      intro hnil
      rw [hnil, List.nil_append] at ht
      exact hblank (ht ▸ List.forall_mem_append.mpr ⟨hlead, htrail⟩)
    have hlast : ∃ c ∈ t.trim.getLast?, isBlank c = false :=
      ⟨_, List.getLast?_eq_some_getLast hne, getLast?_trim (List.getLast?_eq_some_getLast hne)⟩
    have hafter : ∀ c ∈ trail ++ gap, isBlank c = true := List.forall_mem_append.mpr ⟨htrail, hgap⟩
    calc
      (t ++ gap).trim = (t.trim ++ (trail ++ gap)).trim := by
        rw [← trim_blank_append hlead (t.trim ++ (trail ++ gap)), ← List.append_assoc t.trim,
          ← List.append_assoc lead, ← ht]
      _ = t.trim ++ (trail ++ gap).trimEnd := trim_append (fun _ hc => head?_trim hc) hlast _
      _ = t.trim := by
        rw [← List.nil_append (trail ++ gap), trimEnd_append_blank hafter]
        exact List.append_nil _

theorem trim_trimStart (t : Text) : t.trimStart.trim = t.trim := by
  have hcut : t.takeWhile isBlank ++ t.trimStart = t := List.takeWhile_append_dropWhile
  rw [← trim_blank_append (fun c hc => List.mem_takeWhile_imp hc) t.trimStart, hcut]

theorem trim_trimEnd (t : Text) : t.trimEnd.trim = t.trim := by
  have hcut : t.trimEnd ++ (t.reverse.takeWhile isBlank).reverse = t := by
    rw [trimEnd, ← List.reverse_append, List.takeWhile_append_dropWhile, List.reverse_reverse]
  have hblank : ∀ c ∈ (t.reverse.takeWhile isBlank).reverse, isBlank c = true :=
    fun c hc => List.mem_takeWhile_imp (List.mem_reverse.mp hc)
  rw [← trim_append_blank hblank t.trimEnd, hcut]

end RepoAudit.Text
