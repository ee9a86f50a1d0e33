import RepoAudit.Complexity.Metrics
import RepoAudit.Proofs.Pattern.Counts
import RepoAudit.Proofs.Tally

/-!
# Decision points are counted lexically

The decision pattern of a language finds whole keywords, doubled operators and spaced question
marks.  Its matches are those that one counts by cutting the text into words and into runs of the
operators, and by looking for question marks from left to right.
-/

namespace RepoAudit.Complexity

open Pattern

variable {words : List String} {before run rest : Text} {mark : Char} {q : Progress}

/-! ## Keywords -/

/-- Each word consists of small letters. -/
def SmallLetters (words : List String) : Prop :=
  ∀ w ∈ words, w.toList ≠ [] ∧ ∀ c ∈ w.toList, c.isLower = true

theorem toNat_of_isLower {c : Char} (hc : c.isLower = true) : 97 ≤ c.toNat ∧ c.toNat ≤ 122 := by
  simp only [Char.isLower, Bool.and_eq_true, decide_eq_true_eq, ge_iff_le,
    UInt32.le_iff_toNat_le] at hc
  exact hc

theorem isWord_of_isLower {c : Char} (hc : c.isLower = true) : isWord c = true := by
  have hascii : c.toNat < 128 := by
    have hletter := toNat_of_isLower hc
    omega
  simp [isWord, hascii, Char.isAlphanum, Char.isAlpha, hc]

theorem draws_keywords (hwords : SmallLetters words) : (keywords words).Draws Char.isLower := by
  intro p q htakes
  obtain ⟨-, hword, -⟩ := takes_bounded.mp htakes
  obtain ⟨w, hw, hreads, -⟩ := takes_anyWord.mp hword
  exact ⟨w.toList, (hwords w hw).1, (hwords w hw).2, hreads⟩

theorem any_head?_of_run (hne : run ≠ []) (hrun : ∀ c ∈ run, isWord c = true) (rest : Text) :
    (run ++ rest).head?.any isWord = true := by
  obtain ⟨c, more, rfl⟩ := List.exists_cons_of_ne_nil hne
  exact hrun c (List.mem_cons_self ..)

theorem any_head?_eq_false {t : Text} :
    t.head?.any isWord = false ↔ ∀ c ∈ t.head?, isWord c = false := by
  cases t <;> simp

theorem any_head?_reverse (hne : run ≠ []) (hrun : ∀ c ∈ run, isWord c = true) (before : Text) :
    (run.reverse ++ before).head?.any isWord = true :=
  any_head?_of_run (List.reverse_ne_nil_iff.mpr hne)
    (fun c hc => hrun c (List.mem_reverse.mp hc)) before

/-- At the beginning of a run of word characters the keywords take the whole run or nothing. -/
theorem takes_keywords_run (hwords : SmallLetters words) (hne : run ≠ [])
    (hrun : ∀ c ∈ run, isWord c = true) (hbefore : ∀ c ∈ before.head?, isWord c = false)
    (hrest : ∀ c ∈ rest.head?, isWord c = false) :
    (keywords words).Takes ⟨⟨before, run ++ rest⟩, []⟩ q ↔
      String.ofList run ∈ words ∧ Cursor.Reads ⟨before, run ++ rest⟩ run q.cursor ∧
        q.groups = [] := by
  rw [keywords, takes_bounded, takes_anyWord]
  constructor
  · rintro ⟨-, ⟨w, hw, hreads, hgroups⟩, hstop⟩
    obtain ⟨hwne, hletters⟩ := hwords w hw
    have hword : ∀ c ∈ w.toList, isWord c = true := fun c hc => isWord_of_isLower (hletters c hc)
    have hend : ∀ c ∈ q.cursor.rest.head?, isWord c = false := by
      rw [Cursor.atWordBoundary, hreads.before, any_head?_reverse hwne hword] at hstop
      rw [← any_head?_eq_false]
      simpa using hstop
    have hwhole := (Text.append_unique hrun hword hrest hend hreads.rest).1
    rw [← hwhole] at hreads
    exact ⟨by rwa [hwhole, String.ofList_toList], hreads, hgroups⟩
  · rintro ⟨hw, hreads, hgroups⟩
    have hstart : Cursor.atWordBoundary ⟨before, run ++ rest⟩ = true := by
      rw [Cursor.atWordBoundary, any_head?_of_run hne hrun, any_head?_eq_false.mpr hbefore]
      rfl
    have hstop : q.cursor.atWordBoundary = true := by
      have hafter : q.cursor.rest = rest := (List.append_cancel_left hreads.rest).symm
      rw [Cursor.atWordBoundary, hreads.before, hafter, any_head?_reverse hne hrun,
        any_head?_eq_false.mpr hrest]
      rfl
    exact ⟨hstart, ⟨_, hw, by rwa [String.toList_ofList], hgroups⟩, hstop⟩

/-- Between two word characters no keyword begins. -/
theorem scan_keywords_inside (words : List String) (hrun : ∀ c ∈ run, isWord c = true)
    (hbefore : before.head?.any isWord = true) (rest : Text) :
    (keywords words).scan 0 before (run ++ rest) =
      (keywords words).scan 0 (run.reverse ++ before) rest := by
  induction run generalizing before with
  | nil => rfl
  | cons c run ih =>
      rw [List.forall_mem_cons] at hrun
      have hnone : ∀ q, ¬ (keywords words).Takes ⟨⟨before, c :: (run ++ rest)⟩, []⟩ q := by
        intro q htakes
        have hstart := (takes_bounded.mp htakes).1
        simp [Cursor.atWordBoundary, hbefore, hrun.1] at hstart
      rw [List.cons_append, scan_of_not_takes hnone, List.reverse_cons, List.append_assoc]
      exact ih hrun.2 hrun.1

theorem scan_keywords_run (hwords : SmallLetters words) (hne : run ≠ [])
    (hrun : ∀ c ∈ run, isWord c = true) (hbefore : ∀ c ∈ before.head?, isWord c = false)
    (hrest : ∀ c ∈ rest.head?, isWord c = false) :
    ((keywords words).scan 0 before (run ++ rest)).length =
      (if String.ofList run ∈ words then 1 else 0) +
        ((keywords words).scan 0 (run.reverse ++ before) rest).length := by
  have htakes : ∀ q, (keywords words).Takes ⟨⟨before, run ++ rest⟩, []⟩ q ↔
      String.ofList run ∈ words ∧ Cursor.Reads ⟨before, run ++ rest⟩ run q.cursor ∧
        q.groups = [] :=
    fun q => takes_keywords_run hwords hne hrun hbefore hrest
  split
  · next hw =>
      rw [length_scan_of_takes hne (by simpa only [hw, true_and] using htakes), Nat.add_comm]
  · next hw =>
      obtain ⟨c, more, rfl⟩ := List.exists_cons_of_ne_nil hne
      rw [List.forall_mem_cons] at hrun
      have hnone : ∀ q, ¬ (keywords words).Takes ⟨⟨before, c :: (more ++ rest)⟩, []⟩ q :=
        fun q hq => hw ((htakes q).mp hq).1
      have hinside : (c :: before).head?.any isWord = true := hrun.1
      rw [List.cons_append, scan_of_not_takes hnone, List.reverse_cons, List.append_assoc,
        Nat.zero_add]
      exact congrArg List.length (scan_keywords_inside words hrun.2 hinside rest)

theorem count_keywords (hwords : SmallLetters words) (t : Text) :
    (keywords words).count t = (t.runs isWord).countP fun run => String.ofList run ∈ words := by
  have hcount := count_eq_sum_runs (fun c => isWord_of_isLower) (draws_keywords hwords)
    (fun before run rest hne hrun hbefore hrest =>
      scan_keywords_run hwords hne hrun hbefore hrest) t
  rw [hcount, sum_map_ite]

/-! ## Doubled operators -/

theorem draws_doubled {s : String} (hs : s.toList = [mark, mark]) :
    (literal s).Draws (· == mark) := by
  intro p q htakes
  exact ⟨[mark, mark], by simp, by simp, hs ▸ (takes_literal.mp htakes).1⟩

/-- A run is cut into pairs from its beginning on; an odd character at its end is passed. -/
theorem scan_doubled_run {s : String} (hs : s.toList = [mark, mark])
    (hrest : ∀ c ∈ rest.head?, (c == mark) = false) (before : Text) (n : Nat) :
    ((literal s).scan 0 before (List.replicate n mark ++ rest)).length =
      n / 2 + ((literal s).scan 0 (List.replicate n mark ++ before) rest).length := by
  induction n using Nat.twoStepInduction generalizing before with
  | zero => simp
  | one =>
      have hnone : ∀ q, ¬ (literal s).Takes ⟨⟨before, mark :: rest⟩, []⟩ q := by
        intro q htakes
        have hmarks := (takes_literal.mp htakes).1.rest
        rw [hs] at hmarks
        rw [(List.cons.inj hmarks).2] at hrest
        simpa using hrest mark rfl
      exact (congrArg List.length (scan_of_not_takes hnone)).trans (Nat.zero_add _).symm
  | more n ih _ =>
      have hpair : ∀ q, (literal s).Takes
          ⟨⟨before, [mark, mark] ++ (List.replicate n mark ++ rest)⟩, []⟩ q ↔
            Cursor.Reads ⟨before, [mark, mark] ++ (List.replicate n mark ++ rest)⟩ [mark, mark]
              q.cursor ∧ q.groups = [] := by
        intro q
        rw [takes_literal, hs]
      have hscan := length_scan_of_takes (List.cons_ne_nil _ _) hpair
      have hbefore : List.replicate n mark ++ ([mark, mark].reverse ++ before) =
          List.replicate (n + 2) mark ++ before := by
        simp [List.replicate_succ', List.append_assoc]
      rw [ih, hbefore] at hscan
      rw [Nat.add_div_right n Nat.two_pos, Nat.succ_add]
      exact hscan

/-- The pairs of a sign, each run of it cut into as many as fit. -/
def signPairs (mark : Char) (t : Text) : Nat :=
  ((t.runs (· == mark)).map fun run => run.length / 2).sum

theorem count_doubled {s : String} (hs : s.toList = [mark, mark]) (t : Text) :
    (literal s).count t = signPairs mark t := by
  apply count_eq_sum_runs (fun c => id) (draws_doubled hs)
  intro before run rest hne hrun hbefore hrest
  have hmarks : run = List.replicate run.length mark :=
    List.eq_replicate_of_mem fun c hc => beq_iff_eq.mp (hrun c hc)
  rw [hmarks, List.reverse_replicate, scan_doubled_run hs hrest, List.length_replicate]

/-! ## Question marks -/

def spacedQuestion : Pattern :=
  sequence [.one isBlank, char '?', .one isBlank]

theorem takes_spacedQuestion {p q : Progress} :
    spacedQuestion.Takes p q ↔ ∃ a b, isBlank a = true ∧ isBlank b = true ∧
      p.cursor.Reads [a, '?', b] q.cursor ∧ q.groups = p.groups := by
  simp only [spacedQuestion, takes_sequence_cons, takes_sequence_nil, takes_one, takes_char]
  constructor
  · rintro ⟨_, ⟨a, ha, hfirst, hgroups⟩, _, ⟨hmark, hgroups'⟩, _, ⟨b, hb, hlast, hgroups''⟩, rfl⟩
    exact ⟨a, b, ha, hb, (hfirst.trans hmark).trans hlast,
      (hgroups''.trans hgroups').trans hgroups⟩
  · rintro ⟨a, b, ha, hb, hreads, hgroups⟩
    obtain ⟨c, hfirst, hmore⟩ := Cursor.Reads.append_iff.mp
      (show p.cursor.Reads ([a] ++ ['?', b]) q.cursor from hreads)
    obtain ⟨d, hmark, hlast⟩ := Cursor.Reads.append_iff.mp
      (show c.Reads (['?'] ++ [b]) q.cursor from hmore)
    exact ⟨⟨c, p.groups⟩, ⟨a, ha, hfirst, rfl⟩, ⟨d, p.groups⟩, ⟨hmark, rfl⟩, q,
      ⟨b, hb, hlast, hgroups⟩, rfl⟩

theorem draws_spacedQuestion : spacedQuestion.Draws fun c => isBlank c || c == '?' := by
  intro p q htakes
  obtain ⟨a, b, ha, hb, hreads, -⟩ := takes_spacedQuestion.mp htakes
  exact ⟨[a, '?', b], List.cons_ne_nil _ _, by simp [ha, hb], hreads⟩

/-- The question marks between two blanks, where no two of them share a blank: those found from left
to right. -/
def spacedQuestions : Text → Nat
  | a :: mark :: b :: rest =>
      if isBlank a && mark == '?' && isBlank b then spacedQuestions rest + 1
      else spacedQuestions (mark :: b :: rest)
  | _ => 0

theorem scan_spacedQuestion (before t : Text) :
    (spacedQuestion.scan 0 before t).length = spacedQuestions t := by
  fun_induction spacedQuestions t generalizing before with
  | case1 a mark b rest hspaced ih =>
      simp only [Bool.and_eq_true, beq_iff_eq] at hspaced
      obtain ⟨⟨ha, rfl⟩, hb⟩ := hspaced
      have htakes : ∀ q, spacedQuestion.Takes ⟨⟨before, [a, '?', b] ++ rest⟩, []⟩ q ↔
          Cursor.Reads ⟨before, [a, '?', b] ++ rest⟩ [a, '?', b] q.cursor ∧ q.groups = [] := by
        intro q
        rw [takes_spacedQuestion]
        constructor
        · rintro ⟨a', b', -, -, hreads, hgroups⟩
          obtain ⟨rfl, rfl⟩ : a = a' ∧ b = b' := by
            have hsame := hreads.rest
            simp only [List.cons_append, List.cons.injEq] at hsame
            exact ⟨hsame.1, hsame.2.2.1⟩
          exact ⟨hreads, hgroups⟩
        · rintro ⟨hreads, hgroups⟩
          exact ⟨a, b, ha, hb, hreads, hgroups⟩
      have hscan := length_scan_of_takes (List.cons_ne_nil _ _) htakes
      rw [ih] at hscan
      exact hscan
  | case2 a mark b rest hspaced ih =>
      have hnone : ∀ q, ¬ spacedQuestion.Takes ⟨⟨before, a :: mark :: b :: rest⟩, []⟩ q := by
        intro q htakes
        obtain ⟨a', b', ha, hb, hreads, -⟩ := takes_spacedQuestion.mp htakes
        obtain ⟨rfl, rfl, rfl, -⟩ : a = a' ∧ mark = '?' ∧ b = b' ∧ rest = q.cursor.rest := by
          simpa only [List.cons_append, List.nil_append, List.cons.injEq] using hreads.rest
        exact hspaced (by simp [ha, hb])
      rw [scan_of_not_takes hnone]
      exact ih _
  | case3 t hshort =>
      have hsize : t.length < 3 := by
        match t, hshort with
        | [], _ | [_], _ | [_, _], _ => simp
        | a :: mark :: b :: rest, hshort => exact absurd rfl (hshort a mark b rest)
      rw [scan_of_short hsize]
      rfl

example : spacedQuestions [' ', '?', ' ', '?', ' '] = 1 := by
  decide

/-! ## Decision points -/

/-- The keywords that decide. -/
def decisionWords : Language → List String
  | .python => ["if", "elif", "for", "while", "except", "and", "or"]
  | .go => ["if", "for", "case", "select"]
  | .ruby => ["if", "elsif", "unless", "while", "until", "when", "rescue"]
  | .rust => ["if", "for", "while", "loop", "match"]
  | _ => ["if", "for", "while", "case", "catch"]

/-- Every language but the four that have keywords of their own. -/
def isCFamily : Language → Bool
  | .python | .go | .ruby | .rust => false
  | _ => true

/-- The alternatives of the decision pattern, each with the class of what it takes. -/
def decisionParts (language : Language) : List (Pattern × (Char → Bool)) :=
  (keywords (decisionWords language), Char.isLower) ::
    ((if language = .python then []
      else [(literal "&&", (· == '&')), (literal "||", (· == '|'))]) ++
    if isCFamily language then [(spacedQuestion, fun c => isBlank c || c == '?')] else [])

theorem decisionPattern_eq (language : Language) :
    decisionPattern language = firstOf ((decisionParts language).map Prod.fst) := by
  cases language <;> rfl

theorem smallLetters_decisionWords (language : Language) :
    SmallLetters (decisionWords language) := by
  unfold decisionWords
  split <;> simp [SmallLetters]

theorem decisionParts_draw (language : Language) :
    ∀ part ∈ decisionParts language, part.1.Draws part.2 := by
  have hwords := draws_keywords (smallLetters_decisionWords language)
  have hand : (literal "&&").Draws (· == '&') := draws_doubled rfl
  have hor : (literal "||").Draws (· == '|') := draws_doubled rfl
  have hquestion := draws_spacedQuestion
  unfold decisionParts
  split_ifs <;> simp [hwords, hand, hor, hquestion]

theorem beq_of_isLower {c : Char} (hc : c.isLower = true) (hmark : mark.isLower = false) :
    (c == mark) = false := by
  rw [beq_eq_false_iff_ne]
  rintro rfl
  rw [hc] at hmark
  cases hmark

theorem isBlank_of_isLower {c : Char} (hc : c.isLower = true) : isBlank c = false := by
  have hnone : ∀ n ∈ Text.blankCodes, Char.isLower (Char.ofNat n) = false := by
    decide +kernel
  exact Text.not_isBlank_of hnone hc

theorem decisionParts_disjoint (language : Language) :
    (decisionParts language).Pairwise fun x y => ∀ c, x.2 c = true → y.2 c = false := by
  have hletter : ∀ c : Char, c.isLower = true →
      (c == '&') = false ∧ (c == '|') = false ∧ (isBlank c || c == '?') = false := by
    intro c hc
    rw [isBlank_of_isLower hc]
    exact ⟨beq_of_isLower hc rfl, beq_of_isLower hc rfl, beq_of_isLower hc rfl⟩
  have hand : ∀ c : Char, (c == '&') = true →
      (c == '|') = false ∧ (isBlank c || c == '?') = false := by
    intro c hc
    rw [beq_iff_eq.mp hc]
    decide
  have hor : ∀ c : Char, (c == '|') = true → (isBlank c || c == '?') = false := by
    intro c hc
    rw [beq_iff_eq.mp hc]
    decide
  unfold decisionParts
  split_ifs <;> simp only [List.nil_append, List.append_nil, List.cons_append, List.pairwise_cons,
    List.forall_mem_cons, List.not_mem_nil]
  all_goals grind

/-- A file has one path, one more for each word that is a keyword, one for each pair of operator signs,
except in Python, and in the C family one for each spaced question mark. -/
theorem cyclomatic_eq_lexical_count (content : Text) (language : Language) :
    cyclomatic content language =
      1 + ((content.runs isWord).countP (fun run => String.ofList run ∈ decisionWords language) +
        (if language = .python then 0 else signPairs '&' content + signPairs '|' content) +
        (if isCFamily language then spacedQuestions content else 0)) := by
  have hand : (literal "&&").count content = signPairs '&' content := count_doubled rfl content
  have hor : (literal "||").count content = signPairs '|' content := count_doubled rfl content
  have hquestion : spacedQuestion.count content = spacedQuestions content :=
    scan_spacedQuestion [] content
  rw [cyclomatic, decisionPattern_eq,
    count_firstOf (decisionParts_draw language) (decisionParts_disjoint language)]
  simp only [decisionParts, List.map_cons, List.map_append, List.sum_cons, List.sum_append,
    count_keywords (smallLetters_decisionWords language)]
  split_ifs <;> simp [hand, hor, hquestion, Nat.add_assoc]

end RepoAudit.Complexity
