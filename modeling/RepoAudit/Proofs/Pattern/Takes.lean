import RepoAudit.Pattern.Classes
import RepoAudit.Proofs.Pattern.Ways

/-!
# What a pattern takes

`Takes` relates the place where a pattern is tried to the places where it can end, whatever the
order of preference.  A match is one of these ways, and there is a match exactly when there is a
way, so most facts about patterns are facts about `Takes`.
-/

namespace RepoAudit.Pattern

/-- A way to match from one place to another. -/
def Takes : Pattern → Progress → Progress → Prop
  | .empty, p, q => q = p
  | .one member, p, q =>
      ∃ c, member c = true ∧ p.cursor.Reads [c] q.cursor ∧ q.groups = p.groups
  | .seq first second, p, r => ∃ q, first.Takes p q ∧ second.Takes q r
  | .alt preferred other, p, q => preferred.Takes p q ∨ other.Takes p q
  | .run _ member, p, q =>
      ∃ taken : Text, (∀ c ∈ taken, member c = true) ∧ p.cursor.Reads taken q.cursor ∧
        q.groups = p.groups
  | .star _ body, p, q =>
      Relation.ReflTransGen
        (fun p q => body.Takes p q ∧ q.cursor.rest.length < p.cursor.rest.length) p q
  | .group index body, p, r =>
      ∃ q, body.Takes p q ∧ r = { q with groups := (index, p.cursor, q.cursor) :: q.groups }
  | .wordBoundary, p, q => p.cursor.atWordBoundary = true ∧ q = p
  | .lineStart, p, q => p.cursor.before.head?.all (· == '\n') = true ∧ q = p
  | .textStart, p, q => p.cursor.before = [] ∧ q = p
  | .textEnd, p, q => p.cursor.rest = [] ∧ q = p

variable {member : Char → Bool} {p q r : Progress}

theorem mem_mostWays {before rest : Text} {d : Cursor} :
    d ∈ mostWays member before rest ↔
      ∃ taken : Text, (∀ c ∈ taken, member c = true) ∧ Cursor.Reads ⟨before, rest⟩ taken d := by
  induction rest generalizing before with
  | nil =>
      rw [mostWays, List.mem_singleton]
      constructor
      · rintro rfl
        exact ⟨[], by simp, .refl _⟩
      · rintro ⟨taken, -, hreads⟩
        have hnil : taken = [] := (List.append_eq_nil_iff.mp hreads.rest.symm).1
        subst hnil
        exact Cursor.Reads.nil_iff.mp hreads
  | cons c rest ih =>
      rw [mostWays]
      split
      · next hc =>
          rw [List.mem_append, ih, List.mem_singleton]
          constructor
          · rintro (⟨taken, htaken, hreads⟩ | rfl)
            · exact ⟨c :: taken, List.forall_mem_cons.mpr ⟨hc, htaken⟩,
                Cursor.Reads.cons_iff.mpr ⟨rfl, hreads⟩⟩
            · exact ⟨[], by simp, .refl _⟩
          · rintro ⟨taken, htaken, hreads⟩
            cases taken with
            | nil => exact Or.inr (Cursor.Reads.nil_iff.mp hreads)
            | cons first more =>
                exact Or.inl ⟨more, (List.forall_mem_cons.mp htaken).2,
                  (Cursor.Reads.cons_iff.mp hreads).2⟩
      · next hc =>
          rw [List.mem_singleton]
          constructor
          · rintro rfl
            exact ⟨[], by simp, .refl _⟩
          · rintro ⟨taken, htaken, hreads⟩
            cases taken with
            | nil => exact Cursor.Reads.nil_iff.mp hreads
            | cons first more =>
                obtain ⟨rfl, -⟩ := Cursor.Reads.cons_iff.mp hreads
                exact absurd (htaken first (by simp)) hc

theorem mem_leastWays {before rest : Text} {d : Cursor} :
    d ∈ leastWays member before rest ↔ d ∈ mostWays member before rest := by
  induction rest generalizing before with
  | nil => rfl
  | cons c rest ih =>
      rw [leastWays, mostWays]
      split
      · rw [List.mem_cons, ih, List.mem_append, List.mem_singleton, or_comm]
      · rfl

theorem takes_of_mem_repeatWays {greed : Greed} {step : Progress → List Progress}
    {fuel : Nat} (hmem : q ∈ repeatWays greed step fuel p) :
    Relation.ReflTransGen
      (fun p q => q ∈ step p ∧ q.cursor.rest.length < p.cursor.rest.length) p q := by
  induction fuel generalizing p with
  | zero =>
      rw [repeatWays, List.mem_singleton] at hmem
      rw [hmem]
  | succ fuel ih =>
      have hcases : q = p ∨ ∃ r ∈ step p, r.cursor.rest.length < p.cursor.rest.length ∧
          q ∈ repeatWays greed step fuel r := by
        cases greed <;>
          simp only [repeatWays, List.mem_append, List.mem_cons, List.mem_flatMap,
            List.not_mem_nil, or_false] at hmem <;>
          grind
      rcases hcases with rfl | ⟨r, hr, hshorter, hq⟩
      · exact .refl
      · exact .head ⟨hr, hshorter⟩ (ih hq)

/-- Each repetition takes a character, so there are never more of them than characters left. -/
theorem mem_repeatWays_of_takes {greed : Greed} {step : Progress → List Progress} {fuel : Nat}
    (hfuel : p.cursor.rest.length ≤ fuel)
    (htakes : Relation.ReflTransGen
      (fun p q => q ∈ step p ∧ q.cursor.rest.length < p.cursor.rest.length) p q) :
    q ∈ repeatWays greed step fuel p := by
  induction fuel generalizing p with
  | zero =>
      rcases htakes.cases_head with rfl | ⟨r, ⟨-, hshorter⟩, -⟩
      · simp [repeatWays]
      · omega
  | succ fuel ih =>
      rcases htakes.cases_head with rfl | ⟨r, ⟨hr, hshorter⟩, hrest⟩
      · cases greed <;> simp [repeatWays]
      · have hq := ih (by omega) hrest
        have hagain : q ∈ (step p).flatMap fun q =>
            if q.cursor.rest.length < p.cursor.rest.length then repeatWays greed step fuel q
            else [] :=
          List.mem_flatMap.mpr ⟨r, hr, by rwa [if_pos hshorter]⟩
        cases greed with
        | greedy => exact List.mem_append_left _ hagain
        | lazily => exact List.mem_cons_of_mem _ hagain

theorem mem_ways {pattern : Pattern} : q ∈ pattern.ways p ↔ pattern.Takes p q := by
  induction pattern generalizing p q with
  | empty => simp [ways, Takes]
  | one member =>
      obtain ⟨⟨before, rest⟩, groups⟩ := p
      obtain ⟨⟨before', rest'⟩, groups'⟩ := q
      cases rest with
      | nil => simp [ways, Takes, Cursor.reads_iff]
      | cons c rest =>
          simp only [ways, Takes, Cursor.reads_iff]
          grind
  | seq first second ihFirst ihSecond => simp [ways, Takes, ihFirst, ihSecond]
  | alt preferred other ihPreferred ihOther => simp [ways, Takes, ihPreferred, ihOther]
  | run greed member =>
      have hrun : (∃ c, c ∈ mostWays member p.cursor.before p.cursor.rest ∧
          { p with cursor := c } = q) ↔ (Pattern.run greed member).Takes p q := by
        simp only [mem_mostWays, Takes]
        constructor
        · rintro ⟨c, ⟨taken, htaken, hreads⟩, rfl⟩
          exact ⟨taken, htaken, hreads, rfl⟩
        · rintro ⟨taken, htaken, hreads, hgroups⟩
          exact ⟨q.cursor, ⟨taken, htaken, hreads⟩, by rw [← hgroups]⟩
      cases greed with
      | greedy => rw [ways, List.mem_map, ← hrun]
      | lazily => simp only [ways, List.mem_map, mem_leastWays, ← hrun]
  | star greed body ih =>
      simp only [ways, Takes, ← ih]
      exact ⟨takes_of_mem_repeatWays, mem_repeatWays_of_takes le_rfl⟩
  | group index body ih => simp [ways, Takes, ih, eq_comm]
  | wordBoundary => simp only [ways, Takes]; split <;> simp_all
  | lineStart => simp only [ways, Takes]; split <;> simp_all
  | textStart => simp only [ways, Takes]; split <;> simp_all
  | textEnd => simp only [ways, Takes]; split <;> simp_all

/-! ## How much is taken, and between which characters -/

/-- A pattern takes at least so many characters. -/
def minSize : Pattern → Nat
  | .empty => 0
  | .one _ => 1
  | .seq first second => first.minSize + second.minSize
  | .alt preferred other => min preferred.minSize other.minSize
  | .run _ _ => 0
  | .star _ _ => 0
  | .group _ body => body.minSize
  | .wordBoundary | .lineStart | .textStart | .textEnd => 0

/-- What is taken can begin with the character.  A part that takes something hides what is behind
it. -/
def opens : Pattern → Char → Bool
  | .empty, _ => false
  | .one member, c => member c
  | .seq first second, c => first.opens c || (first.minSize == 0 && second.opens c)
  | .alt preferred other, c => preferred.opens c || other.opens c
  | .run _ member, c => member c
  | .star _ body, c => body.opens c
  | .group _ body, c => body.opens c
  | .wordBoundary, _ | .lineStart, _ | .textStart, _ | .textEnd, _ => false

/-- What is taken can end with the character. -/
def closes : Pattern → Char → Bool
  | .empty, _ => false
  | .one member, c => member c
  | .seq first second, c => second.closes c || (second.minSize == 0 && first.closes c)
  | .alt preferred other, c => preferred.closes c || other.closes c
  | .run _ member, c => member c
  | .star _ body, c => body.closes c
  | .group _ body, c => body.closes c
  | .wordBoundary, _ | .lineStart, _ | .textStart, _ | .textEnd, _ => false

structure Admits (pattern : Pattern) (taken : Text) : Prop where
  size : pattern.minSize ≤ taken.length
  head : ∀ c ∈ taken.head?, pattern.opens c = true
  last : ∀ c ∈ taken.getLast?, pattern.closes c = true

namespace Admits

variable {pattern preferred other first second body : Pattern} {greed : Greed} {taken more : Text}

theorem nil (h : pattern.minSize = 0) : pattern.Admits [] :=
  ⟨h.le, by simp, by simp⟩

theorem one {c : Char} (h : member c = true) : (Pattern.one member).Admits [c] :=
  ⟨le_rfl, by simpa [opens] using h, by simpa [closes] using h⟩

theorem seq (hfirst : first.Admits taken) (hsecond : second.Admits more) :
    (Pattern.seq first second).Admits (taken ++ more) := by
  constructor
  case size =>
    rw [minSize, List.length_append]
    exact Nat.add_le_add hfirst.size hsecond.size
  case head =>
    intro c hc
    rw [opens, Bool.or_eq_true, Bool.and_eq_true, beq_iff_eq]
    cases taken with
    | nil => exact Or.inr ⟨Nat.le_zero.mp hfirst.size, hsecond.head c hc⟩
    | cons d taken => exact Or.inl (hfirst.head c hc)
  case last =>
    intro c hc
    rw [closes, Bool.or_eq_true, Bool.and_eq_true, beq_iff_eq]
    rcases eq_or_ne more [] with rfl | hne
    · rw [List.append_nil] at hc
      exact Or.inr ⟨Nat.le_zero.mp hsecond.size, hfirst.last c hc⟩
    · rw [List.getLast?_append_of_ne_nil _ hne] at hc
      exact Or.inl (hsecond.last c hc)

theorem of_preferred (h : preferred.Admits taken) : (Pattern.alt preferred other).Admits taken where
  size := (min_le_left _ _).trans h.size
  head c hc := Bool.or_eq_true_iff.mpr (.inl (h.head c hc))
  last c hc := Bool.or_eq_true_iff.mpr (.inl (h.last c hc))

theorem of_other (h : other.Admits taken) : (Pattern.alt preferred other).Admits taken where
  size := (min_le_right _ _).trans h.size
  head c hc := Bool.or_eq_true_iff.mpr (.inr (h.head c hc))
  last c hc := Bool.or_eq_true_iff.mpr (.inr (h.last c hc))

theorem run (h : ∀ c ∈ taken, member c = true) : (Pattern.run greed member).Admits taken where
  size := Nat.zero_le _
  head c hc := h c (List.mem_of_mem_head? hc)
  last c hc := h c (List.mem_of_mem_getLast? hc)

theorem star (hbody : body.Admits taken) (hmore : (Pattern.star greed body).Admits more) :
    (Pattern.star greed body).Admits (taken ++ more) := by
  constructor
  case size => exact Nat.zero_le _
  case head =>
    intro c hc
    rcases eq_or_ne taken [] with rfl | hne
    · exact hmore.head c hc
    · rw [List.head?_append_of_ne_nil _ hne] at hc
      exact hbody.head c hc
  case last =>
    intro c hc
    rcases eq_or_ne more [] with rfl | hne
    · rw [List.append_nil] at hc
      exact hbody.last c hc
    · rw [List.getLast?_append_of_ne_nil _ hne] at hc
      exact hmore.last c hc

end Admits

theorem Takes.admits {pattern : Pattern} (h : pattern.Takes p q) :
    ∃ taken, p.cursor.Reads taken q.cursor ∧ pattern.Admits taken := by
  induction pattern generalizing p q with
  | empty =>
      obtain rfl : q = p := h
      exact ⟨[], .refl _, .nil rfl⟩
  | one member =>
      obtain ⟨c, hc, hreads, -⟩ := h
      exact ⟨[c], hreads, .one hc⟩
  | seq first second ihFirst ihSecond =>
      obtain ⟨r, hfirst, hsecond⟩ := h
      obtain ⟨taken, hreads, htaken⟩ := ihFirst hfirst
      obtain ⟨more, hreads', hmore⟩ := ihSecond hsecond
      exact ⟨taken ++ more, hreads.trans hreads', htaken.seq hmore⟩
  | alt preferred other ihPreferred ihOther =>
      rcases h with h | h
      · obtain ⟨taken, hreads, htaken⟩ := ihPreferred h
        exact ⟨taken, hreads, htaken.of_preferred⟩
      · obtain ⟨taken, hreads, htaken⟩ := ihOther h
        exact ⟨taken, hreads, htaken.of_other⟩
  | run greed member =>
      obtain ⟨taken, htaken, hreads, -⟩ := h
      exact ⟨taken, hreads, .run htaken⟩
  | star greed body ih =>
      refine Relation.ReflTransGen.head_induction_on h ⟨[], .refl _, .nil rfl⟩ ?_
      rintro p r ⟨hbody, -⟩ - ⟨more, hreads', hmore⟩
      obtain ⟨taken, hreads, htaken⟩ := ih hbody
      exact ⟨taken ++ more, hreads.trans hreads', htaken.star hmore⟩
  | group index body ih =>
      obtain ⟨r, hbody, rfl⟩ := h
      obtain ⟨taken, hreads, htaken⟩ := ih hbody
      exact ⟨taken, hreads, htaken.size, htaken.head, htaken.last⟩
  | wordBoundary | lineStart | textStart | textEnd =>
      obtain ⟨-, rfl⟩ := h
      exact ⟨[], .refl _, .nil rfl⟩

theorem Takes.reads {pattern : Pattern} (h : pattern.Takes p q) :
    ∃ taken, p.cursor.Reads taken q.cursor ∧ pattern.minSize ≤ taken.length := by
  obtain ⟨taken, hreads, htaken⟩ := h.admits
  exact ⟨taken, hreads, htaken.size⟩

/-! ## What the building blocks take -/

@[simp] theorem takes_empty : Pattern.empty.Takes p q ↔ q = p := by
  rfl

@[simp] theorem takes_seq {first second : Pattern} :
    (Pattern.seq first second).Takes p r ↔ ∃ q, first.Takes p q ∧ second.Takes q r := by
  rfl

@[simp] theorem takes_sequence_nil : (sequence []).Takes p q ↔ q = p := by
  rfl

@[simp] theorem takes_sequence_cons {first : Pattern} {others : List Pattern} :
    (sequence (first :: others)).Takes p r ↔
      ∃ q, first.Takes p q ∧ (sequence others).Takes q r := by
  rfl

@[simp] theorem takes_textStart : Pattern.textStart.Takes p q ↔ p.cursor.before = [] ∧ q = p := by
  rfl

@[simp] theorem takes_group {index : Nat} {body : Pattern} :
    (Pattern.group index body).Takes p r ↔
      ∃ q, body.Takes p q ∧ r = { q with groups := (index, p.cursor, q.cursor) :: q.groups } := by
  rfl

theorem takes_perhaps {pattern : Pattern} :
    (perhaps pattern).Takes p q ↔ pattern.Takes p q ∨ q = p := by
  rfl

@[simp] theorem takes_one {member : Char → Bool} :
    (Pattern.one member).Takes p q ↔
      ∃ c, member c = true ∧ p.cursor.Reads [c] q.cursor ∧ q.groups = p.groups := by
  rfl

theorem takes_many {member : Char → Bool} :
    (many member).Takes p q ↔ ∃ taken : Text, (∀ c ∈ taken, member c = true) ∧
      p.cursor.Reads taken q.cursor ∧ q.groups = p.groups := by
  rfl

theorem takes_char {mark : Char} :
    (char mark).Takes p q ↔ p.cursor.Reads [mark] q.cursor ∧ q.groups = p.groups := by
  simp [char]

theorem takes_literal {s : String} :
    (literal s).Takes p q ↔ p.cursor.Reads s.toList q.cursor ∧ q.groups = p.groups := by
  rw [literal]
  induction s.toList generalizing p with
  | nil =>
      obtain ⟨c, groups⟩ := p
      obtain ⟨d, groups'⟩ := q
      simp [Cursor.Reads.nil_iff]
  | cons c cs ih =>
      rw [List.foldr_cons, takes_seq]
      simp only [takes_char, ih]
      constructor
      · rintro ⟨r, ⟨hfirst, hgroups⟩, hrest, hgroups'⟩
        exact ⟨hfirst.trans hrest, hgroups'.trans hgroups⟩
      · rintro ⟨hreads, hgroups⟩
        obtain ⟨d, hfirst, hrest⟩ := Cursor.Reads.append_iff.mp
          (show p.cursor.Reads ([c] ++ cs) q.cursor from hreads)
        exact ⟨⟨d, p.groups⟩, ⟨hfirst, rfl⟩, hrest, hgroups⟩

@[simp] theorem takes_wordBoundary :
    Pattern.wordBoundary.Takes p q ↔ p.cursor.atWordBoundary = true ∧ q = p := by
  rfl

theorem takes_bounded {pattern : Pattern} :
    (bounded pattern).Takes p q ↔
      p.cursor.atWordBoundary = true ∧ pattern.Takes p q ∧ q.cursor.atWordBoundary = true := by
  simp only [bounded, takes_sequence_cons, takes_sequence_nil, takes_wordBoundary]
  constructor
  · rintro ⟨_, ⟨hstart, rfl⟩, _, hbody, _, ⟨hstop, rfl⟩, rfl⟩
    exact ⟨hstart, hbody, hstop⟩
  · rintro ⟨hstart, hbody, hstop⟩
    exact ⟨p, ⟨hstart, rfl⟩, q, hbody, q, ⟨hstop, rfl⟩, rfl⟩

theorem takes_firstOf {patterns : List Pattern} :
    (firstOf patterns).Takes p q ↔ ∃ pattern ∈ patterns, pattern.Takes p q := by
  induction patterns with
  | nil => simp [firstOf]
  | cons first others ih =>
      cases others with
      | nil => simp [firstOf]
      | cons second others =>
          rw [List.exists_mem_cons_iff, ← ih]
          rfl

theorem takes_anyWord {words : List String} :
    (anyWord words).Takes p q ↔
      ∃ w ∈ words, p.cursor.Reads w.toList q.cursor ∧ q.groups = p.groups := by
  simp [anyWord, takes_firstOf, takes_literal]

theorem takes_many1 {member : Char → Bool} :
    (many1 member).Takes p q ↔ ∃ taken : Text, taken ≠ [] ∧ (∀ c ∈ taken, member c = true) ∧
      p.cursor.Reads taken q.cursor ∧ q.groups = p.groups := by
  rw [many1, takes_seq]
  constructor
  · rintro ⟨r, ⟨c, hc, hfirst, hgroups⟩, more, hmore, hrest, hgroups'⟩
    exact ⟨c :: more, List.cons_ne_nil c more, List.forall_mem_cons.mpr ⟨hc, hmore⟩,
      hfirst.trans hrest, hgroups'.trans hgroups⟩
  · rintro ⟨taken, hne, htaken, hreads, hgroups⟩
    obtain ⟨c, more, rfl⟩ := List.exists_cons_of_ne_nil hne
    rw [List.forall_mem_cons] at htaken
    obtain ⟨d, hfirst, hrest⟩ := Cursor.Reads.append_iff.mp
      (show p.cursor.Reads ([c] ++ more) q.cursor from hreads)
    exact ⟨⟨d, p.groups⟩, ⟨c, htaken.1, hfirst, rfl⟩, more, htaken.2, hrest, hgroups⟩

end RepoAudit.Pattern
