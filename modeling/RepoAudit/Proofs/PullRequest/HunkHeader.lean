import RepoAudit.Proofs.Decimal.Unsigned
import RepoAudit.Proofs.Pattern.Matches
import RepoAudit.Proofs.Text.Lines
import RepoAudit.Proofs.Text.Words
import RepoAudit.PullRequest.Patch

/-!
# The header of a hunk

The pattern of hunk headers is told apart from every other line by its shape alone, and the number
that it takes from a line is the one at the place where the shape has it.
-/

namespace RepoAudit.Patch

open Pattern

def IsNumeral (t : Text) : Prop :=
  t ≠ [] ∧ ∀ c ∈ t, isDecimal c = true

/-- The number of lines in a hunk, which is left out when it is one. -/
def IsLineCount (t : Text) : Prop :=
  t = [] ∨ ∃ digits, IsNumeral digits ∧ t = ',' :: digits

/-- A hunk header that puts the first line of the hunk at the number `start` of the new file. -/
def AnnouncesStart (line start : Text) : Prop :=
  ∃ oldStart oldCount newCount heading,
    IsNumeral oldStart ∧ IsLineCount oldCount ∧ IsNumeral start ∧ IsLineCount newCount ∧
      line = "@@ -".toList ++ (oldStart ++ (oldCount ++ (" +".toList ++ (start ++ (newCount ++
        (" @@".toList ++ heading))))))

def IsHunkHeader (line : Text) : Prop :=
  ∃ start, AnnouncesStart line start

theorem IsHunkHeader.head? {line : Text} (h : IsHunkHeader line) : line.head? = some '@' := by
  obtain ⟨start, oldStart, oldCount, newCount, heading, -, -, -, -, rfl⟩ := h
  rfl

/-! ## The shape is read in one way only -/

theorem IsLineCount.head? {count rest : Text} (hcount : IsLineCount count)
    (hrest : ∀ c ∈ rest.head?, isDecimal c = false) :
    ∀ c ∈ (count ++ rest).head?, isDecimal c = false := by
  rcases hcount with rfl | ⟨digits, -, rfl⟩
  · exact hrest
  · intro c hc
    obtain rfl : ',' = c := by simpa using hc
    rfl

theorem append_unique_of_count {s t x y : Text} (hs : IsLineCount s) (ht : IsLineCount t)
    (hx : x.head? = some ' ') (hy : y.head? = some ' ') (h : s ++ x = t ++ y) :
    s = t ∧ x = y := by
  obtain ⟨x, rfl⟩ := List.head?_eq_some_iff.mp hx
  obtain ⟨y, rfl⟩ := List.head?_eq_some_iff.mp hy
  rcases hs with rfl | ⟨s, hs, rfl⟩ <;> rcases ht with rfl | ⟨t, ht, rfl⟩
  · exact ⟨rfl, h⟩
  · exact absurd (List.head_eq_of_cons_eq h) (by decide)
  · exact absurd (List.head_eq_of_cons_eq h) (by decide)
  · have hblank : ∀ {z : Text}, ∀ c ∈ (' ' :: z).head?, isDecimal c = false := by
      rintro z c ⟨⟩
      rfl
    obtain ⟨rfl, hxy⟩ := Text.append_unique hs.2 ht.2 hblank hblank (List.tail_eq_of_cons_eq h)
    exact ⟨rfl, hxy⟩

theorem AnnouncesStart.unique {line s t : Text} (hs : AnnouncesStart line s)
    (ht : AnnouncesStart line t) : s = t := by
  obtain ⟨a, b, c, d, ha, hb, hs, hc, rfl⟩ := hs
  obtain ⟨a', b', c', d', ha', hb', ht, hc', h⟩ := ht
  have hplus : ∀ {z : Text}, ∀ c ∈ (" +".toList ++ z).head?, isDecimal c = false := by
    rintro z c ⟨⟩
    rfl
  have hclose : ∀ {z : Text}, ∀ c ∈ (" @@".toList ++ z).head?, isDecimal c = false := by
    rintro z c ⟨⟩
    rfl
  obtain ⟨-, h⟩ := Text.append_unique ha.2 ha'.2 (hb.head? hplus) (hb'.head? hplus)
    (List.append_cancel_left h)
  obtain ⟨-, h⟩ := append_unique_of_count hb hb' rfl rfl h
  exact (Text.append_unique hs.2 ht.2 (hc.head? hclose) (hc'.head? hclose)
    (List.append_cancel_left h)).1

/-! ## The pattern has this shape -/

theorem takes_numeral {p q : Progress} :
    (many1 isDecimal).Takes p q ↔
      ∃ digits, IsNumeral digits ∧ p.cursor.Reads digits q.cursor ∧ q.groups = p.groups := by
  simp only [takes_many1, IsNumeral, and_assoc]

theorem takes_lineCount {p q : Progress} :
    (perhaps (.seq (char ',') (many1 isDecimal))).Takes p q ↔
      ∃ count, IsLineCount count ∧ p.cursor.Reads count q.cursor ∧ q.groups = p.groups := by
  obtain ⟨c, groups⟩ := p
  obtain ⟨d, groups'⟩ := q
  simp only [takes_perhaps, takes_seq, takes_char, takes_numeral]
  constructor
  · rintro (⟨r, ⟨hmark, hgroups⟩, digits, hdigits, hreads, hgroups'⟩ | h)
    · exact ⟨',' :: digits, Or.inr ⟨digits, hdigits, rfl⟩, hmark.trans hreads,
        hgroups'.trans hgroups⟩
    · cases h
      exact ⟨[], Or.inl rfl, .refl _, rfl⟩
  · rintro ⟨count, rfl | ⟨digits, hdigits, rfl⟩, hreads, hgroups⟩
    · right
      rw [Cursor.Reads.nil_iff.mp hreads, ← hgroups]
    · left
      obtain ⟨e, hmark, hreads⟩ := Cursor.Reads.append_iff.mp
        (show c.Reads ([','] ++ digits) d from hreads)
      exact ⟨⟨e, groups⟩, ⟨hmark, rfl⟩, digits, hdigits, hreads, hgroups⟩

theorem takes_hunkHeader {line : Text} {q : Progress} :
    hunkHeader.Takes ⟨.start line, []⟩ q ↔
      ∃ oldStart oldCount start newCount : Text, ∃ c d : Cursor,
        IsNumeral oldStart ∧ IsLineCount oldCount ∧ IsNumeral start ∧ IsLineCount newCount ∧
          (Cursor.start line).Reads ("@@ -".toList ++ (oldStart ++ (oldCount ++ " +".toList))) c ∧
          c.Reads start d ∧ d.Reads (newCount ++ " @@".toList) q.cursor ∧
          q.groups = [(1, c, d)] := by
  simp only [hunkHeader, takes_sequence_cons, takes_sequence_nil, takes_textStart, takes_group,
    takes_lineCount, takes_literal, takes_numeral]
  constructor
  · rintro ⟨_, ⟨-, rfl⟩, p₁, ⟨hopen, hgroups₁⟩, p₂, ⟨oldStart, holdStart, hreads₂, hgroups₂⟩, p₃,
      ⟨oldCount, holdCount, hreads₃, hgroups₃⟩, p₄, ⟨hplus, hgroups₄⟩, _,
      ⟨p₅, ⟨start, hstart, hreads₅, hgroups₅⟩, rfl⟩, p₆, ⟨newCount, hnewCount, hreads₆, hgroups₆⟩,
      _, ⟨hclose, hgroups⟩, rfl⟩
    refine ⟨oldStart, oldCount, start, newCount, p₄.cursor, p₅.cursor, holdStart, holdCount, hstart,
      hnewCount, hopen.trans (hreads₂.trans (hreads₃.trans hplus)), hreads₅, hreads₆.trans hclose,
      ?_⟩
    simp [hgroups, hgroups₆, hgroups₅, hgroups₄, hgroups₃, hgroups₂, hgroups₁]
  · rintro ⟨oldStart, oldCount, start, newCount, c, d, holdStart, holdCount, hstart, hnewCount,
      hlead, hreads, htail, hgroups⟩
    obtain ⟨c₁, hopen, hlead⟩ := Cursor.Reads.append_iff.mp hlead
    obtain ⟨c₂, hreads₂, hlead⟩ := Cursor.Reads.append_iff.mp hlead
    obtain ⟨c₃, hreads₃, hplus⟩ := Cursor.Reads.append_iff.mp hlead
    obtain ⟨c₄, hreads₄, hclose⟩ := Cursor.Reads.append_iff.mp htail
    exact ⟨_, ⟨rfl, rfl⟩, ⟨c₁, []⟩, ⟨hopen, rfl⟩, ⟨c₂, []⟩, ⟨oldStart, holdStart, hreads₂, rfl⟩,
      ⟨c₃, []⟩, ⟨oldCount, holdCount, hreads₃, rfl⟩, ⟨c, []⟩, ⟨hplus, rfl⟩, _,
      ⟨⟨d, []⟩, ⟨start, hstart, hreads, rfl⟩, rfl⟩, ⟨c₄, [(1, c, d)]⟩,
      ⟨newCount, hnewCount, hreads₄, rfl⟩, q, ⟨hclose, hgroups⟩, rfl⟩

/-- What the pattern takes as its group is the number that the shape has there. -/
theorem announcesStart_of_takes {line : Text} {q : Progress}
    (h : hunkHeader.Takes ⟨.start line, []⟩ q) :
    ∃ c d : Cursor, q.groups = [(1, c, d)] ∧ AnnouncesStart line (c.upTo d) := by
  obtain ⟨oldStart, oldCount, start, newCount, c, d, holdStart, holdCount, hstart, hnewCount,
    hlead, hreads, htail, hgroups⟩ := takes_hunkHeader.mp h
  refine ⟨c, d, hgroups, oldStart, oldCount, newCount, q.cursor.rest, holdStart, holdCount, ?_,
    hnewCount, ?_⟩
  · rwa [hreads.upTo]
  · have hline := (hlead.trans (hreads.trans htail)).rest
    rw [hreads.upTo]
    simpa [Cursor.start] using hline

theorem takes_of_announcesStart {line start : Text} (h : AnnouncesStart line start) :
    ∃ q, hunkHeader.Takes ⟨.start line, []⟩ q := by
  obtain ⟨oldStart, oldCount, newCount, heading, holdStart, holdCount, hstart, hnewCount, hline⟩ := h
  have hreads : (Cursor.start line).Reads
      ("@@ -".toList ++ (oldStart ++ (oldCount ++ " +".toList)) ++
        (start ++ (newCount ++ " @@".toList)))
      ⟨("@@ -".toList ++ (oldStart ++ (oldCount ++ " +".toList)) ++
        (start ++ (newCount ++ " @@".toList))).reverse, heading⟩ := by
    constructor
    · rw [hline]
      simp [Cursor.start]
    · simp [Cursor.start]
  obtain ⟨c, hlead, hreads⟩ := Cursor.Reads.append_iff.mp hreads
  obtain ⟨d, hreads, htail⟩ := Cursor.Reads.append_iff.mp hreads
  exact ⟨⟨_, [(1, c, d)]⟩, takes_hunkHeader.mpr ⟨oldStart, oldCount, start, newCount, c, d,
    holdStart, holdCount, hstart, hnewCount, hlead, hreads, htail, rfl⟩⟩

/-! ## The number of a header -/

/-- A number that is too large counts as one. -/
def startNumber (start : Text) : Nat :=
  match Decimal.readUnsigned lineLimit start with
  | .ok n => n
  | .error _ => 1

theorem hunkStart?_of_announcesStart {line start : Text} (h : AnnouncesStart line start) :
    hunkStart? line = some (startNumber start) := by
  obtain ⟨m, hm⟩ := Option.isSome_iff_exists.mp (isSome_matchAt.mpr (takes_of_announcesStart h))
  obtain ⟨c, d, hgroups, hstart⟩ := announcesStart_of_takes (takes_of_matchAt hm).2
  have hgroup : m.group? 1 = some start := by
    rw [h.unique hstart, Match.group?, show m.groups = [(1, c, d)] from hgroups]
    rfl
  rw [hunkStart?, atStart?, hm, Option.map_some, hgroup]
  rfl

theorem hunkStart?_eq_none {line : Text} (h : ¬ IsHunkHeader line) : hunkStart? line = none := by
  rw [hunkStart?, Option.map_eq_none_iff, ← Option.not_isSome_iff_eq_none, atStart?, isSome_matchAt]
  rintro ⟨q, hq⟩
  obtain ⟨c, d, -, hstart⟩ := announcesStart_of_takes hq
  exact h ⟨_, hstart⟩

theorem isSome_hunkStart? {line : Text} : (hunkStart? line).isSome = true ↔ IsHunkHeader line := by
  constructor
  · intro h
    by_contra hnot
    rw [hunkStart?_eq_none hnot] at h
    exact Bool.noConfusion h
  · rintro ⟨start, hstart⟩
    rw [hunkStart?_of_announcesStart hstart]
    rfl

theorem startNumber_of_digits {start : Text} (hne : start ≠ [])
    (hdigits : ∀ c ∈ start, c.isDigit = true) (h : Decimal.digitsValue 0 start < lineLimit) :
    startNumber start = Decimal.digitsValue 0 start := by
  rw [startNumber, Decimal.readUnsigned_eq (by decide) hne hdigits, if_pos h]

/-! ## Carriage returns -/

theorem AnnouncesStart.append_return {line start : Text} (h : AnnouncesStart line start) :
    AnnouncesStart (line ++ ['\r']) start := by
  obtain ⟨oldStart, oldCount, newCount, heading, holdStart, holdCount, hstart, hnewCount, rfl⟩ := h
  exact ⟨oldStart, oldCount, newCount, heading ++ ['\r'], holdStart, holdCount, hstart, hnewCount,
    by simp only [List.append_assoc]⟩

theorem AnnouncesStart.dropReturn {line start : Text} (h : AnnouncesStart line start) :
    AnnouncesStart line.dropReturn start := by
  obtain ⟨oldStart, oldCount, newCount, heading, holdStart, holdCount, hstart, hnewCount, rfl⟩ := h
  refine ⟨oldStart, oldCount, newCount, heading.dropReturn, holdStart, holdCount, hstart, hnewCount,
    ?_⟩
  rw [← Text.dropReturn_append_of_ne (by decide)]
  simp (disch := simp) only [Text.dropReturn_append]

theorem hunkStart?_dropReturn (line : Text) : hunkStart? line.dropReturn = hunkStart? line := by
  by_cases h : IsHunkHeader line
  · obtain ⟨start, hstart⟩ := h
    rw [hunkStart?_of_announcesStart hstart, hunkStart?_of_announcesStart hstart.dropReturn]
  · have hdrop : ¬ IsHunkHeader line.dropReturn := by
      rintro ⟨start, hstart⟩
      rcases Text.dropReturn_eq_or line with heq | heq
      · exact h ⟨start, heq ▸ hstart⟩
      · exact h ⟨start, heq ▸ hstart.append_return⟩
    rw [hunkStart?_eq_none h, hunkStart?_eq_none hdrop]

end RepoAudit.Patch
