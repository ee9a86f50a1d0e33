import RepoAudit.Proofs.PullRequest.LineKinds

/-!
# Unified diffs

A unified diff is lines about the files and then hunks, each a header and a body of marked lines.
This is the grammar, and what it means for the new file: an added line has the number that the
header announces plus the number of lines of the new file before it in its hunk.  Reading the text
of any diff gives exactly its added lines.
-/

namespace RepoAudit.Patch

/-- A whole number as it is written; leading zeros are allowed. -/
structure Numeral where
  digits : Text
  digits_ne_nil : digits ≠ []
  isDigit_digits : ∀ c ∈ digits, c.isDigit = true

def Numeral.value (n : Numeral) : Nat :=
  Decimal.digitsValue 0 n.digits

inductive Mark where
  | context
  | added
  | removed
  | note
  deriving DecidableEq

def Mark.char : Mark → Char
  | .context => ' '
  | .added => '+'
  | .removed => '-'
  | .note => '\\'

def Mark.inNewFile : Mark → Bool
  | .context | .added => true
  | .removed | .note => false

structure BodyLine where
  mark : Mark
  text : Text
  not_mem_text : '\n' ∉ text
  getLast?_text_ne : text.getLast? ≠ some '\r'

def BodyLine.line (l : BodyLine) : Text :=
  l.mark.char :: l.text

structure Hunk where
  oldStart : Numeral
  oldCount : Option Numeral
  newStart : Numeral
  newCount : Option Numeral
  /-- Whatever stands after the header proper. -/
  heading : Text
  not_mem_heading : '\n' ∉ heading
  body : List BodyLine

namespace Hunk

def countText : Option Numeral → Text
  | none => []
  | some n => ',' :: n.digits

def header (h : Hunk) : Text :=
  "@@ -".toList ++ (h.oldStart.digits ++ (countText h.oldCount ++ (" +".toList ++
    (h.newStart.digits ++ (countText h.newCount ++ (" @@".toList ++ h.heading))))))

def lines (h : Hunk) : List Text :=
  h.header :: h.body.map BodyLine.line

/-- The added lines of a hunk: the start it announces plus the lines of the new file before. -/
def added (h : Hunk) : List (Nat × Text) :=
  (h.body.zipIdx.filter fun (l, _) => l.mark = .added).map fun (l, index) =>
    (h.newStart.value + (h.body.take index).countP fun l => l.mark.inNewFile, l.text)

end Hunk

/-- Before the first hunk stand lines about the files, none of which can be taken for a hunk header
or for an added line. -/
structure UnifiedDiff where
  fileHeaders : List Text
  not_mem_fileHeader : ∀ line ∈ fileHeaders, '\n' ∉ line
  not_isHunkHeader : ∀ line ∈ fileHeaders, ¬ IsHunkHeader line
  plus_fileHeader : ∀ line ∈ fileHeaders, line.head? = some '+' → "+++".toList <+: line
  hunks : List Hunk

namespace UnifiedDiff

def lines (d : UnifiedDiff) : List Text :=
  d.fileHeaders ++ d.hunks.flatMap Hunk.lines

/-- The text of a diff; the line feed after its last line may be missing. -/
def text (d : UnifiedDiff) (terminated : Bool) : Text :=
  if terminated then Text.unlines d.lines else Text.join ['\n'] d.lines

def added (d : UnifiedDiff) : List (Nat × Text) :=
  d.hunks.flatMap Hunk.added

end UnifiedDiff

/-! ## One hunk -/

def BodyLine.kind (l : BodyLine) : LineKind :=
  match l.mark with
  | .context => .context
  | .added => .added l.text
  | .removed => .removed
  | .note => .note

def addedAfter : (next : Nat) → List BodyLine → List (Nat × Text)
  | _, [] => []
  | next, l :: body =>
      (if l.mark = .added then [(next, l.text)] else []) ++
        addedAfter (next + if l.mark.inNewFile then 1 else 0) body

theorem addedAfter_eq (start : Nat) (seen body : List BodyLine) :
    addedAfter (start + seen.countP fun l => l.mark.inNewFile) body =
      ((body.zipIdx seen.length).filter fun (l, _) => l.mark = .added).map fun (l, index) =>
        (start + ((seen ++ body).take index).countP fun l => l.mark.inNewFile, l.text) := by
  induction body generalizing seen with
  | nil => rfl
  | cons l body ih =>
      have hnext := ih (seen ++ [l])
      rw [List.countP_append, List.countP_singleton, List.length_append, List.length_singleton,
        List.append_assoc, List.singleton_append] at hnext
      rw [addedAfter, Nat.add_assoc, hnext, List.zipIdx_cons, List.filter_cons]
      by_cases hmark : l.mark = .added
      · simp [hmark]
      · simp [hmark]

theorem Hunk.added_eq (h : Hunk) : h.added = addedAfter h.newStart.value h.body :=
  (addedAfter_eq h.newStart.value [] h.body).symm

theorem hunkStart?_body (l : BodyLine) : hunkStart? l.line = none := by
  apply hunkStart?_eq_none
  intro h
  have hhead := h.head?
  rw [BodyLine.line, List.head?_cons, Option.some.injEq] at hhead
  cases hmark : l.mark <;> simp [hmark, Mark.char] at hhead

theorem lineKind_body (l : BodyLine) : lineKind true l.line = l.kind := by
  rw [lineKind.eq_def, hunkStart?_body, BodyLine.kind, BodyLine.line]
  cases l.mark <;> rfl

theorem lineKinds_body (body : List BodyLine) :
    lineKinds true (body.map BodyLine.line) = body.map BodyLine.kind := by
  induction body with
  | nil => rfl
  | cons l body ih =>
      rw [List.map_cons, lineKinds, lineKind_body, Bool.true_or, ih]
      rfl

/-- The numbers stay below the limit as long as lines are added, so up to the last of them the
count never wraps around. -/
theorem numbered_body {next start : Nat} {body : List BodyLine}
    (hnext : start < lineLimit → next = start)
    (hadded : ∀ line ∈ addedAfter start body, line.1 < lineLimit) :
    numbered next (body.map BodyLine.kind) = addedAfter start body := by
  induction body generalizing next start with
  | nil => rfl
  | cons l body ih =>
      rw [addedAfter, List.forall_mem_append] at hadded
      have hcount : start + 1 < lineLimit → (next + 1) % lineLimit = start + 1 := by
        intro hlt
        rw [hnext (by omega), Nat.mod_eq_of_lt hlt]
      rw [List.map_cons, addedAfter, BodyLine.kind]
      cases hmark : l.mark with
      | added =>
          simp only [hmark, Mark.inNewFile, if_true] at hadded ⊢
          have hstart : start < lineLimit := hadded.1 _ (List.mem_singleton.mpr rfl)
          rw [numbered, hnext hstart, LineKind.after, ih (hnext hstart ▸ hcount) hadded.2]
          rfl
      | context =>
          simp only [hmark, Mark.inNewFile, if_true] at hadded ⊢
          rw [numbered_cons rfl, LineKind.after, ih hcount hadded.2]
          rfl
      | removed =>
          rw [hmark] at hadded
          exact ih hnext hadded.2
      | note =>
          rw [hmark] at hadded
          exact ih hnext hadded.2

theorem Numeral.isNumeral (n : Numeral) : IsNumeral n.digits :=
  ⟨n.digits_ne_nil, fun c hc => Decimal.isDecimal_of_isDigit (n.isDigit_digits c hc)⟩

theorem isLineCount_countText (count : Option Numeral) : IsLineCount (Hunk.countText count) := by
  cases count with
  | none => exact Or.inl rfl
  | some n => exact Or.inr ⟨n.digits, n.isNumeral, rfl⟩

theorem Hunk.announcesStart (h : Hunk) : AnnouncesStart h.header h.newStart.digits :=
  ⟨h.oldStart.digits, countText h.oldCount, countText h.newCount, h.heading, h.oldStart.isNumeral,
    isLineCount_countText _, h.newStart.isNumeral, isLineCount_countText _, rfl⟩

theorem dropReturn_body (l : BodyLine) : l.line.dropReturn = l.line := by
  apply Text.dropReturn_of_ne
  rw [BodyLine.line]
  cases htext : l.text with
  | nil => cases l.mark <;> decide
  | cons c text =>
      rw [List.getLast?_cons_cons, ← htext]
      exact l.getLast?_text_ne

theorem numbered_hunk {h : Hunk} (hadded : ∀ line ∈ h.added, line.1 < lineLimit) (inHunk : Bool)
    (next : Nat) : numbered next (lineKinds inHunk (h.lines.map Text.dropReturn)) = h.added := by
  have hbody : (h.body.map BodyLine.line).map Text.dropReturn = h.body.map BodyLine.line := by
    rw [List.map_map]
    exact List.map_congr_left fun l _ => dropReturn_body l
  have hstart : hunkStart? h.header.dropReturn = some (startNumber h.newStart.digits) := by
    rw [hunkStart?_dropReturn, hunkStart?_of_announcesStart h.announcesStart]
  have hnumber : h.newStart.value < lineLimit →
      startNumber h.newStart.digits = h.newStart.value :=
    startNumber_of_digits h.newStart.digits_ne_nil h.newStart.isDigit_digits
  rw [h.added_eq] at hadded ⊢
  rw [Hunk.lines, List.map_cons, hbody, lineKinds, lineKind.eq_def, hstart, Option.isSome_some,
    Bool.or_true, lineKinds_body, numbered_cons rfl]
  exact numbered_body hnumber hadded

theorem numbered_hunks {hunks : List Hunk}
    (hadded : ∀ line ∈ hunks.flatMap Hunk.added, line.1 < lineLimit) (inHunk : Bool) (next : Nat) :
    numbered next (lineKinds inHunk ((hunks.flatMap Hunk.lines).map Text.dropReturn)) =
      hunks.flatMap Hunk.added := by
  induction hunks generalizing inHunk next with
  | nil => rfl
  | cons h hunks ih =>
      rw [List.flatMap_cons, List.forall_mem_append] at hadded
      rw [List.flatMap_cons, List.map_append, lineKinds_append, numbered_append,
        numbered_hunk hadded.1, ih hadded.2, List.flatMap_cons]

/-! ## Before the first hunk -/

structure IsFileHeaderLine (line : Text) : Prop where
  not_isHunkHeader : ¬ IsHunkHeader line
  plus : line.head? = some '+' → "+++".toList <+: line

theorem UnifiedDiff.isFileHeaderLine (d : UnifiedDiff) {line : Text}
    (h : line ∈ d.fileHeaders) : IsFileHeaderLine line :=
  ⟨d.not_isHunkHeader line h, d.plus_fileHeader line h⟩

theorem IsFileHeaderLine.dropReturn {line : Text} (h : IsFileHeaderLine line) :
    IsFileHeaderLine line.dropReturn := by
  constructor
  · rw [← isSome_hunkStart?, hunkStart?_dropReturn, isSome_hunkStart?]
    exact h.not_isHunkHeader
  · intro hhead
    have hplus : line.head? = some '+' := by
      rcases Text.dropReturn_eq_or line with heq | heq
      · rwa [← heq]
      · rw [heq, List.head?_append, hhead]
        rfl
    obtain ⟨rest, rfl⟩ := h.plus hplus
    rw [Text.dropReturn_append_of_ne (by decide)]
    exact List.prefix_append _ _

theorem IsFileHeaderLine.isAdded_lineKind {line : Text} (h : IsFileHeaderLine line) :
    (lineKind false line).isAdded = false := by
  rw [lineKind.eq_def, hunkStart?_eq_none h.not_isHunkHeader]
  dsimp only
  split
  · rfl
  · next hheader =>
      split
      · rfl
      · next text =>
          -- A line that starts with a plus sign starts with three of them.
          have hplus := List.isPrefixOf_iff_prefix.mpr (h.plus rfl)
          simp only [isFileHeader, hplus] at hheader
          exact absurd rfl hheader
      · rfl
      · rfl

theorem lineKinds_fileHeaders {lines : List Text} (hlines : ∀ line ∈ lines, IsFileHeaderLine line) :
    ∀ kind ∈ lineKinds false lines, kind.isAdded = false := by
  induction lines with
  | nil => exact fun kind hkind => absurd hkind List.not_mem_nil
  | cons line lines ih =>
      rw [List.forall_mem_cons] at hlines
      rw [lineKinds, hunkStart?_eq_none hlines.1.not_isHunkHeader, List.forall_mem_cons]
      exact ⟨hlines.1.isAdded_lineKind, ih hlines.2⟩

theorem numbered_fileHeaders {lines : List Text} (hlines : ∀ line ∈ lines, IsFileHeaderLine line)
    (next : Nat) : numbered next (lineKinds false lines) = [] :=
  numbered_eq_nil (lineKinds_fileHeaders hlines)

/-! ## The whole diff -/

theorem numbered_lines {d : UnifiedDiff} (hadded : ∀ line ∈ d.added, line.1 < lineLimit) :
    numbered 1 (lineKinds false (d.lines.map Text.dropReturn)) = d.added := by
  have hheaders : ∀ line ∈ d.fileHeaders.map Text.dropReturn, IsFileHeaderLine line := by
    rw [List.forall_mem_map]
    exact fun line hline => (d.isFileHeaderLine hline).dropReturn
  rw [UnifiedDiff.lines, List.map_append, lineKinds_append, numbered_append,
    numbered_fileHeaders hheaders, List.nil_append, numbered_hunks hadded]
  rfl

theorem Numeral.not_mem_digits (n : Numeral) : '\n' ∉ n.digits := by
  intro h
  exact absurd (n.isDigit_digits _ h) (by decide)

theorem Hunk.not_mem_countText (count : Option Numeral) : '\n' ∉ countText count := by
  cases count with
  | none => exact List.not_mem_nil
  | some n => exact List.not_mem_cons_of_ne_of_not_mem (by decide) n.not_mem_digits

theorem Hunk.not_mem_line (h : Hunk) : ∀ line ∈ h.lines, '\n' ∉ line := by
  rw [Hunk.lines, List.forall_mem_cons, List.forall_mem_map]
  constructor
  · simp only [Hunk.header, List.mem_append, not_or]
    exact ⟨by decide, h.oldStart.not_mem_digits, not_mem_countText _, by decide,
      h.newStart.not_mem_digits, not_mem_countText _, by decide, h.not_mem_heading⟩
  · intro l _
    exact List.not_mem_cons_of_ne_of_not_mem (by cases l.mark <;> decide) l.not_mem_text

theorem UnifiedDiff.not_mem_line (d : UnifiedDiff) : ∀ line ∈ d.lines, '\n' ∉ line := by
  rw [UnifiedDiff.lines, List.forall_mem_append, List.forall_mem_flatMap]
  exact ⟨d.not_mem_fileHeader, fun h _ => h.not_mem_line⟩

theorem Hunk.isHunkHeader_or (h : Hunk) {line : Text} (hline : line ∈ h.lines) :
    IsHunkHeader line ∨ line.dropReturn = line := by
  rw [Hunk.lines, List.mem_cons, List.mem_map] at hline
  rcases hline with rfl | ⟨l, -, rfl⟩
  · exact Or.inl ⟨_, h.announcesStart⟩
  · exact Or.inr (dropReturn_body l)

/-- The carriage return at the end of a last line that nothing terminates stays there, but such a
line is the header of a hunk and means the same without it. -/
theorem numbered_last {last : Text} (hlast : '\n' ∉ last)
    (h : IsHunkHeader last ∨ last.dropReturn = last) (inHunk : Bool) (next : Nat) :
    numbered next (lineKinds inHunk last.lines) =
      numbered next (lineKinds inHunk [last.dropReturn]) := by
  rcases eq_or_ne last [] with rfl | hne
  · have hempty : lineKind inHunk [] = .context := by
      cases inHunk <;> rfl
    rw [Text.lines_nil, show Text.dropReturn [] = [] from rfl, lineKinds, lineKinds, hempty]
    rfl
  · rw [Text.lines_of_not_mem hlast hne]
    rcases h with ⟨start, hstart⟩ | hdrop
    · have hnumber := hunkStart?_of_announcesStart hstart
      have hsame : lineKind inHunk last.dropReturn = lineKind inHunk last := by
        rw [lineKind.eq_def, lineKind.eq_def, hunkStart?_dropReturn, hnumber]
      rw [lineKinds, lineKinds, lineKinds, lineKinds, hsame]
    · rw [hdrop]

theorem UnifiedDiff.last_mem {d : UnifiedDiff} {init : List Text} {last : Text}
    (hlines : d.lines = init ++ [last]) (hhunks : d.hunks ≠ []) :
    ∃ h ∈ d.hunks, last ∈ h.lines := by
  have hne : d.hunks.flatMap Hunk.lines ≠ [] := by
    obtain ⟨h, hunks, hcons⟩ := List.exists_cons_of_ne_nil hhunks
    simp [hcons, Hunk.lines]
  have hlast := congrArg List.getLast? hlines
  rw [UnifiedDiff.lines, List.getLast?_append_of_ne_nil _ hne, List.getLast?_concat] at hlast
  exact List.mem_flatMap.mp (List.mem_of_getLast? hlast)

theorem UnifiedDiff.lines_text_unterminated {d : UnifiedDiff} {init : List Text} {last : Text}
    (hlines : d.lines = init ++ [last]) :
    (d.text false).lines = init.map Text.dropReturn ++ last.lines := by
  have hmem := d.not_mem_line
  rw [hlines, List.forall_mem_append] at hmem
  rw [UnifiedDiff.text, if_neg (by decide), hlines, Text.join_lineFeed_concat,
    Text.lines_unlines_append hmem.1]

/-- Without a hunk nothing is added, whatever becomes of the last line. -/
theorem numbered_unterminated_of_no_hunk {d : UnifiedDiff} {init : List Text} {last : Text}
    (hlines : d.lines = init ++ [last]) (hnone : d.hunks = []) (next : Nat) :
    numbered next (lineKinds false (init.map Text.dropReturn ++ last.lines)) = [] ∧
      numbered next (lineKinds false (init.map Text.dropReturn ++ [last.dropReturn])) = [] := by
  have hmem := d.not_mem_line
  rw [hlines, List.forall_mem_append, List.forall_mem_singleton] at hmem
  have hheaders : ∀ line ∈ d.lines, IsFileHeaderLine line := by
    rw [UnifiedDiff.lines, hnone, List.flatMap_nil, List.append_nil]
    exact fun line => d.isFileHeaderLine
  rw [hlines, List.forall_mem_append, List.forall_mem_singleton] at hheaders
  have hinit : ∀ line ∈ init.map Text.dropReturn, IsFileHeaderLine line :=
    List.forall_mem_map.mpr fun line hline => (hheaders.1 line hline).dropReturn
  have hlast : ∀ line ∈ last.lines, IsFileHeaderLine line := fun line hline =>
    Text.eq_of_mem_lines hmem.2 hline ▸ hheaders.2
  have hdropped : ∀ line ∈ [last.dropReturn], IsFileHeaderLine line :=
    List.forall_mem_singleton.mpr hheaders.2.dropReturn
  exact ⟨numbered_fileHeaders (List.forall_mem_append.mpr ⟨hinit, hlast⟩) next,
    numbered_fileHeaders (List.forall_mem_append.mpr ⟨hinit, hdropped⟩) next⟩

theorem numbered_text (d : UnifiedDiff) (terminated : Bool) :
    numbered 1 (lineKinds false (d.text terminated).lines) =
      numbered 1 (lineKinds false (d.lines.map Text.dropReturn)) := by
  cases terminated with
  | true =>
      rw [UnifiedDiff.text, if_pos rfl, ← List.append_nil (Text.unlines d.lines),
        Text.lines_unlines_append d.not_mem_line, Text.lines_nil, List.append_nil]
  | false =>
      rcases List.eq_nil_or_concat' d.lines with hnil | ⟨init, last, hlines⟩
      · rw [UnifiedDiff.text, if_neg (by decide), hnil]
        rfl
      · rw [UnifiedDiff.lines_text_unterminated hlines, hlines, List.map_append, List.map_singleton]
        by_cases hnone : d.hunks = []
        · obtain ⟨hread, hdropped⟩ := numbered_unterminated_of_no_hunk hlines hnone 1
          rw [hread, hdropped]
        · obtain ⟨h, -, hlast⟩ := UnifiedDiff.last_mem hlines hnone
          rw [lineKinds_append, lineKinds_append, numbered_append, numbered_append,
            numbered_last (h.not_mem_line last hlast) (h.isHunkHeader_or hlast)]

/-! ## The added lines of a diff -/

/-- What the added lines depend on: where each hunk starts, the marks of its lines, and the texts of
those that are added. -/
def BodyLine.outline (l : BodyLine) : Mark × Text :=
  (l.mark, if l.mark = .added then l.text else [])

def Hunk.outline (h : Hunk) : Nat × List (Mark × Text) :=
  (h.newStart.value, h.body.map BodyLine.outline)

def UnifiedDiff.outline (d : UnifiedDiff) : List (Nat × List (Mark × Text)) :=
  d.hunks.map Hunk.outline

theorem addedAfter_congr {next : Nat} {body other : List BodyLine}
    (h : body.map BodyLine.outline = other.map BodyLine.outline) :
    addedAfter next body = addedAfter next other := by
  induction body generalizing other next with
  | nil =>
      rw [List.map_nil, eq_comm, List.map_eq_nil_iff] at h
      rw [h]
  | cons l body ih =>
      cases other with
      | nil => cases h
      | cons l' other =>
          rw [List.map_cons, List.map_cons, List.cons.injEq] at h
          obtain ⟨hmark, htext⟩ := Prod.mk.inj h.1
          rw [addedAfter, addedAfter, ih h.2, ← hmark]
          by_cases hadded : l.mark = .added
          · rw [if_pos hadded, if_pos (hmark ▸ hadded)] at htext
            rw [htext]
          · rw [if_neg hadded, if_neg hadded]

theorem Hunk.added_factorsThrough : Function.FactorsThrough Hunk.added Hunk.outline := by
  intro h h' houtline
  obtain ⟨hstart, hbody⟩ := Prod.mk.inj houtline
  rw [h.added_eq, h'.added_eq, hstart, addedAfter_congr hbody]

theorem UnifiedDiff.added_congr {d d' : UnifiedDiff} (h : d.outline = d'.outline) :
    d.added = d'.added := by
  obtain ⟨read, hread⟩ := (Function.factorsThrough_iff _).mp Hunk.added_factorsThrough
  have hadded : ∀ d : UnifiedDiff, d.added = d.outline.flatMap read := by
    intro d
    rw [UnifiedDiff.added, UnifiedDiff.outline, List.flatMap_map, hread]
    rfl
  rw [hadded d, hadded d', h]

/-- The added lines of a diff are read with their numbers, and nothing else in the diff matters. -/
theorem addedLines_text (d : UnifiedDiff) (hnumbers : ∀ line ∈ d.added, line.1 < lineLimit)
    (terminated : Bool) :
    addedLines (d.text terminated) = d.added ∧
      ∀ d' : UnifiedDiff, d'.outline = d.outline → ∀ terminated',
        addedLines (d'.text terminated') = addedLines (d.text terminated) := by
  have hread : ∀ d : UnifiedDiff, (∀ line ∈ d.added, line.1 < lineLimit) → ∀ terminated,
      addedLines (d.text terminated) = d.added := by
    intro d hnumbers terminated
    rw [addedLines_eq, numbered_text, numbered_lines hnumbers]
  refine ⟨hread d hnumbers terminated, ?_⟩
  intro d' houtline terminated'
  have hadded := UnifiedDiff.added_congr houtline
  rw [hread d hnumbers, hread d' (hadded ▸ hnumbers), hadded]

def doubledMarks : UnifiedDiff where
  fileHeaders := ["--- a/x".toList, "+++ b/x".toList]
  not_mem_fileHeader := by decide
  not_isHunkHeader := by
    have hhead : ∀ line ∈ ["--- a/x".toList, "+++ b/x".toList], line.head? ≠ some '@' := by
      decide
    exact fun line hline h => hhead line hline h.head?
  plus_fileHeader := by decide
  hunks := [
    { oldStart := ⟨['7'], by decide, by simp⟩
      oldCount := none
      newStart := ⟨['0', '7'], by decide, by simp⟩
      newCount := some ⟨['3'], by decide, by simp⟩
      heading := " fn f()\r".toList
      not_mem_heading := by decide
      body := [
        ⟨.removed, "--y".toList, by decide, by decide⟩,
        ⟨.context, "@@ -1 +1 @@".toList, by decide, by decide⟩,
        ⟨.added, "++x".toList, by decide, by decide⟩,
        ⟨.note, " No newline at end of file".toList, by decide, by decide⟩,
        ⟨.added, [], by decide, by decide⟩] }]

theorem addedLines_doubledMarks :
    (∀ line ∈ doubledMarks.added, line.1 < lineLimit) ∧
      addedLines (doubledMarks.text false) = [(8, "++x".toList), (9, [])] :=
  ⟨by decide, (addedLines_text doubledMarks (by decide) false).1.trans (by decide)⟩

end RepoAudit.Patch
