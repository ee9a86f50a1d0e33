import RepoAudit.Complexity.Metrics
import RepoAudit.Proofs.Pattern.Offsets
import RepoAudit.Proofs.Tally
import Mathlib

/-!
# The lines of functions

A text is cut where its functions begin, and the lines of the pieces are added up.  A line on which
a function ends and the next one begins is in two pieces, so it counts twice; every other line from
the first function on counts once.
-/

namespace RepoAudit

/-- The byte is the first of a line. -/
def Text.beginsLineAt (t : Text) (offset : Nat) : Bool :=
  (t.cutAtByte? offset).any fun (before, _) => endsLine before

theorem Cursor.beginsLineAt_offset {c : Cursor} {content : Text} (htext : c.text = content) :
    content.beginsLineAt c.offset = c.beginsLine := by
  rw [Text.beginsLineAt, cutAtByte?_offset htext, Option.any_some]
  exact endsLine_before c

namespace Complexity

open Pattern

variable {content : Text} {language : Language} {start : Cursor} {later : List Cursor}

/-! ## Where functions begin -/

def functionOffsets (content : Text) (language : Language) : List Nat :=
  (functionStarts content language).map Cursor.offset

def headerPattern : Language → Pattern
  | .javaScript | .typeScript | .vue => arrowOrFunction
  | .python | .ruby | .scala => indentedDef
  | .go => goFunction
  | .rust => rustFunction
  | .kotlin => kotlinFunction
  | .swift => swiftFunction
  | .php => phpFunction
  | _ => typedFunction

theorem functionHeaders_sublist (content : Text) (language : Language) :
    (functionHeaders content language).Sublist ((headerPattern language).findAll content) := by
  cases language with
  | java | cSharp | c | cpp | html | css | shell | unknown => exact List.filter_sublist
  | javaScript | typeScript | vue | python | ruby | scala | go | rust | kotlin | swift | php =>
      exact List.Sublist.refl _

theorem minSize_headerPattern (language : Language) : 0 < (headerPattern language).minSize := by
  cases language <;> decide

/-- The cursors stand in the text one behind the other, each before some character. -/
structure Boundaries (content : Text) (starts : List Cursor) : Prop where
  within : ∀ c ∈ starts, c.text = content ∧ c.rest ≠ []
  ordered : starts.Pairwise Cursor.Precedes

theorem boundaries_functionStarts (content : Text) (language : Language) :
    Boundaries content (functionStarts content language) := by
  have hsub := functionHeaders_sublist content language
  constructor
  case within =>
    intro c hc
    obtain ⟨m, hm, rfl⟩ := List.mem_map.mp hc
    obtain ⟨htext, hreads, hsize⟩ := reads_of_mem_findAll (hsub.subset hm)
    refine ⟨htext, ?_⟩
    have htaken : m.text ≠ [] :=
      List.ne_nil_of_length_pos ((minSize_headerPattern language).trans_le hsize)
    rw [hreads.rest]
    simp [htaken]
  case ordered =>
    exact List.pairwise_map.mpr ((pairwise_scan (headerPattern language) 0 [] content).sublist hsub)

namespace Boundaries

variable {starts : List Cursor}

theorem pairwise_offset (h : Boundaries content starts) :
    (starts.map Cursor.offset).Pairwise (· < ·) := by
  refine List.pairwise_map.mpr (h.ordered.imp_of_mem fun hc hd hprecedes => ?_)
  exact hprecedes.offset_lt ((h.within _ hc).1.trans (h.within _ hd).1.symm)

theorem offset_within (h : Boundaries content starts) :
    ∀ offset ∈ starts.map Cursor.offset, offset < content.byteSize ∧
      ∃ before rest : Text, content = before ++ rest ∧ before.byteSize = offset := by
  intro offset hoffset
  obtain ⟨c, hc, rfl⟩ := List.mem_map.mp hoffset
  obtain ⟨htext, hrest⟩ := h.within c hc
  exact ⟨Cursor.offset_lt_byteSize htext hrest, c.before.reverse, c.rest, htext.symm, rfl⟩

theorem countP_beginsLineAt (h : Boundaries content starts) :
    (starts.map Cursor.offset).countP (fun o => !content.beginsLineAt o) =
      starts.countP fun c => !c.beginsLine := by
  rw [List.countP_map]
  refine List.countP_congr fun c hc => ?_
  simp [Cursor.beginsLineAt_offset (h.within c hc).1]

theorem tail (h : Boundaries content (start :: later)) : Boundaries content later where
  within c hc := h.within c (List.mem_cons_of_mem start hc)
  ordered := (List.pairwise_cons.mp h.ordered).2

/-! ## Adding up the pieces -/

theorem sum_lines_segments (h : Boundaries content (start :: later)) :
    sumOf ((segments (start :: later)).map fun s => s.lines.length) =
      start.rest.lines.length + later.countP fun c => !c.beginsLine := by
  induction later generalizing start with
  | nil => simp [segments, sumOf]
  | cons next later ih =>
      obtain ⟨htext, -⟩ := h.within start List.mem_cons_self
      obtain ⟨hnext, hrest⟩ := h.within next (by simp)
      have hprecedes := (List.pairwise_cons.mp h.ordered).1 next List.mem_cons_self
      obtain ⟨piece, hne, hreads⟩ := hprecedes.exists_reads (htext.trans hnext.symm)
      have hcut := Text.length_lines_append piece hrest
      calc
        sumOf ((segments (start :: next :: later)).map fun s => s.lines.length)
            = piece.lines.length +
                sumOf ((segments (next :: later)).map fun s => s.lines.length) := by
          rw [segments, hreads.upTo]
          rfl
        _ = piece.lines.length + (next.rest.lines.length + later.countP fun c => !c.beginsLine) := by
          rw [ih h.tail]
        _ = start.rest.lines.length + (next :: later).countP fun c => !c.beginsLine := by
          rw [List.countP_cons, hreads.beginsLine_eq hne, hreads.rest]
          cases hends : Text.endsLine piece <;> simp [hends] at hcut ⊢ <;> omega

end Boundaries

/-! ## The average -/

/-- The languages whose functions begin on lines of their own. -/
def lineHeaded : List Language :=
  [.python, .ruby, .scala, .go]

theorem beginsLine_of_lineHeaded (hlanguage : language ∈ lineHeaded) :
    ∀ c ∈ functionStarts content language, c.beginsLine = true := by
  obtain ⟨others, hpattern⟩ : ∃ others, headerPattern language =
      Pattern.sequence (.lineStart :: others) := by
    simp only [lineHeaded, List.mem_cons, List.not_mem_nil, or_false] at hlanguage
    rcases hlanguage with rfl | rfl | rfl | rfl <;> exact ⟨_, rfl⟩
  intro c hc
  obtain ⟨m, hm, rfl⟩ := List.mem_map.mp hc
  have hfound := (functionHeaders_sublist content language).subset hm
  rw [hpattern] at hfound
  exact beginsLine_of_mem_findAll hfound

theorem averageFunctionLength_eq (h : functionStarts content language = start :: later) :
    averageFunctionLength content language =
      round1 ((start.rest.lines.length + later.countP fun c => !c.beginsLine).toFloat /
        (later.length + 1).toFloat) := by
  have hboundaries := boundaries_functionStarts content language
  rw [h] at hboundaries
  simp only [averageFunctionLength, h, List.isEmpty_cons, Bool.false_eq_true, if_false,
    hboundaries.sum_lines_segments, List.length_cons]

/-- Functions begin at bytes of the text that follow each other, between two characters.  Their
average length is that of the lines from the first of them to the end, where a line counts once more
for each later function that begins within it. -/
theorem averageFunctionLength_counts_lines (content : Text) (language : Language) :
    (functionOffsets content language).Pairwise (· < ·) ∧
    (∀ offset ∈ functionOffsets content language, offset < content.byteSize ∧
      ∃ before rest : Text, content = before ++ rest ∧ before.byteSize = offset) ∧
    ∀ first later, functionOffsets content language = first :: later →
      ∃ rest, content.sliceFrom? first = some rest ∧
        averageFunctionLength content language =
          round1 ((rest.lines.length + later.countP fun o => !content.beginsLineAt o).toFloat /
            (functionOffsets content language).length.toFloat) ∧
        (language ∈ lineHeaded → later.countP (fun o => !content.beginsLineAt o) = 0) := by
  have hboundaries := boundaries_functionStarts content language
  refine ⟨hboundaries.pairwise_offset, hboundaries.offset_within, ?_⟩
  intro first later hoffsets
  obtain ⟨start, more, hstarts, rfl, rfl⟩ := List.map_eq_cons_iff.mp hoffsets
  rw [hstarts] at hboundaries
  have hcount := hboundaries.tail.countP_beginsLineAt
  refine ⟨start.rest, ?_, ?_, ?_⟩
  · rw [Text.sliceFrom?, Cursor.cutAtByte?_offset (hboundaries.within start List.mem_cons_self).1]
    rfl
  · rw [averageFunctionLength_eq hstarts, hcount, hoffsets, List.length_cons, List.length_map]
  · intro hlanguage
    rw [hcount, List.countP_eq_zero]
    intro c hc
    have hstart : c ∈ functionStarts content language := by simp [hstarts, hc]
    simp [beginsLine_of_lineHeaded hlanguage c hstart]

/-- Two functions on the second of two lines. -/
def sharedLine : Text :=
  "x\nfunction a() {} function b() {}\n".toList

theorem sharedLine_counted_twice :
    functionOffsets sharedLine .javaScript = [2, 18] ∧
      ∃ rest, sharedLine.sliceFrom? 2 = some rest ∧
        averageFunctionLength sharedLine .javaScript = round1 ((1 + 1).toFloat / (2 : Nat).toFloat) := by
  have hoffsets : functionOffsets sharedLine .javaScript = [2, 18] := by decide +kernel
  obtain ⟨rest, hrest, haverage, -⟩ :=
    (averageFunctionLength_counts_lines sharedLine .javaScript).2.2 2 [18] hoffsets
  have hslice : sharedLine.sliceFrom? 2 = some (sharedLine.drop 2) := by decide +kernel
  obtain rfl : sharedLine.drop 2 = rest := Option.some.inj (hslice.symm.trans hrest)
  have hlines : (Text.lines (sharedLine.drop 2)).length = 1 := by decide +kernel
  have hwithin : [18].countP (fun o => !sharedLine.beginsLineAt o) = 1 := by decide +kernel
  refine ⟨hoffsets, sharedLine.drop 2, hslice, ?_⟩
  rw [haverage, hlines, hwithin, hoffsets]
  rfl

end Complexity
end RepoAudit
