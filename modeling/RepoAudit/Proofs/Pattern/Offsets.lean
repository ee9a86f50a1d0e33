import RepoAudit.Proofs.Pattern.Scan
import RepoAudit.Proofs.Text.Offsets
import Mathlib

/-!
# Cursors as byte offsets

A cursor stands behind so many bytes of its text.  Of two cursors in one text the later one is behind
more of them, and the earlier one comes to it by reading what is between them.
-/

namespace RepoAudit

theorem Text.byteSize_pos {t : Text} (hne : t ≠ []) : 0 < t.byteSize := by
  obtain ⟨c, t, rfl⟩ := List.exists_cons_of_ne_nil hne
  rw [byteSize_cons]
  exact Nat.add_pos_left c.utf8Size_pos _

namespace Cursor

variable {c d : Cursor} {content piece : Text}

def offset (c : Cursor) : Nat :=
  Text.byteSize c.before.reverse

/-- The cursor stands at the first character of a line. -/
def beginsLine (c : Cursor) : Bool :=
  c.before.head?.all (· == '\n')

theorem Precedes.exists_reads (h : c.Precedes d) (htext : c.text = d.text) :
    ∃ piece : Text, piece ≠ [] ∧ c.Reads piece d := by
  obtain ⟨more, hbefore⟩ := h.lead
  have hmore : more ≠ [] := by
    rintro rfl
    have hlength := h.lt
    rw [← hbefore] at hlength
    exact lt_irrefl _ hlength
  refine ⟨more.reverse, by simpa using hmore, ?_, by rw [List.reverse_reverse, hbefore]⟩
  rw [text, text, ← hbefore, List.reverse_append, List.append_assoc] at htext
  exact List.append_cancel_left htext

theorem Reads.offset_eq (h : c.Reads piece d) : d.offset = c.offset + piece.byteSize := by
  rw [offset, offset, h.before, List.reverse_append, List.reverse_reverse, Text.byteSize_append]

theorem Precedes.offset_lt (h : c.Precedes d) (htext : c.text = d.text) : c.offset < d.offset := by
  obtain ⟨piece, hne, hreads⟩ := h.exists_reads htext
  rw [hreads.offset_eq]
  exact Nat.lt_add_of_pos_right (Text.byteSize_pos hne)

theorem offset_lt_byteSize (htext : c.text = content) (hrest : c.rest ≠ []) :
    c.offset < content.byteSize := by
  rw [← htext, text, Text.byteSize_append, offset]
  exact Nat.lt_add_of_pos_right (Text.byteSize_pos hrest)

theorem cutAtByte?_offset (htext : c.text = content) :
    content.cutAtByte? c.offset = some (c.before.reverse, c.rest) := by
  rw [← htext, text, offset, Text.cutAtByte?_append]

theorem endsLine_before (c : Cursor) : Text.endsLine c.before.reverse = c.beginsLine := by
  rw [Text.endsLine, List.getLast?_reverse, beginsLine]

/-- Where a piece ends a line, the next place begins one. -/
theorem Reads.beginsLine_eq (h : c.Reads piece d) (hne : piece ≠ []) :
    d.beginsLine = Text.endsLine piece := by
  rw [← endsLine_before, h.before, List.reverse_append, List.reverse_reverse, Text.endsLine,
    List.getLast?_append_of_ne_nil _ hne, Text.endsLine]

end Cursor

namespace Pattern

theorem beginsLine_of_mem_findAll {others : List Pattern} {content : Text} {m : Match}
    (hm : m ∈ (sequence (.lineStart :: others)).findAll content) :
    m.start.beginsLine = true := by
  have htakes := (takes_of_matchAt (mem_scan hm).2).2
  rw [takes_sequence_cons] at htakes
  obtain ⟨q, hstart, -⟩ := htakes
  exact hstart.1

end Pattern
end RepoAudit
