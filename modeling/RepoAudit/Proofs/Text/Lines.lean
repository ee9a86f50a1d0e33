import RepoAudit.Proofs.Text.Words
import Mathlib.Tactic

/-!
# Cutting a text into lines

A text that is put together from lines is cut into these lines again, except that one carriage
return at the end of a terminated line is lost and that an empty line is no line when nothing ends
it.
-/

namespace RepoAudit.Text

/-- A line without the carriage return that its end is taken to consist of. -/
def dropReturn (line : Text) : Text :=
  if line.getLast? = some '\r' then line.dropLast else line

def unlines (lines : List Text) : Text :=
  lines.flatMap fun line => line ++ ['\n']

theorem dropReturn_of_ne {line : Text} (h : line.getLast? ≠ some '\r') : dropReturn line = line :=
  if_neg h

theorem dropReturn_append (lead : Text) {line : Text} (hne : line ≠ []) :
    dropReturn (lead ++ line) = lead ++ dropReturn line := by
  rw [dropReturn, dropReturn, List.getLast?_append_of_ne_nil _ hne]
  split
  · rw [List.dropLast_append_of_ne_nil hne]
  · rfl

theorem dropReturn_append_of_ne {lead : Text} (h : lead.getLast? ≠ some '\r') (line : Text) :
    dropReturn (lead ++ line) = lead ++ dropReturn line := by
  rcases eq_or_ne line [] with rfl | hne
  · rw [List.append_nil, dropReturn_of_ne h]
    simp [dropReturn]
  · exact dropReturn_append lead hne

theorem dropReturn_eq_or (line : Text) : dropReturn line = line ∨ line = dropReturn line ++ ['\r'] := by
  rw [dropReturn]
  split
  · next h =>
      right
      obtain ⟨lead, rfl⟩ := List.getLast?_eq_some_iff.mp h
      rw [List.dropLast_concat]
  · exact Or.inl rfl

theorem trim_dropReturn (line : Text) : line.dropReturn.trim = line.trim := by
  rcases dropReturn_eq_or line with hsame | hreturn
  · rw [hsame]
  · have hblank : ∀ c ∈ ['\r'], isBlank c = true := List.forall_mem_singleton.mpr rfl
    rw [← trim_append_blank hblank line.dropReturn, ← hreturn]

theorem lines_lineFeed (rest : Text) : lines ('\n' :: rest) = [] :: lines rest := by
  rw [lines]

theorem lines_return_lineFeed (rest : Text) : lines ('\r' :: '\n' :: rest) = [] :: lines rest := by
  rw [lines]

theorem lines_cons {c : Char} {rest : Text} (hc : c ≠ '\n')
    (hreturn : c = '\r' → rest.head? ≠ some '\n') :
    lines (c :: rest) =
      match lines rest with
      | [] => [[c]]
      | line :: more => (c :: line) :: more := by
  apply lines.eq_4
  · rintro rest' rfl rfl
    exact hreturn rfl rfl
  · exact hc

theorem lines_append_lineFeed {line : Text} (hline : '\n' ∉ line) (rest : Text) :
    lines (line ++ '\n' :: rest) = dropReturn line :: lines rest := by
  induction line with
  | nil => exact lines_lineFeed rest
  | cons c line ih =>
      rw [List.mem_cons, not_or] at hline
      by_cases hend : c = '\r' ∧ line = []
      · obtain ⟨rfl, rfl⟩ := hend
        exact lines_return_lineFeed rest
      · have hhead : c = '\r' → (line ++ '\n' :: rest).head? ≠ some '\n' := by
          intro hc hhead
          obtain ⟨d, line', rfl⟩ := List.exists_cons_of_ne_nil fun h => hend ⟨hc, h⟩
          simp only [List.cons_append, List.head?_cons, Option.some.injEq] at hhead
          exact hline.2 (by simp [hhead])
        rw [List.cons_append, lines_cons (Ne.symm hline.1) hhead, ih hline.2]
        cases line with
        | nil =>
            have hc : c ≠ '\r' := fun h => hend ⟨h, rfl⟩
            simp [dropReturn, hc]
        | cons d line =>
            have hdrop := dropReturn_append [c] (List.cons_ne_nil d line)
            exact congrArg (· :: lines rest) hdrop.symm

theorem lines_of_not_mem {line : Text} (hline : '\n' ∉ line) (hne : line ≠ []) :
    lines line = [line] := by
  induction line with
  | nil => exact absurd rfl hne
  | cons c line ih =>
      rw [List.mem_cons, not_or] at hline
      have hhead : line.head? ≠ some '\n' := fun h => hline.2 (List.mem_of_mem_head? h)
      rw [lines_cons (Ne.symm hline.1) fun _ => hhead]
      cases line with
      | nil => simp
      | cons d line => rw [ih hline.2 (by simp)]

theorem eq_of_mem_lines {line other : Text} (hline : '\n' ∉ line) (h : other ∈ lines line) :
    other = line := by
  rcases eq_or_ne line [] with rfl | hne
  · simp at h
  · rw [lines_of_not_mem hline hne] at h
    exact List.mem_singleton.mp h

theorem lines_unlines_append {pieces : List Text} (hpieces : ∀ piece ∈ pieces, '\n' ∉ piece)
    (rest : Text) : (unlines pieces ++ rest).lines = pieces.map dropReturn ++ rest.lines := by
  induction pieces with
  | nil => rfl
  | cons piece pieces ih =>
      rw [List.forall_mem_cons] at hpieces
      have hsplit : unlines (piece :: pieces) ++ rest =
          piece ++ '\n' :: (unlines pieces ++ rest) := by
        simp [unlines]
      rw [hsplit, lines_append_lineFeed hpieces.1, ih hpieces.2]
      rfl

theorem join_lineFeed_concat (pieces : List Text) (last : Text) :
    join ['\n'] (pieces ++ [last]) = unlines pieces ++ last := by
  induction pieces with
  | nil => simp [join, unlines]
  | cons piece pieces ih =>
      cases pieces with
      | nil => simp [join, unlines]
      | cons next pieces =>
          simp_all [join, unlines]

theorem unlines_splitBy (t : Text) : unlines (t.splitBy (· == '\n')) = t ++ ['\n'] := by
  induction t with
  | nil => rfl
  | cons c t ih =>
      obtain ⟨piece, more, hpieces⟩ := List.exists_cons_of_ne_nil (splitBy_ne_nil (· == '\n') t)
      rw [hpieces] at ih
      rw [splitBy, hpieces]
      split
      next hc =>
        rw [eq_of_beq hc, List.cons_append, ← ih]
        rfl
      next =>
        rw [List.cons_append, ← ih]
        rfl

theorem count_unlines {pieces : List Text} (hpieces : ∀ piece ∈ pieces, '\n' ∉ piece) :
    (unlines pieces).count '\n' = pieces.length := by
  induction pieces with
  | nil => rfl
  | cons piece pieces ih =>
      rw [List.forall_mem_cons] at hpieces
      calc
        (unlines (piece :: pieces)).count '\n'
            = piece.count '\n' + 1 + (unlines pieces).count '\n' := by
          simp only [unlines, List.flatMap_cons, List.count_append, List.count_singleton_self]
        _ = (piece :: pieces).length := by
          rw [List.count_eq_zero.mpr hpieces.1, ih hpieces.2, List.length_cons]
          omega

/-- A text joined from lines has one line feed less than lines. -/
theorem count_join_lineFeed {pieces : List Text} (hne : pieces ≠ [])
    (hpieces : ∀ piece ∈ pieces, '\n' ∉ piece) :
    (join ['\n'] pieces).count '\n' + 1 = pieces.length := by
  obtain ⟨init, last, rfl⟩ := (List.eq_nil_or_concat' pieces).resolve_left hne
  rw [List.forall_mem_append, List.forall_mem_singleton] at hpieces
  rw [join_lineFeed_concat, List.count_append, count_unlines hpieces.1,
    List.count_eq_zero.mpr hpieces.2, List.length_append]
  rfl

/-- What comes before a place in joined lines are the lines above it and the beginning of its own. -/
theorem exists_line_of_prefix {pieces : List Text} {before : Text} (hne : pieces ≠ [])
    (hbefore : before <+: join ['\n'] pieces) :
    ∃ above line below lead, pieces = above ++ line :: below ∧ lead <+: line ∧
      before = unlines above ++ lead := by
  induction pieces generalizing before with
  | nil => exact absurd rfl hne
  | cons piece pieces ih =>
      cases pieces with
      | nil =>
          refine ⟨[], piece, [], before, rfl, ?_, rfl⟩
          simpa [join] using hbefore
      | cons next pieces =>
          obtain ⟨after, hafter⟩ := hbefore
          have hjoin : join ['\n'] (piece :: next :: pieces) =
              piece ++ '\n' :: join ['\n'] (next :: pieces) := by
            simp [join]
          rw [hjoin, List.append_eq_append_iff] at hafter
          rcases hafter with ⟨tail, hpiece, -⟩ | ⟨rest, hbefore, hrest⟩
          · exact ⟨[], piece, next :: pieces, before, rfl, ⟨tail, hpiece.symm⟩, rfl⟩
          · cases rest with
            | nil =>
                rw [List.append_nil] at hbefore
                exact ⟨[], piece, next :: pieces, piece, rfl, List.prefix_rfl, hbefore⟩
            | cons c rest =>
                rw [List.cons_append, List.cons.injEq] at hrest
                obtain ⟨rfl, hrest⟩ := hrest
                obtain ⟨above, line, below, lead, hpieces, hlead, hbelow⟩ :=
                  ih (List.cons_ne_nil _ _) ⟨after, hrest.symm⟩
                refine ⟨piece :: above, line, below, lead, by rw [hpieces]; rfl, hlead, ?_⟩
                rw [hbefore, hbelow]
                simp [unlines]

theorem not_mem_of_mem_lines {t line : Text} (h : line ∈ t.lines) : '\n' ∉ line := by
  induction t using lines.induct generalizing line with
  | case1 => simp at h
  | case2 rest ih =>
      rw [lines_return_lineFeed, List.mem_cons] at h
      rcases h with rfl | h
      · exact List.not_mem_nil
      · exact ih h
  | case3 rest ih =>
      rw [lines_lineFeed, List.mem_cons] at h
      rcases h with rfl | h
      · exact List.not_mem_nil
      · exact ih h
  | case4 c rest hreturn hc hnil ih =>
      rw [lines.eq_4 _ _ hreturn hc, hnil] at h
      obtain rfl : line = [c] := List.mem_singleton.mp h
      exact fun hmem => hc (List.mem_singleton.mp hmem).symm
  | case5 c rest hreturn hc first more hlines ih =>
      rw [lines.eq_4 _ _ hreturn hc, hlines] at h
      rcases List.mem_cons.mp h with rfl | h
      · exact List.not_mem_cons_of_ne_of_not_mem (Ne.symm hc) (ih (by simp [hlines]))
      · exact ih (by simp [hlines, h])

end RepoAudit.Text
