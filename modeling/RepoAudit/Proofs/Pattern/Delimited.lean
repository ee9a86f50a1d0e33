import RepoAudit.Proofs.Pattern.Preferred
import RepoAudit.Proofs.Pattern.Scan
import RepoAudit.Proofs.Text.Search

/-!
# What stands between two marks

A text is searched for an opening mark and then for the first closing mark behind it, again and
again.  Text in which no opening mark begins is passed.
-/

namespace RepoAudit.Pattern

variable {opening closing : String} {before inner lead rest : Text}

def delimited (opening closing : String) : Pattern :=
  sequence [literal opening, .group 1 (.run .lazily fun _ => true), literal closing]

/-- What the search finds from a place on. -/
def betweenMarks (opening closing : String) (before rest : Text) : List Text :=
  ((delimited opening closing).scan 0 before rest).filterMap (·.group? 1)

theorem prefix_of_takes_delimited {c : Cursor} {q : Progress}
    (h : (delimited opening closing).Takes ⟨c, []⟩ q) : opening.toList <+: c.rest := by
  obtain ⟨r, hopening, -⟩ := h
  obtain ⟨hreads, -⟩ := takes_literal.mp hopening
  exact ⟨r.cursor.rest, hreads.rest.symm⟩

theorem betweenMarks_nil (hopening : opening.toList ≠ []) (before : Text) :
    betweenMarks opening closing before [] = [] := by
  have hnone : (delimited opening closing).matchAt ⟨before, []⟩ = none := by
    rw [matchAt_eq_none_iff]
    intro q htakes
    exact hopening (List.prefix_nil.mp (prefix_of_takes_delimited htakes))
  unfold betweenMarks
  rw [scan, hnone]
  rfl

theorem betweenMarks_passed (closing : String) (before : Text)
    (h : Text.Passes opening.toList lead rest) :
    betweenMarks opening closing before (lead ++ rest) =
      betweenMarks opening closing (lead.reverse ++ before) rest := by
  induction lead generalizing before with
  | nil => rfl
  | cons c lead ih =>
      obtain ⟨hhere, hlater⟩ := Text.Passes.cons_iff.mp h
      have hnone : ∀ q, ¬ (delimited opening closing).Takes ⟨⟨before, c :: (lead ++ rest)⟩, []⟩ q :=
        fun q htakes => hhere (prefix_of_takes_delimited htakes)
      have hnext := ih (c :: before) hlater
      unfold betweenMarks at hnext ⊢
      rw [List.cons_append, scan_of_not_takes hnone, hnext, List.reverse_cons, List.append_assoc]
      rfl

theorem matchAt_delimited (opening : String) (before : Text)
    (h : Text.Passes closing.toList inner (closing.toList ++ rest)) :
    ∃ m, (delimited opening closing).matchAt
        ⟨before, opening.toList ++ (inner ++ (closing.toList ++ rest))⟩ = some m ∧
      m.stop = ⟨(opening.toList ++ (inner ++ closing.toList)).reverse ++ before, rest⟩ ∧
      m.group? 1 = some inner := by
  let c : Cursor := ⟨before, opening.toList ++ (inner ++ (closing.toList ++ rest))⟩
  let d : Cursor := ⟨opening.toList.reverse ++ before, inner ++ (closing.toList ++ rest)⟩
  let e : Cursor := ⟨inner.reverse ++ d.before, closing.toList ++ rest⟩
  let stop : Cursor := ⟨closing.toList.reverse ++ e.before, rest⟩
  refine ⟨⟨c, stop, [(1, d, e)]⟩, ?_, ?_, ?_⟩
  · change (literal opening).advance ⟨c, []⟩ (fun p =>
      takeLeast (fun _ => true) (fun stop =>
        (literal closing).advance ⟨stop, (1, p.cursor, stop) :: p.groups⟩ fun q =>
          some (Match.mk c q.cursor q.groups)) p.cursor.before p.cursor.rest) =
      some ⟨c, stop, [(1, d, e)]⟩
    rw [advance_literal]
    apply takeLeast_append
    · exact fun _ _ => rfl
    · intro tail htail hne before
      exact advance_literal_of_not_prefix (h tail htail hne) _
    · rw [advance_literal]
  · simp [stop, e, d]
  · simp [Match.group?, Cursor.upTo, d, e]

/-- What stands between the marks ends with the first closing mark. -/
theorem betweenMarks_inside (before : Text) (hopening : opening.toList ≠ [])
    (h : Text.Passes closing.toList inner (closing.toList ++ rest)) :
    betweenMarks opening closing before (opening.toList ++ (inner ++ (closing.toList ++ rest))) =
      inner :: betweenMarks opening closing
        ((opening.toList ++ (inner ++ closing.toList)).reverse ++ before) rest := by
  obtain ⟨m, hmatch, hstop, hgroup⟩ := matchAt_delimited opening before h
  have hshape : opening.toList ++ (inner ++ (closing.toList ++ rest)) =
      (opening.toList ++ (inner ++ closing.toList)) ++ rest := by
    simp only [List.append_assoc]
  rw [hshape] at hmatch ⊢
  have hreads : Cursor.Reads ⟨before, (opening.toList ++ (inner ++ closing.toList)) ++ rest⟩
      (opening.toList ++ (inner ++ closing.toList)) m.stop := by
    rw [hstop]
    exact ⟨rfl, rfl⟩
  have hne : opening.toList ++ (inner ++ closing.toList) ≠ [] :=
    fun hnil => hopening (List.append_eq_nil_iff.mp hnil).1
  unfold betweenMarks
  rw [scan_of_matchAt hne hmatch hreads, List.filterMap_cons, hgroup]

end RepoAudit.Pattern
