import RepoAudit.Proofs.Pattern.Takes
import RepoAudit.Proofs.Text.Search
import RepoAudit.Proofs.Text.Words

/-!
# Where the preferred choices lead

`Takes` leaves the order of preference out.  Where the choices that are preferred lead to a match
there is no need to look at the others: a greedy run takes its whole class when what follows accepts
that, and a lazy one stops at the first place that what follows accepts.
-/

namespace RepoAudit.Pattern

variable {α : Type} {member : Char → Bool} {before taken rest : Text} {a : α}
  {groups : List (Nat × Cursor × Cursor)}

theorem advance_eq_none {pattern : Pattern} {p : Progress} (h : ∀ q, ¬ pattern.Takes p q)
    (next : Progress → Option α) : pattern.advance p next = none := by
  rw [advance_eq, List.findSome?_eq_none_iff]
  intro q hq
  exact absurd (mem_ways.mp hq) (h q)

theorem takeMost_append {next : Cursor → Option α} (htaken : ∀ c ∈ taken, member c = true)
    (hrest : ∀ c ∈ rest.head?, member c = false)
    (hnext : next ⟨taken.reverse ++ before, rest⟩ = some a) :
    takeMost member next before (taken ++ rest) = some a := by
  induction taken generalizing before with
  | nil =>
      cases rest with
      | nil => exact hnext
      | cons c rest =>
          have hc : member c = false := hrest c rfl
          rw [List.nil_append, takeMost, hc]
          exact hnext
  | cons c taken ih =>
      rw [List.forall_mem_cons] at htaken
      rw [List.reverse_cons, List.append_assoc, List.singleton_append] at hnext
      rw [List.cons_append, takeMost, if_pos htaken.1, ih htaken.2 hnext]
      rfl

theorem takeLeast_append {next : Cursor → Option α} (htaken : ∀ c ∈ taken, member c = true)
    (hpassed : ∀ tail, tail <:+ taken → tail ≠ [] → ∀ before, next ⟨before, tail ++ rest⟩ = none)
    (hnext : next ⟨taken.reverse ++ before, rest⟩ = some a) :
    takeLeast member next before (taken ++ rest) = some a := by
  induction taken generalizing before with
  | nil =>
      cases rest with
      | nil => exact hnext
      | cons c rest =>
          rw [List.nil_append, takeLeast, show next ⟨before, c :: rest⟩ = some a from hnext]
          rfl
  | cons c taken ih =>
      have hhere := hpassed (c :: taken) List.suffix_rfl (List.cons_ne_nil _ _) before
      rw [List.forall_mem_cons] at htaken
      rw [List.reverse_cons, List.append_assoc, List.singleton_append] at hnext
      rw [List.cons_append] at hhere ⊢
      rw [takeLeast, hhere, if_pos htaken.1]
      exact ih htaken.2 (fun tail htail => hpassed tail (htail.trans (List.suffix_cons c taken))) hnext

theorem advance_literal (s : String) (next : Progress → Option α) :
    (literal s).advance ⟨⟨before, s.toList ++ rest⟩, groups⟩ next =
      next ⟨⟨s.toList.reverse ++ before, rest⟩, groups⟩ := by
  unfold literal
  induction s.toList generalizing before with
  | nil => rfl
  | cons c cs ih =>
      have hstep : (List.foldr (fun c p => Pattern.seq (char c) p) .empty (c :: cs)).advance
          ⟨⟨before, c :: cs ++ rest⟩, groups⟩ next =
          (List.foldr (fun c p => Pattern.seq (char c) p) .empty cs).advance
            ⟨⟨c :: before, cs ++ rest⟩, groups⟩ next := by
        simp [advance, char]
      rw [hstep, ih, List.reverse_cons, List.append_assoc]
      rfl

theorem advance_literal_of_not_prefix {s : String} (h : ¬ s.toList <+: rest)
    (next : Progress → Option α) :
    (literal s).advance ⟨⟨before, rest⟩, groups⟩ next = none := by
  apply advance_eq_none
  intro q htakes
  obtain ⟨hreads, -⟩ := takes_literal.mp htakes
  exact h ⟨q.cursor.rest, hreads.rest.symm⟩

theorem exists_cons_of_takes_many1 {p q : Progress} (h : (many1 member).Takes p q) :
    ∃ c trail, p.cursor.rest = c :: trail ∧ member c = true := by
  obtain ⟨taken, hne, htaken, hreads, -⟩ := takes_many1.mp h
  obtain ⟨c, more, rfl⟩ := List.exists_cons_of_ne_nil hne
  exact ⟨c, _, hreads.rest, htaken c List.mem_cons_self⟩

theorem advance_many1 {run : Text} {next : Progress → Option α} (hne : run ≠ [])
    (hrun : ∀ c ∈ run, member c = true)
    (hrest : ∀ c ∈ rest.head?, member c = false)
    (hnext : next ⟨⟨run.reverse ++ before, rest⟩, groups⟩ = some a) :
    (many1 member).advance ⟨⟨before, run ++ rest⟩, groups⟩ next = some a := by
  obtain ⟨first, more, rfl⟩ := List.exists_cons_of_ne_nil hne
  rw [List.forall_mem_cons] at hrun
  rw [List.reverse_cons, List.append_assoc, List.singleton_append] at hnext
  change (if member first then
    takeMost member (fun c => next ⟨c, groups⟩) (first :: before) (more ++ rest) else none) = _
  rw [if_pos hrun.1]
  exact takeMost_append hrun.2 hrest hnext

/-! ## The first match -/

theorem firstFrom_append {pattern : Pattern} {lead : Text}
    (hpassed : ∀ tail, tail <:+ lead → tail ≠ [] → ∀ before,
      pattern.matchAt ⟨before, tail ++ rest⟩ = none) :
    pattern.firstFrom before (lead ++ rest) =
      pattern.firstFrom (lead.reverse ++ before) rest := by
  induction lead generalizing before with
  | nil => rfl
  | cons c lead ih =>
      have hhere := hpassed (c :: lead) List.suffix_rfl (List.cons_ne_nil _ _) before
      rw [List.cons_append] at hhere ⊢
      rw [firstFrom, hhere, List.reverse_cons, List.append_assoc]
      exact ih fun tail htail => hpassed tail (htail.trans (List.suffix_cons c lead))

theorem firstFrom_of_matchAt {pattern : Pattern} {m : Match}
    (h : pattern.matchAt ⟨before, rest⟩ = some m) : pattern.firstFrom before rest = some m := by
  cases rest with
  | nil => exact h
  | cons c rest =>
      rw [firstFrom, h]
      rfl

/-- The first match of a literal is where the text is cut at it. -/
theorem firstFrom_literal (s : String) (before rest : Text) :
    (literal s).firstFrom before rest =
      (Text.cutAt? s.toList rest).map fun (lead, after) =>
        ⟨⟨lead.reverse ++ before, s.toList ++ after⟩,
          ⟨s.toList.reverse ++ (lead.reverse ++ before), after⟩, []⟩ := by
  by_cases hhere : s.toList <+: rest
  · obtain ⟨after, rfl⟩ := hhere
    rw [Text.cutAt?_mark_append]
    exact firstFrom_of_matchAt (advance_literal s _)
  · have hnone : (literal s).matchAt ⟨before, rest⟩ = none := advance_literal_of_not_prefix hhere _
    cases rest with
    | nil =>
        have hne : s.toList ≠ [] := fun hnil => hhere (hnil ▸ List.nil_prefix)
        rw [firstFrom, hnone, Text.cutAt?_nil hne]
        rfl
    | cons c rest =>
        rw [firstFrom, hnone, Text.cutAt?, if_neg (mt List.isPrefixOf_iff_prefix.mp hhere),
          Option.map_map]
        exact (firstFrom_literal s (c :: before) rest).trans (by simp [Function.comp_def])

/-! ## The first run -/

theorem matchAt_many1 {run : Text} (before : Text) (hne : run ≠ [])
    (hrun : ∀ c ∈ run, member c = true) (hrest : ∀ c ∈ rest.head?, member c = false) :
    ∃ m, (many1 member).matchAt ⟨before, run ++ rest⟩ = some m ∧ m.text = run := by
  let c : Cursor := ⟨before, run ++ rest⟩
  let d : Cursor := ⟨run.reverse ++ before, rest⟩
  have hreads : c.Reads run d := ⟨rfl, rfl⟩
  exact ⟨⟨c, d, []⟩, advance_many1 hne hrun hrest rfl, hreads.upTo⟩

theorem firstFrom_many1 (member : Char → Bool) (before t : Text) :
    ((many1 member).firstFrom before t).map Match.text = (Text.runs member t).head? := by
  induction t using Text.runs_induction member generalizing before with
  | nil => rfl
  | mark c rest hc ih =>
      have hnone : (many1 member).matchAt ⟨before, c :: rest⟩ = none := by
        change (if member c then _ else none) = none
        rw [hc]
        rfl
      rw [firstFrom, hnone, Text.runs_cons_of_not hc]
      exact ih _
  | run run rest hne hrun hrest ih =>
      obtain ⟨m, hmatch, htext⟩ := matchAt_many1 before hne hrun hrest
      rw [Text.runs_append hne hrun hrest, firstFrom_of_matchAt hmatch]
      exact congrArg some htext

end RepoAudit.Pattern
