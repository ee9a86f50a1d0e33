import RepoAudit.Proofs.Text.Sentences
import Mathlib.Tactic

/-!
# Taking marks out of a text

Occurrences of a mark are taken out from left to right.  A text put together from two parts loses
the occurrences in each part, unless an occurrence begins in the first part and ends in the second.
Marks that are taken out one after the other may meet only after others between them are gone, so
what follows a text is looked at once for each mark, as the marks before have left it.
-/

namespace RepoAudit.Text

variable {mark : String} {rest : Text} {c : Char}

theorem splitFrom_ne_nil (mark : Text) (skip : Nat) (t : Text) : splitFrom mark skip t ≠ [] := by
  induction t generalizing skip with
  | nil => cases skip <;> simp [splitFrom]
  | cons c t ih =>
      cases skip with
      | zero =>
          rw [splitFrom]
          split
          · exact List.cons_ne_nil _ _
          · simpa using ih 0
      | succ skip => exact ih skip

@[simp] theorem without_nil (mark : String) : without mark [] = [] := by
  simp [without, splitOn, splitFrom]

theorem without_mark_append (hne : mark.toList ≠ []) (rest : Text) :
    without mark (mark.toList ++ rest) = without mark rest := by
  unfold without splitOn
  rw [splitFrom_mark_append hne]
  rfl

theorem without_cons (h : ¬ mark.toList <+: c :: rest) :
    without mark (c :: rest) = c :: without mark rest := by
  obtain ⟨piece, pieces, hpieces⟩ := List.exists_cons_of_ne_nil
    (splitFrom_ne_nil mark.toList 0 rest)
  unfold without splitOn
  rw [splitFrom_cons h, hpieces]
  rfl

/-- The text begins with what is left of a mark that has begun before it. -/
def Continues (mark : String) (rest : Text) : Prop :=
  ∃ n < mark.toList.length, 0 < n ∧ mark.toList.drop n <+: rest

instance (mark : String) (rest : Text) : Decidable (Continues mark rest) := by
  unfold Continues
  infer_instance

theorem prefix_of_not_continues {t : Text} (hne : t ≠ []) (hrest : ¬ Continues mark rest)
    (h : mark.toList <+: t ++ rest) : mark.toList <+: t := by
  obtain ⟨after, hafter⟩ := h
  rcases List.append_eq_append_iff.mp hafter with ⟨more, hmore, -⟩ | ⟨beyond, hbeyond, hcut⟩
  · exact ⟨more, hmore.symm⟩
  · rcases eq_or_ne beyond [] with rfl | hbeyondNe
    · exact ⟨[], by rw [hbeyond, List.append_nil, List.append_nil]⟩
    · have hlong := List.length_pos_of_ne_nil hbeyondNe
      refine absurd ⟨t.length, ?_, List.length_pos_of_ne_nil hne, ?_⟩ hrest
      · rw [hbeyond, List.length_append]
        omega
      · rw [hbeyond, List.drop_left]
        exact ⟨after, hcut.symm⟩

theorem without_append (hne : mark.toList ≠ []) (hrest : ¬ Continues mark rest) (t : Text) :
    without mark (t ++ rest) = without mark t ++ without mark rest := by
  induction hsize : t.length using Nat.strong_induction_on generalizing t with
  | _ size ih =>
      subst hsize
      cases t with
      | nil => simp
      | cons c t =>
          by_cases hwhole : mark.toList <+: c :: t
          · obtain ⟨after, hafter⟩ := hwhole
            have hshorter : after.length < (c :: t).length := by
              have hpos := List.length_pos_of_ne_nil hne
              rw [← hafter, List.length_append]
              omega
            rw [← hafter, List.append_assoc, without_mark_append hne, without_mark_append hne,
              ih after.length hshorter after rfl]
          · have hlater : ¬ mark.toList <+: c :: (t ++ rest) := fun h =>
              hwhole (prefix_of_not_continues (List.cons_ne_nil c t) hrest h)
            rw [List.cons_append, without_cons hlater, without_cons hwhole,
              ih t.length (Nat.lt_succ_self _) t rfl, List.cons_append]

/-! ## Several marks -/

def withoutAll (marks : List String) (t : Text) : Text :=
  marks.foldl (fun t mark => t.without mark) t

/-- None of the marks, taken out one after the other, reaches into the text from before it. -/
def Apart : (marks : List String) → (rest : Text) → Prop
  | [], _ => True
  | mark :: marks, rest =>
      mark.toList ≠ [] ∧ ¬ Continues mark rest ∧ Apart marks (rest.without mark)

instance decidableApart : (marks : List String) → (rest : Text) → Decidable (Apart marks rest)
  | [], _ => inferInstanceAs (Decidable True)
  | mark :: marks, rest =>
      have := decidableApart marks (rest.without mark)
      inferInstanceAs (Decidable (_ ∧ _ ∧ _))

theorem withoutAll_append {marks : List String} (h : Apart marks rest) (t : Text) :
    withoutAll marks (t ++ rest) = withoutAll marks t ++ withoutAll marks rest := by
  induction marks generalizing t rest with
  | nil => rfl
  | cons mark marks ih =>
      obtain ⟨hne, hrest, hlater⟩ := h
      unfold withoutAll at ih ⊢
      rw [List.foldl_cons, List.foldl_cons, List.foldl_cons, without_append hne hrest, ih hlater]

theorem not_prefix_cons_of_not_mem {piece : Text} (hne : piece ≠ []) (hc : c ∉ piece) :
    ¬ piece <+: c :: rest := by
  obtain ⟨d, piece, rfl⟩ := List.exists_cons_of_ne_nil hne
  intro hprefix
  obtain ⟨rfl, -⟩ := List.cons_prefix_cons.mp hprefix
  exact hc List.mem_cons_self

/-- No mark reaches across a character that is in none of them. -/
theorem withoutAll_append_cons {marks : List String}
    (hmarks : ∀ mark ∈ marks, mark.toList ≠ [] ∧ c ∉ mark.toList) (s t : Text) :
    withoutAll marks (s ++ c :: t) = withoutAll marks s ++ c :: withoutAll marks t := by
  induction marks generalizing s t with
  | nil => rfl
  | cons mark marks ih =>
      rw [List.forall_mem_cons] at hmarks
      obtain ⟨⟨hne, hc⟩, hlater⟩ := hmarks
      have hapart : ¬ Continues mark (c :: t) := by
        rintro ⟨n, hn, -, hdrop⟩
        apply not_prefix_cons_of_not_mem _ (fun hmem => hc (List.mem_of_mem_drop hmem)) hdrop
        rwa [ne_eq, List.drop_eq_nil_iff, not_le]
      have hstarts : ¬ mark.toList <+: c :: t := not_prefix_cons_of_not_mem hne hc
      unfold withoutAll at ih ⊢
      rw [List.foldl_cons, List.foldl_cons, List.foldl_cons, without_append hne hapart,
        without_cons hstarts, ih hlater]

end RepoAudit.Text
