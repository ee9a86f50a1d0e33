import RepoAudit.Text.Basic
import Mathlib.Tactic

/-!
# Searching a text for a mark

A text is cut at the first place where a mark begins.  What stands before that place is passed: the
mark begins nowhere in it, not even when some of the mark lies in what follows.
-/

namespace RepoAudit.Text

variable {mark lead rest : Text}

theorem contains_iff {t : Text} : t.contains mark = true ↔ mark <:+: t := by
  induction t with
  | nil =>
      unfold contains
      rw [List.isEmpty_iff, List.infix_nil]
  | cons c t ih =>
      unfold contains
      rw [Bool.or_eq_true, List.isPrefixOf_iff_prefix, ih, List.infix_cons_iff]

/-- The mark begins nowhere in `lead` when `rest` follows. -/
def Passes (mark lead rest : Text) : Prop :=
  ∀ tail, tail <:+ lead → tail ≠ [] → ¬ mark <+: tail ++ rest

namespace Passes

theorem nil (mark rest : Text) : Passes mark [] rest := by
  intro tail htail hne
  exact absurd (List.suffix_nil.mp htail) hne

theorem cons_iff {c : Char} :
    Passes mark (c :: lead) rest ↔ ¬ mark <+: c :: (lead ++ rest) ∧ Passes mark lead rest := by
  constructor
  · intro h
    refine ⟨h (c :: lead) List.suffix_rfl (List.cons_ne_nil _ _), fun tail htail => ?_⟩
    exact h tail (htail.trans (List.suffix_cons c lead))
  · rintro ⟨hhere, hlater⟩ tail htail hne
    rcases List.suffix_cons_iff.mp htail with rfl | htail
    · exact hhere
    · exact hlater tail htail hne

theorem append {more : Text} (hlead : Passes mark lead (more ++ rest))
    (hmore : Passes mark more rest) : Passes mark (lead ++ more) rest := by
  induction lead with
  | nil => exact hmore
  | cons c lead ih =>
      obtain ⟨hhere, hlater⟩ := cons_iff.mp hlead
      rw [List.cons_append, cons_iff, List.append_assoc]
      exact ⟨hhere, ih hlater⟩

/-- A longer mark begins in fewer places. -/
theorem longer {longMark : Text} (h : Passes mark lead rest) (hmark : mark <+: longMark) :
    Passes longMark lead rest :=
  fun tail htail hne hlong => h tail htail hne (hmark.trans hlong)

theorem of_not_mem {c : Char} (hc : c ∉ lead) : Passes (c :: mark) lead rest := by
  intro tail htail hne hprefix
  obtain ⟨d, tail, rfl⟩ := List.exists_cons_of_ne_nil hne
  obtain ⟨rfl, -⟩ := List.cons_prefix_cons.mp hprefix
  exact hc (htail.subset (List.mem_cons_self ..))

/-- Where the mark does not occur it can only begin by running into what follows. -/
theorem of_not_infix (h : ¬ mark <:+: lead)
    (hrest : ∀ tail beyond : Text, tail <:+ lead → tail ≠ [] → beyond ≠ [] → beyond <+: rest →
      mark ≠ tail ++ beyond) : Passes mark lead rest := by
  rintro tail htail hne ⟨after, hafter⟩
  rcases List.append_eq_append_iff.mp hafter with ⟨more, hmore, -⟩ | ⟨beyond, hbeyond, hcut⟩
  · exact h ((List.prefix_append mark more).isInfix.trans (hmore ▸ htail.isInfix))
  · by_cases hnil : beyond = []
    · rw [hnil, List.append_nil] at hbeyond
      exact h (hbeyond ▸ htail.isInfix)
    · exact hrest tail beyond htail hne hnil ⟨after, hcut.symm⟩ hbeyond

theorem cutAt?_append (h : Passes mark lead rest) :
    cutAt? mark (lead ++ rest) =
      (cutAt? mark rest).map fun (before, after) => (lead ++ before, after) := by
  induction lead with
  | nil => cases hcut : cutAt? mark rest <;> simp [hcut]
  | cons c lead ih =>
      obtain ⟨hhere, hlater⟩ := cons_iff.mp h
      have hstarts : ¬ mark.isPrefixOf (c :: (lead ++ rest)) = true :=
        fun hprefix => hhere (List.isPrefixOf_iff_prefix.mp hprefix)
      rw [List.cons_append, cutAt?, if_neg hstarts, ih hlater, Option.map_map]
      rfl

theorem infix_append_iff (h : Passes mark lead rest) : mark <:+: lead ++ rest ↔ mark <:+: rest := by
  induction lead with
  | nil => rfl
  | cons c lead ih =>
      obtain ⟨hhere, hlater⟩ := cons_iff.mp h
      rw [List.cons_append, List.infix_cons_iff, ih hlater]
      exact or_iff_right hhere

end Passes

theorem cutAt?_mark_append (mark rest : Text) : cutAt? mark (mark ++ rest) = some ([], rest) := by
  have hstarts : mark.isPrefixOf (mark ++ rest) = true :=
    List.isPrefixOf_iff_prefix.mpr (List.prefix_append mark rest)
  cases hwhole : mark ++ rest with
  | nil =>
      obtain ⟨rfl, rfl⟩ := List.append_eq_nil_iff.mp hwhole
      rfl
  | cons c more =>
      rw [hwhole] at hstarts
      rw [cutAt?, if_pos hstarts, ← hwhole, List.drop_left]

theorem cutAt?_nil (hne : mark ≠ []) : cutAt? mark [] = none := by
  unfold cutAt?
  rw [if_neg (by simpa using hne)]

theorem eq_of_cutAt? {t after : Text} (h : cutAt? mark t = some (lead, after)) :
    t = lead ++ (mark ++ after) := by
  induction t generalizing lead with
  | nil =>
      rw [cutAt?] at h
      split at h
      · next hmark =>
          cases h
          simpa using hmark
      · cases h
  | cons c t ih =>
      rw [cutAt?] at h
      split at h
      · next hhere =>
          cases h
          obtain ⟨more, hmore⟩ := List.isPrefixOf_iff_prefix.mp hhere
          rw [← hmore, List.drop_left]
          rfl
      · obtain ⟨⟨before, rest⟩, hcut, heq⟩ := Option.map_eq_some_iff.mp h
        cases heq
        rw [ih hcut]
        rfl

/-! ## What follows the searched text -/

theorem prefix_of_prefix_append {t trail : Text} (htrail : ∀ c ∈ trail, c ∉ mark)
    (h : mark <+: t ++ trail) : mark <+: t := by
  obtain ⟨after, hafter⟩ := h
  rcases List.append_eq_append_iff.mp hafter with ⟨more, hmore, -⟩ | ⟨beyond, hbeyond, hcut⟩
  · exact ⟨more, hmore.symm⟩
  · cases beyond with
    | nil => rw [hbeyond, List.append_nil]
    | cons c beyond =>
        have hin : c ∈ mark := by
          rw [hbeyond]
          simp
        have hout : c ∉ mark := by
          apply htrail
          rw [hcut]
          simp
        exact absurd hin hout

theorem cutAt?_append_right {trail : Text} (hne : mark ≠ []) (htrail : ∀ c ∈ trail, c ∉ mark)
    (t : Text) :
    cutAt? mark (t ++ trail) =
      (cutAt? mark t).map fun (before, after) => (before, after ++ trail) := by
  induction t with
  | nil =>
      obtain ⟨c, more, rfl⟩ := List.exists_cons_of_ne_nil hne
      have hpasses : Passes (c :: more) trail [] :=
        .of_not_mem fun hc => htrail c hc (List.mem_cons_self ..)
      have hcut := hpasses.cutAt?_append
      rw [List.append_nil, cutAt?_nil hne] at hcut
      rw [List.nil_append, hcut, cutAt?_nil hne]
      rfl
  | cons c t ih =>
      by_cases hhere : mark <+: c :: t
      · have hlong : mark <+: c :: (t ++ trail) := hhere.trans (List.prefix_append (c :: t) trail)
        rw [List.cons_append, cutAt?, cutAt?, if_pos (List.isPrefixOf_iff_prefix.mpr hlong),
          if_pos (List.isPrefixOf_iff_prefix.mpr hhere), ← List.cons_append,
          List.drop_append_of_le_length hhere.length_le]
        rfl
      · have hlong : ¬ mark <+: c :: (t ++ trail) := fun h => hhere (prefix_of_prefix_append htrail h)
        rw [List.cons_append, cutAt?, cutAt?, if_neg (mt List.isPrefixOf_iff_prefix.mp hlong),
          if_neg (mt List.isPrefixOf_iff_prefix.mp hhere), ih]
        cases cutAt? mark t <;> rfl

theorem infix_append_right_iff {trail : Text} (hlast : ∃ c ∈ mark.getLast?, c ∉ trail) (t : Text) :
    mark <:+: t ++ trail ↔ mark <:+: t := by
  obtain ⟨last, hmem, hlast⟩ := hlast
  obtain ⟨init, rfl⟩ := List.getLast?_eq_some_iff.mp (Option.mem_def.mp hmem)
  induction trail using List.reverseRecOn with
  | nil => rw [List.append_nil]
  | append_singleton trail c ih =>
      rw [List.mem_append, List.mem_singleton, not_or] at hlast
      rw [← List.append_assoc, List.infix_concat_iff, ih hlast.1]
      apply or_iff_right
      rintro ⟨lead, hlead⟩
      rw [← List.append_assoc] at hlead
      exact hlast.2 (List.append_inj_right' hlead rfl |> List.singleton_inj.mp)

/-- A mark does not reach across a character that is not in it. -/
theorem infix_append_cons_iff {c : Char} (hc : c ∉ mark) {s t : Text} :
    mark <:+: s ++ c :: t ↔ mark <:+: s ∨ mark <:+: t := by
  have hnil : ∀ {head : Text}, (∀ d ∈ head, d ∈ mark) → head <+: c :: t → head = [] := by
    intro head hhead hprefix
    cases head with
    | nil => rfl
    | cons d head =>
        obtain ⟨rfl, -⟩ := List.cons_prefix_cons.mp hprefix
        exact absurd (hhead d List.mem_cons_self) hc
  rw [List.infix_append_iff]
  constructor
  · rintro (hs | ht | ⟨tail, head, rfl, htail, hhead⟩)
    · exact Or.inl hs
    · rcases List.infix_cons_iff.mp ht with hhere | hlater
      · rw [hnil (fun _ hd => hd) hhere]
        exact Or.inl (List.nil_infix)
      · exact Or.inr hlater
    · rw [hnil (fun _ hd => List.mem_append_right tail hd) hhead, List.append_nil]
      exact Or.inl htail.isInfix
  · rintro (hs | ht)
    · exact Or.inl hs
    · exact Or.inr (Or.inl (List.infix_cons ht))

theorem infix_join_iff {c : Char} (hc : c ∉ mark) (hne : mark ≠ []) {pieces : List Text} :
    mark <:+: join [c] pieces ↔ ∃ piece ∈ pieces, mark <:+: piece := by
  induction pieces with
  | nil => simpa [join] using hne
  | cons piece pieces ih =>
      cases pieces with
      | nil => simp [join]
      | cons next pieces =>
          have hjoin : join [c] (piece :: next :: pieces) =
              piece ++ c :: join [c] (next :: pieces) := by
            simp [join]
          simp [hjoin, infix_append_cons_iff hc, ih]

end RepoAudit.Text
