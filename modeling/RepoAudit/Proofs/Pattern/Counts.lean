import RepoAudit.Proofs.Pattern.Scan
import RepoAudit.Proofs.Text.Words

/-!
# Counting matches

Alternatives that take characters of different classes do not get into each other's way: what one of
them takes is passed by the others, so the matches of all of them are those of each one together.
The matches of one of them lie within the runs of its class and can be counted run by run.
-/

namespace RepoAudit.Pattern

/-- The pattern takes something, and only characters of a class. -/
def Draws (pattern : Pattern) (member : Char → Bool) : Prop :=
  ∀ p q : Progress, pattern.Takes p q → ∃ taken : Text,
    taken ≠ [] ∧ (∀ c ∈ taken, member c = true) ∧ p.cursor.Reads taken q.cursor

variable {pattern preferred other : Pattern} {member member' : Char → Bool}
variable {before rest : Text} {m : Match}

theorem draws_one (member : Char → Bool) : (Pattern.one member).Draws member := by
  rintro p q ⟨c, hc, hreads, -⟩
  exact ⟨[c], List.cons_ne_nil c [], by simpa using hc, hreads⟩

namespace Draws

theorem mono (h : pattern.Draws member) (hmember : ∀ c, member c = true → member' c = true) :
    pattern.Draws member' := by
  intro p q htakes
  obtain ⟨taken, hne, hall, hreads⟩ := h p q htakes
  exact ⟨taken, hne, fun c hc => hmember c (hall c hc), hreads⟩

theorem alt (hpreferred : preferred.Draws member) (hother : other.Draws member) :
    (Pattern.alt preferred other).Draws member := by
  rintro p q (htakes | htakes)
  · exact hpreferred p q htakes
  · exact hother p q htakes

theorem reads_of_matchAt (h : pattern.Draws member) (hm : pattern.matchAt ⟨before, rest⟩ = some m) :
    ∃ taken more : Text, taken ≠ [] ∧ (∀ c ∈ taken, member c = true) ∧ rest = taken ++ more ∧
      Cursor.Reads ⟨before, rest⟩ taken m.stop := by
  obtain ⟨taken, hne, hall, hreads⟩ := h _ _ (takes_of_matchAt hm).2
  exact ⟨taken, m.stop.rest, hne, hall, hreads.rest, hreads⟩

theorem scan_nil (h : pattern.Draws member) (before : Text) : pattern.scan 0 before [] = [] := by
  rw [scan, Option.toList_eq_nil_iff, Option.eq_none_iff_forall_ne_some]
  intro m hm
  obtain ⟨taken, more, hne, -, hrest, -⟩ := h.reads_of_matchAt hm
  exact hne (List.append_eq_nil_iff.mp hrest.symm).1

theorem matchAt_of_not {c : Char} (h : pattern.Draws member) (hc : member c = false) :
    pattern.matchAt ⟨before, c :: rest⟩ = none := by
  rw [Option.eq_none_iff_forall_ne_some]
  intro m hm
  obtain ⟨taken, more, hne, hall, hrest, -⟩ := h.reads_of_matchAt hm
  obtain ⟨first, taken, rfl⟩ := List.exists_cons_of_ne_nil hne
  obtain ⟨rfl, -⟩ := List.cons.inj hrest
  rw [hall c (List.mem_cons_self ..)] at hc
  cases hc

/-- What lies outside of the class is passed. -/
theorem scan_append {taken : Text} (h : pattern.Draws member)
    (htaken : ∀ c ∈ taken, member c = false) (before rest : Text) :
    pattern.scan 0 before (taken ++ rest) = pattern.scan 0 (taken.reverse ++ before) rest :=
  scan_of_passed fun c hc _ _ => h.matchAt_of_not (htaken c hc)

end Draws

/-! ## Alternatives -/

theorem matchAt_alt (preferred other : Pattern) (c : Cursor) :
    (Pattern.alt preferred other).matchAt c = (preferred.matchAt c).or (other.matchAt c) :=
  Option.orElse_eq_or

/-- Behind a match of one of the alternatives the scans of both and that for either go on at the same
place, since the other one passes what was taken. -/
theorem exists_scans_of_matchAt {matching passing either : Pattern}
    (hmatching : matching.Draws member) (hpassing : passing.Draws member')
    (hdisjoint : ∀ c, member c = true → member' c = false)
    (hm : matching.matchAt ⟨before, rest⟩ = some m)
    (heither : either.matchAt ⟨before, rest⟩ = some m) :
    ∃ before' more : Text, more.length < rest.length ∧
      matching.scan 0 before rest = m :: matching.scan 0 before' more ∧
      passing.scan 0 before rest = passing.scan 0 before' more ∧
      either.scan 0 before rest = m :: either.scan 0 before' more := by
  obtain ⟨taken, more, hne, hall, rfl, hreads⟩ := hmatching.reads_of_matchAt hm
  refine ⟨taken.reverse ++ before, more, ?_, scan_of_matchAt hne hm hreads,
    hpassing.scan_append (fun c hc => hdisjoint c (hall c hc)) before more,
    scan_of_matchAt hne heither hreads⟩
  rw [List.length_append]
  exact Nat.lt_add_of_pos_left (List.length_pos_of_ne_nil hne)

theorem length_scan_alt (hpreferred : preferred.Draws member) (hother : other.Draws member')
    (hdisjoint : ∀ c, member c = true → member' c = false) (before rest : Text) :
    ((Pattern.alt preferred other).scan 0 before rest).length =
      (preferred.scan 0 before rest).length + (other.scan 0 before rest).length := by
  have hdisjoint' : ∀ c, member' c = true → member c = false := by
    intro c hc
    cases hboth : member c with
    | false => rfl
    | true => exact hc.symm.trans (hdisjoint c hboth)
  induction hsize : rest.length using Nat.strong_induction_on generalizing before rest with
  | _ size ih =>
      subst hsize
      have heither := matchAt_alt preferred other ⟨before, rest⟩
      cases hfirst : preferred.matchAt ⟨before, rest⟩ with
      | some m =>
          rw [hfirst, Option.some_or] at heither
          obtain ⟨before', more, hmore, hpreferredScan, hotherScan, heitherScan⟩ :=
            exists_scans_of_matchAt hpreferred hother hdisjoint hfirst heither
          rw [hpreferredScan, hotherScan, heitherScan, List.length_cons, List.length_cons,
            ih _ hmore _ _ rfl, Nat.add_right_comm]
      | none =>
          rw [hfirst, Option.none_or] at heither
          cases hsecond : other.matchAt ⟨before, rest⟩ with
          | some m =>
              obtain ⟨before', more, hmore, hotherScan, hpreferredScan, heitherScan⟩ :=
                exists_scans_of_matchAt hother hpreferred hdisjoint' hsecond
                  (heither.trans hsecond)
              rw [hpreferredScan, hotherScan, heitherScan, List.length_cons, List.length_cons,
                ih _ hmore _ _ rfl, Nat.add_assoc]
          | none =>
              rw [hsecond] at heither
              cases rest with
              | nil => simp [scan, hfirst, hsecond, heither]
              | cons c rest =>
                  rw [scan, scan, scan, hfirst, hsecond, heither]
                  exact ih _ (Nat.lt_succ_self _) _ _ rfl

theorem draws_firstOf {patterns : List Pattern} (hdraws : ∀ p ∈ patterns, p.Draws member) :
    (firstOf patterns).Draws member := by
  induction patterns with
  | nil => exact (draws_one _).mono (by simp)
  | cons p patterns ih =>
      rw [List.forall_mem_cons] at hdraws
      cases patterns with
      | nil => exact hdraws.1
      | cons q patterns => exact hdraws.1.alt (ih hdraws.2)

/-- Alternatives with classes of their own are counted one by one. -/
theorem count_firstOf {parts : List (Pattern × (Char → Bool))}
    (hdraws : ∀ part ∈ parts, part.1.Draws part.2)
    (hdisjoint : parts.Pairwise fun x y => ∀ c, x.2 c = true → y.2 c = false) (t : Text) :
    (firstOf (parts.map Prod.fst)).count t = (parts.map fun part => part.1.count t).sum := by
  induction parts with
  | nil =>
      have hnothing := draws_one fun _ => false
      have hpassed := hnothing.scan_append (fun c (_ : c ∈ t) => rfl) [] []
      rw [List.append_nil, hnothing.scan_nil] at hpassed
      exact congrArg List.length hpassed
  | cons part parts ih =>
      rw [List.forall_mem_cons] at hdraws
      rw [List.pairwise_cons] at hdisjoint
      cases parts with
      | nil => simp [firstOf]
      | cons next parts =>
          have hothers : (firstOf ((next :: parts).map Prod.fst)).Draws fun c =>
              (next :: parts).any fun x => x.2 c := by
            refine draws_firstOf fun p hp => ?_
            obtain ⟨x, hx, rfl⟩ := List.mem_map.mp hp
            exact (hdraws.2 x hx).mono fun c hc => List.any_eq_true.mpr ⟨x, hx, hc⟩
          have happart : ∀ c, part.2 c = true → (next :: parts).any (fun x => x.2 c) = false := by
            intro c hc
            rw [List.any_eq_false]
            exact fun x hx => Bool.eq_false_iff.mp (hdisjoint.1 x hx c hc)
          calc
            (firstOf ((part :: next :: parts).map Prod.fst)).count t =
                part.1.count t + (firstOf ((next :: parts).map Prod.fst)).count t :=
              length_scan_alt hdraws.1 hothers happart [] t
            _ = ((part :: next :: parts).map fun part => part.1.count t).sum := by
              rw [ih hdraws.2 hdisjoint.2]
              rfl

/-! ## Runs -/

/-- Matches that lie in the runs of a class are counted run by run, when a whole run is worth the same
wherever it stands. -/
theorem count_eq_sum_runs {worth : Text → Nat} (hmember : ∀ c, member' c = true → member c = true)
    (hdraws : pattern.Draws member')
    (hrun : ∀ before run rest : Text, run ≠ [] → (∀ c ∈ run, member c = true) →
      (∀ c ∈ before.head?, member c = false) → (∀ c ∈ rest.head?, member c = false) →
      (pattern.scan 0 before (run ++ rest)).length =
        worth run + (pattern.scan 0 (run.reverse ++ before) rest).length)
    (t : Text) : pattern.count t = ((t.runs member).map worth).sum := by
  have hscan : ∀ before : Text,
      (∀ c ∈ before.head?, member c = false) ∨ (∀ c ∈ t.head?, member c = false) →
      (pattern.scan 0 before t).length = ((t.runs member).map worth).sum := by
    induction t using Text.runs_induction member with
    | nil =>
        intro before _
        rw [hdraws.scan_nil, Text.runs_nil]
        rfl
    | mark c rest hc ih =>
        intro before _
        have hpassed := (hdraws.mono hmember).scan_append
          (List.forall_mem_singleton.mpr hc) before rest
        rw [List.singleton_append] at hpassed
        rw [hpassed, Text.runs_cons_of_not hc]
        exact ih _ (Or.inl (by simpa using hc))
    | run run rest hne hall hrest ih =>
        intro before hapart
        have hbefore : ∀ c ∈ before.head?, member c = false := by
          obtain ⟨c, more, rfl⟩ := List.exists_cons_of_ne_nil hne
          refine hapart.resolve_right fun hstart => ?_
          have hc := hstart c rfl
          rw [hall c (List.mem_cons_self ..)] at hc
          cases hc
        rw [hrun before run rest hne hall hbefore hrest, ih _ (Or.inr hrest),
          Text.runs_append hne hall hrest, List.map_cons, List.sum_cons]
  exact hscan [] (Or.inl (by simp))

end RepoAudit.Pattern
