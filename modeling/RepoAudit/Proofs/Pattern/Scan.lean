import RepoAudit.Proofs.Pattern.Matches

/-!
# Scanning a text for matches

What a scan finds is read off the text piece by piece: characters at which nothing matches are
passed, a match is found where it begins, and the scan goes on behind it.
-/

namespace RepoAudit

/-- The first cursor stands before the second one in the same text. -/
structure Cursor.Precedes (c d : Cursor) : Prop where
  lead : c.before <:+ d.before
  lt : c.before.length < d.before.length

theorem Cursor.Precedes.line_le {c d : Cursor} (h : c.Precedes d) : c.line ≤ d.line :=
  Nat.succ_le_succ (h.lead.sublist.count_le '\n')

theorem Cursor.Reads.unique {c d e : Cursor} {taken : Text} (hd : c.Reads taken d)
    (he : c.Reads taken e) : d = e := by
  obtain ⟨before, rest⟩ := d
  obtain ⟨before', rest'⟩ := e
  have hrest : rest = rest' := List.append_cancel_left (hd.rest.symm.trans he.rest)
  have hbefore : before = before' := hd.before.trans he.before.symm
  rw [hrest, hbefore]

namespace Pattern

variable {pattern : Pattern} {m : Match} {before taken rest : Text}

theorem matchAt_of_takes {c : Cursor} {q : Progress} (htakes : pattern.Takes ⟨c, []⟩ q)
    (hunique : ∀ r, pattern.Takes ⟨c, []⟩ r → r = q) :
    pattern.matchAt c = some ⟨c, q.cursor, q.groups⟩ := by
  obtain ⟨m, hm⟩ := Option.isSome_iff_exists.mp (isSome_matchAt.mpr ⟨q, htakes⟩)
  obtain ⟨hstart, hmatch⟩ := takes_of_matchAt hm
  obtain rfl := hunique _ hmatch
  rw [hm, ← hstart]

theorem scan_skip (pattern : Pattern) (taken before rest : Text) :
    pattern.scan taken.length before (taken ++ rest) =
      pattern.scan 0 (taken.reverse ++ before) rest := by
  induction taken generalizing before with
  | nil => rfl
  | cons c taken ih =>
      rw [List.length_cons, List.cons_append, scan, ih, List.reverse_cons, List.append_assoc]
      rfl

theorem scan_of_matchAt (hne : taken ≠ [])
    (hmatch : pattern.matchAt ⟨before, taken ++ rest⟩ = some m)
    (hreads : Cursor.Reads ⟨before, taken ++ rest⟩ taken m.stop) :
    pattern.scan 0 before (taken ++ rest) =
      m :: pattern.scan 0 (taken.reverse ++ before) rest := by
  obtain ⟨c, more, rfl⟩ := List.exists_cons_of_ne_nil hne
  have hsize : m.size - 1 = more.length := by
    have hrest := congrArg List.length hreads.rest
    rw [Match.size, (takes_of_matchAt hmatch).1]
    simp only [List.length_append, List.length_cons] at hrest ⊢
    omega
  rw [List.cons_append] at hmatch ⊢
  rw [scan, hmatch]
  simp only [hsize]
  rw [scan_skip, List.reverse_cons, List.append_assoc]
  rfl

theorem length_scan_of_takes (hne : taken ≠ [])
    (htakes : ∀ q, pattern.Takes ⟨⟨before, taken ++ rest⟩, []⟩ q ↔
      Cursor.Reads ⟨before, taken ++ rest⟩ taken q.cursor ∧ q.groups = []) :
    (pattern.scan 0 before (taken ++ rest)).length =
      (pattern.scan 0 (taken.reverse ++ before) rest).length + 1 := by
  have hreads : Cursor.Reads ⟨before, taken ++ rest⟩ taken ⟨taken.reverse ++ before, rest⟩ :=
    ⟨rfl, rfl⟩
  have hunique : ∀ r, pattern.Takes ⟨⟨before, taken ++ rest⟩, []⟩ r →
      r = ⟨⟨taken.reverse ++ before, rest⟩, []⟩ := by
    rintro ⟨c, groups⟩ hr
    obtain ⟨hc, rfl⟩ := (htakes _).mp hr
    obtain rfl := hc.unique hreads
    rfl
  have hmatch := matchAt_of_takes ((htakes ⟨⟨_, _⟩, _⟩).mpr ⟨hreads, rfl⟩) hunique
  rw [scan_of_matchAt hne hmatch hreads, List.length_cons]

theorem scan_of_not_takes {c : Char}
    (hnone : ∀ q, ¬ pattern.Takes ⟨⟨before, c :: rest⟩, []⟩ q) :
    pattern.scan 0 before (c :: rest) = pattern.scan 0 (c :: before) rest := by
  rw [scan, matchAt_eq_none_iff.mpr hnone]

theorem scan_of_passed (hpassed : ∀ c ∈ taken, ∀ before rest : Text,
    pattern.matchAt ⟨before, c :: rest⟩ = none) :
    pattern.scan 0 before (taken ++ rest) = pattern.scan 0 (taken.reverse ++ before) rest := by
  induction taken generalizing before with
  | nil => rfl
  | cons c taken ih =>
      rw [List.forall_mem_cons] at hpassed
      rw [List.cons_append, scan, hpassed.1]
      simp only
      rw [ih hpassed.2, List.reverse_cons, List.append_assoc]
      rfl

theorem matchAt_of_short (hshort : rest.length < pattern.minSize) :
    pattern.matchAt ⟨before, rest⟩ = none := by
  rw [matchAt_eq_none_iff]
  intro q htakes
  obtain ⟨taken, hreads, htaken⟩ := htakes.reads
  have hlength := congrArg List.length hreads.rest
  simp only [List.length_append] at hlength
  omega

theorem scan_of_short (hshort : rest.length < pattern.minSize) : pattern.scan 0 before rest = [] := by
  induction rest generalizing before with
  | nil =>
      rw [scan, matchAt_of_short hshort]
      rfl
  | cons c rest ih =>
      rw [scan, matchAt_of_short hshort]
      exact ih ((Nat.lt_succ_self _).trans hshort)

theorem suffix_of_mem_scan {skip : Nat} (h : m ∈ pattern.scan skip before rest) :
    before <:+ m.start.before := by
  induction rest generalizing skip before with
  | nil =>
      cases skip with
      | zero =>
          rw [scan, Option.mem_toList] at h
          rw [(takes_of_matchAt h).1]
      | succ skip => simp [scan] at h
  | cons c rest ih =>
      cases skip with
      | succ skip => exact (List.suffix_cons c before).trans (ih h)
      | zero =>
          rw [scan] at h
          split at h
          · next first hfirst =>
              rcases List.mem_cons.mp h with rfl | h
              · rw [(takes_of_matchAt hfirst).1]
              · exact (List.suffix_cons c before).trans (ih h)
          · exact (List.suffix_cons c before).trans (ih h)

/-- A scan finds one match after the other. -/
theorem pairwise_scan (pattern : Pattern) (skip : Nat) (before rest : Text) :
    (pattern.scan skip before rest).Pairwise fun m n => m.start.Precedes n.start := by
  induction rest generalizing skip before with
  | nil =>
      cases skip with
      | zero =>
          rw [scan]
          cases pattern.matchAt ⟨before, []⟩ <;> simp
      | succ skip => exact List.Pairwise.nil
  | cons c rest ih =>
      cases skip with
      | succ skip => exact ih skip (c :: before)
      | zero =>
          rw [scan]
          split
          · next first hfirst =>
              refine List.pairwise_cons.mpr ⟨fun m hm => ?_, ih _ _⟩
              have hlater := suffix_of_mem_scan hm
              rw [(takes_of_matchAt hfirst).1]
              exact ⟨(List.suffix_cons c before).trans hlater, hlater.length_le⟩
          · exact ih 0 (c :: before)

end Pattern
end RepoAudit
