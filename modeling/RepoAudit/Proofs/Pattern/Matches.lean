import RepoAudit.Proofs.Pattern.Takes

/-!
# The matches of a pattern in a text

A match is a way to match, and its two cursors are places of the text that was searched.
-/

namespace RepoAudit.Pattern

variable {pattern : Pattern} {m : Match}

theorem matchAt_eq (pattern : Pattern) (c : Cursor) :
    pattern.matchAt c =
      (pattern.ways ⟨c, []⟩).head?.map fun q => ⟨c, q.cursor, q.groups⟩ := by
  rw [matchAt, advance_eq]
  cases pattern.ways ⟨c, []⟩ <;> rfl

theorem takes_of_matchAt {c : Cursor} (h : pattern.matchAt c = some m) :
    m.start = c ∧ pattern.Takes ⟨c, []⟩ ⟨m.stop, m.groups⟩ := by
  rw [matchAt_eq, Option.map_eq_some_iff] at h
  obtain ⟨q, hq, rfl⟩ := h
  exact ⟨rfl, mem_ways.mp (List.mem_of_head? hq)⟩

theorem isSome_matchAt {c : Cursor} :
    (pattern.matchAt c).isSome = true ↔ ∃ q, pattern.Takes ⟨c, []⟩ q := by
  rw [matchAt_eq, Option.isSome_map, List.isSome_head?]
  simp only [← mem_ways]
  exact ⟨List.exists_mem_of_ne_nil _, fun ⟨q, hq⟩ => List.ne_nil_of_mem hq⟩

theorem matchAt_eq_none_iff {c : Cursor} :
    pattern.matchAt c = none ↔ ∀ q, ¬ pattern.Takes ⟨c, []⟩ q := by
  rw [← Option.not_isSome_iff_eq_none, isSome_matchAt, not_exists]

theorem mem_scan {skip : Nat} {before rest : Text} (h : m ∈ pattern.scan skip before rest) :
    m.start.text = Cursor.text ⟨before, rest⟩ ∧ pattern.matchAt m.start = some m := by
  have hfound : ∀ {c : Cursor}, pattern.matchAt c = some m →
      m.start.text = c.text ∧ pattern.matchAt m.start = some m := by
    intro c hmatch
    rw [(takes_of_matchAt hmatch).1]
    exact ⟨rfl, hmatch⟩
  have hnext : ∀ {c : Char} {before rest : Text},
      Cursor.text ⟨c :: before, rest⟩ = Cursor.text ⟨before, c :: rest⟩ := by
    simp [Cursor.text]
  induction rest generalizing skip before with
  | nil =>
      cases skip with
      | zero => exact hfound (by simpa [scan] using h)
      | succ skip => simp [scan] at h
  | cons c rest ih =>
      cases skip with
      | succ skip => exact hnext ▸ ih h
      | zero =>
          rw [scan] at h
          split at h
          · next first hfirst =>
              rcases List.mem_cons.mp h with rfl | h
              · exact hfound hfirst
              · exact hnext ▸ ih h
          · exact hnext ▸ ih h

theorem head?_scan (before rest : Text) :
    (pattern.scan 0 before rest).head? = pattern.firstFrom before rest := by
  induction rest generalizing before with
  | nil =>
      rw [scan, firstFrom]
      cases pattern.matchAt ⟨before, []⟩ <;> rfl
  | cons c rest ih =>
      rw [scan, firstFrom]
      cases pattern.matchAt ⟨before, c :: rest⟩ with
      | none => exact ih (c :: before)
      | some m => rfl

theorem mem_findAll_of_first? {t : Text} (h : pattern.first? t = some m) :
    m ∈ pattern.findAll t := by
  rw [first?, ← head?_scan] at h
  exact List.mem_of_head? h

theorem count_pos_iff {t : Text} : 0 < pattern.count t ↔ pattern.occursIn t = true := by
  rw [count, occursIn, List.length_pos_iff, first?, ← head?_scan, findAll, List.isSome_head?]

/-- A match is read off the text, from its first cursor to its second. -/
theorem reads_of_mem_findAll {t : Text} (h : m ∈ pattern.findAll t) :
    m.start.text = t ∧ m.start.Reads m.text m.stop ∧ pattern.minSize ≤ m.text.length := by
  obtain ⟨htext, hmatch⟩ := mem_scan h
  obtain ⟨taken, hreads, hsize⟩ := (takes_of_matchAt hmatch).2.reads
  have htaken : m.text = taken := hreads.upTo
  rw [htaken]
  exact ⟨htext, hreads, hsize⟩

theorem admits_of_mem_findAll {t : Text} (h : m ∈ pattern.findAll t) : pattern.Admits m.text := by
  obtain ⟨taken, hreads, htaken⟩ := (takes_of_matchAt (mem_scan h).2).2.admits
  have heq : m.text = taken := hreads.upTo
  rw [heq]
  exact htaken

end RepoAudit.Pattern
