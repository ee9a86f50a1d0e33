import RepoAudit.Proofs.Text.LetterCase
import RepoAudit.Proofs.Text.Lines
import RepoAudit.Proofs.Text.Search

/-!
# Byte offsets

A place in a text can be given by the number of UTF-8 bytes before it.  A slice between two offsets
exists only where both of them are within the text and between two of its characters.
-/

namespace RepoAudit.Text

variable {t lead middle rest : Text}

/-! ## Sizes -/

@[simp] theorem byteSize_nil : byteSize [] = 0 := rfl

@[simp] theorem byteSize_cons (c : Char) (t : Text) :
    byteSize (c :: t) = c.utf8Size + byteSize t := rfl

@[simp] theorem byteSize_append (s t : Text) : byteSize (s ++ t) = byteSize s + byteSize t := by
  induction s with
  | nil => simp
  | cons c s ih => simp [ih, Nat.add_assoc]

/-! ## Slices -/

/-- The two parts of the text around a byte offset. -/
def cutAtByte? : Text → Nat → Option (Text × Text)
  | t, 0 => some ([], t)
  | [], _ + 1 => none
  | c :: t, offset + 1 =>
      if c.utf8Size ≤ offset + 1 then
        (cutAtByte? t (offset + 1 - c.utf8Size)).map fun (before, after) => (c :: before, after)
      else none

def sliceFrom? (t : Text) (start : Nat) : Option Text :=
  (cutAtByte? t start).map Prod.snd

def slice? (t : Text) (start stop : Nat) : Option Text :=
  if start ≤ stop then
    (cutAtByte? t stop).bind fun (before, _) => sliceFrom? before start
  else none

/-- The offset of the first occurrence. -/
def findByte? (t needle : Text) : Option Nat :=
  (cutAt? needle t).map fun (before, _) => byteSize before

/-- The mark is found where it first stands, or it does not stand in the text. -/
theorem findByte?_singleton (mark : Char) (t : Text) :
    t = t.before mark ∧ findByte? t [mark] = none ∨
      ∃ more, t = t.before mark ++ mark :: more ∧
        findByte? t [mark] = some (byteSize (t.before mark)) := by
  have hpasses : ∀ more : Text, Passes [mark] (t.before mark) more :=
    fun more => .of_not_mem (not_mem_before mark t)
  rcases eq_before_or mark t with hwhole | ⟨more, hcut⟩
  · left
    have hnone := (hpasses []).cutAt?_append
    rw [List.append_nil, ← hwhole, cutAt?_nil (List.cons_ne_nil _ _)] at hnone
    rw [findByte?, hnone]
    exact ⟨hwhole, rfl⟩
  · right
    have hmark : cutAt? [mark] (mark :: more) = some ([], more) := cutAt?_mark_append [mark] more
    have hsome := (hpasses (mark :: more)).cutAt?_append
    rw [← hcut, hmark] at hsome
    refine ⟨more, hcut, ?_⟩
    rw [findByte?, hsome]
    simp

theorem cutAtByte?_append (lead rest : Text) :
    cutAtByte? (lead ++ rest) (byteSize lead) = some (lead, rest) := by
  induction lead with
  | nil => cases rest <;> rfl
  | cons c lead ih =>
      have hsize := c.utf8Size_pos
      obtain ⟨offset, hoffset⟩ : ∃ offset, c.utf8Size + byteSize lead = offset + 1 :=
        Nat.exists_eq_add_one.mpr (by omega)
      have hfits : c.utf8Size ≤ offset + 1 := by omega
      have hrest : offset + 1 - c.utf8Size = byteSize lead := by omega
      rw [byteSize_cons, List.cons_append, hoffset, cutAtByte?, if_pos hfits, hrest, ih]
      rfl

theorem sliceFrom?_append (lead rest : Text) :
    sliceFrom? (lead ++ rest) (byteSize lead) = some rest := by
  rw [sliceFrom?, cutAtByte?_append]
  rfl

theorem slice?_append (lead middle rest : Text) :
    slice? (lead ++ (middle ++ rest)) (byteSize lead) (byteSize lead + byteSize middle) =
      some middle := by
  rw [slice?, if_pos (Nat.le_add_right _ _), ← byteSize_append, ← List.append_assoc,
    cutAtByte?_append]
  exact sliceFrom?_append lead middle

/-! ## Lines -/

def bytes (t : Text) : List UInt8 :=
  t.flatMap String.utf8EncodeChar

theorem bytes_append (s t : Text) : bytes (s ++ t) = bytes s ++ bytes t :=
  List.flatMap_append

theorem length_bytes (t : Text) : (bytes t).length = byteSize t := by
  induction t with
  | nil => rfl
  | cons c t ih =>
      rw [bytes, List.flatMap_cons, List.length_append, String.length_utf8EncodeChar, byteSize_cons,
        ← ih]
      rfl

/-- No byte of a character is a line feed, unless the character is one. -/
theorem count_utf8EncodeChar (c : Char) :
    (String.utf8EncodeChar c).count 10 = if c = '\n' then 1 else 0 := by
  have hfeed : c = '\n' ↔ c.val.toNat = 10 := by
    rw [← Char.toNat_inj]
    rfl
  have hbyte : ∀ n < 256, (UInt8.ofNat n == 10) = decide (n = 10) := by
    intro n hn
    rw [Bool.eq_iff_iff, beq_iff_eq, decide_eq_true_eq, ← UInt8.toNat_inj, UInt8.toNat_ofNat',
      Nat.mod_eq_of_lt hn]
    rfl
  unfold String.utf8EncodeChar
  simp only [hfeed]
  split_ifs <;>
    simp (disch := omega) only [List.count_cons, List.count_nil, hbyte, decide_eq_true_eq] <;>
    split_ifs <;> omega

theorem count_bytes (t : Text) : (bytes t).count 10 = t.count '\n' := by
  induction t with
  | nil => rfl
  | cons c t ih =>
      rw [bytes, List.flatMap_cons, List.count_append, count_utf8EncodeChar, List.count_cons]
      change _ + (bytes t).count 10 = _
      rw [ih, Nat.add_comm]
      simp only [beq_iff_eq]

/-- The number of the line at a byte offset, counted from one. -/
def lineAtByte? (t : Text) (offset : Nat) : Option Nat :=
  let stop := min offset (byteSize t)
  if stop ≤ (bytes t).length then some (((bytes t).take stop).count 10 + 1) else none

theorem lineAtByte?_append (lead rest : Text) :
    lineAtByte? (lead ++ rest) (byteSize lead) = some (lead.count '\n' + 1) := by
  have hstop : min (byteSize lead) (byteSize (lead ++ rest)) = (bytes lead).length := by
    rw [byteSize_append, length_bytes]
    omega
  have hwithin : (bytes lead).length ≤ (bytes (lead ++ rest)).length := by
    simp [bytes_append]
  rw [lineAtByte?, hstop]
  rw [if_pos hwithin, bytes_append, List.take_left, count_bytes]

/-- What stands before a place are lines and the beginning of one more. -/
theorem exists_unlines_append (t : Text) :
    ∃ (above : List Text) (lead : Text), (∀ line ∈ above, '\n' ∉ line) ∧ '\n' ∉ lead ∧
      t = unlines above ++ lead := by
  have hpieces : ∀ piece ∈ t.splitBy (· == '\n'), '\n' ∉ piece := by
    intro piece hpiece hmem
    simpa using cut_eq_false_of_mem_splitBy hpiece _ hmem
  obtain ⟨above, lead, hsplit⟩ :=
    (List.eq_nil_or_concat' (t.splitBy (· == '\n'))).resolve_left (splitBy_ne_nil _ t)
  rw [hsplit, List.forall_mem_append, List.forall_mem_singleton] at hpieces
  refine ⟨above, lead, hpieces.1, hpieces.2, ?_⟩
  have hjoined := unlines_splitBy t
  rw [hsplit] at hjoined
  have hlast : unlines (above ++ [lead]) = unlines above ++ lead ++ ['\n'] := by
    simp [unlines]
  exact (List.append_cancel_right (hlast.symm.trans hjoined)).symm

/-! ## Lines that are cut -/

/-- What follows the text begins a line. -/
def endsLine (t : Text) : Bool :=
  t.getLast?.all (· == '\n')

theorem endsLine_unlines_append {above : List Text} (hlead : '\n' ∉ lead) :
    endsLine (unlines above ++ lead) = lead.isEmpty := by
  rcases List.eq_nil_or_concat' lead with rfl | ⟨init, c, rfl⟩
  · rcases List.eq_nil_or_concat' above with rfl | ⟨init, line, rfl⟩
    · rfl
    · simp [endsLine, unlines]
  · have hc : (c == '\n') = false := beq_eq_false_iff_ne.mpr fun h => hlead (by simp [h])
    have hne : (init ++ [c]).isEmpty = false := by simp
    rw [hne, endsLine, ← List.append_assoc, List.getLast?_concat, Option.all_some, hc]

theorem length_lines_unended_append (hlead : '\n' ∉ lead) (hne : rest ≠ []) :
    (lead ++ rest).lines.length = rest.lines.length := by
  have hline : '\n' ∉ rest.before '\n' := not_mem_before '\n' rest
  have hwhole : '\n' ∉ lead ++ rest.before '\n' := by simp [hlead, hline]
  rcases eq_before_or '\n' rest with hlast | ⟨more, hcut⟩
  · rw [← hlast] at hline hwhole
    rw [lines_of_not_mem hwhole (by simp [hne]), lines_of_not_mem hline hne]
    rfl
  · rw [hcut, ← List.append_assoc, lines_append_lineFeed hwhole, lines_append_lineFeed hline]
    rfl

/-- A line that is cut counts in both parts. -/
theorem length_lines_append (t : Text) (hne : rest ≠ []) :
    t.lines.length + rest.lines.length =
      (t ++ rest).lines.length + if endsLine t then 0 else 1 := by
  obtain ⟨above, lead, habove, hlead, rfl⟩ := exists_unlines_append t
  rw [endsLine_unlines_append hlead, List.append_assoc, lines_unlines_append habove,
    lines_unlines_append habove, List.length_append, List.length_append]
  by_cases hempty : lead = []
  · simp [hempty]
  · rw [length_lines_unended_append hlead hne, lines_of_not_mem hlead hempty]
    simp [hempty]
    omega

/-! ## The line on which something begins -/

/-- Behind `before`, the text `rest` begins on the line with that number: so many lines are ended
before it, and a first part of it stands on the next one. -/
def BeginsOn (before rest : Text) (number : Nat) : Prop :=
  ∃ (above : List Text) (lead tail : Text), (∀ line ∈ above, '\n' ∉ line) ∧
    before = unlines above ++ lead ∧ tail ≠ [] ∧ tail <+: rest ∧
    (before ++ rest).lines[above.length]? = some (lead ++ tail) ∧ number = above.length + 1

theorem BeginsOn.pos {before : Text} {number : Nat} (h : BeginsOn before rest number) :
    1 ≤ number := by
  obtain ⟨above, lead, tail, -, -, -, -, -, rfl⟩ := h
  exact Nat.le_add_left 1 above.length

theorem BeginsOn.le {before : Text} {number : Nat} (h : BeginsOn before rest number) :
    number ≤ (before ++ rest).lines.length := by
  obtain ⟨above, lead, tail, -, -, -, -, hline, rfl⟩ := h
  exact (List.getElem?_eq_some_iff.mp hline).1

/-- The line of a character holds it, unless the character ends the line. -/
theorem exists_head?_lines_append {lead : Text} {c : Char} (hlead : '\n' ∉ lead) (hfeed : c ≠ '\n')
    (hreturn : c ≠ '\r') (rest : Text) :
    ∃ tail : Text, tail ≠ [] ∧ tail <+: c :: rest ∧
      (lead ++ c :: rest).lines.head? = some (lead ++ tail) := by
  have hline : '\n' ∉ rest.before '\n' := not_mem_before '\n' rest
  have hwhole : '\n' ∉ lead ++ c :: rest.before '\n' := by
    simp [hlead, hline, Ne.symm hfeed]
  have hne : c :: rest.before '\n' ≠ [] := List.cons_ne_nil _ _
  rcases eq_before_or '\n' rest with hlast | ⟨more, hcut⟩
  · refine ⟨c :: rest, List.cons_ne_nil c rest, List.prefix_rfl, ?_⟩
    rw [← hlast] at hwhole
    rw [lines_of_not_mem hwhole (by simp)]
    rfl
  · have hprefix : c :: rest.before '\n' <+: c :: rest := by
      conv_rhs => rw [hcut]
      exact List.prefix_append (c :: rest.before '\n') _
    have hlines : (lead ++ c :: rest).lines.head? =
        some (lead ++ dropReturn (c :: rest.before '\n')) := by
      conv_lhs => rw [hcut, ← List.cons_append, ← List.append_assoc, lines_append_lineFeed hwhole]
      rw [dropReturn_append lead hne]
      rfl
    rcases dropReturn_eq_or (c :: rest.before '\n') with hsame | hends
    · rw [hsame] at hlines
      exact ⟨c :: rest.before '\n', hne, hprefix, hlines⟩
    · refine ⟨dropReturn (c :: rest.before '\n'), fun hnil => ?_, ?_, hlines⟩
      · rw [hnil, List.nil_append, List.cons.injEq] at hends
        exact hreturn hends.1
      · exact (hends ▸ List.prefix_append _ ['\r']).trans hprefix

theorem beginsOn_count {before rest : Text} {c : Char} (hhead : rest.head? = some c)
    (hfeed : c ≠ '\n') (hreturn : c ≠ '\r') : BeginsOn before rest (before.count '\n' + 1) := by
  obtain ⟨above, lead, habove, hlead, rfl⟩ := exists_unlines_append before
  obtain ⟨rest, rfl⟩ := List.head?_eq_some_iff.mp hhead
  obtain ⟨tail, hne, htail, hline⟩ := exists_head?_lines_append hlead hfeed hreturn rest
  refine ⟨above, lead, tail, habove, rfl, hne, htail, ?_, ?_⟩
  · rw [List.append_assoc, lines_unlines_append habove,
      List.getElem?_append_right (by simp), List.length_map, Nat.sub_self, ← List.head?_eq_getElem?,
      hline]
  · rw [List.count_append, count_unlines habove, List.count_eq_zero.mpr hlead, Nat.add_zero]

/-! ## The small letters -/

theorem utf8Size_toLower (c : Char) : c.toLower.utf8Size = c.utf8Size := by
  have hsize : ∀ d : Char, d.utf8Size =
      if d.toNat ≤ 127 then 1 else if d.toNat ≤ 2047 then 2 else if d.toNat ≤ 65535 then 3 else 4 := by
    intro d
    rw [Char.utf8Size]
    simp only [UInt32.le_iff_toNat_le]
    rfl
  rw [hsize, hsize, toNat_toLower]
  split_ifs <;> omega

theorem toLower_eq_lineFeed_iff {c : Char} : c.toLower = '\n' ↔ c = '\n' := by
  rw [← Char.toNat_inj, ← Char.toNat_inj, toNat_toLower]
  change _ = 10 ↔ _ = 10
  split_ifs <;> omega

theorem byteSize_lower (t : Text) : byteSize t.lower = byteSize t := by
  induction t with
  | nil => rfl
  | cons c t ih =>
      rw [lower, List.map_cons, byteSize_cons, byteSize_cons, utf8Size_toLower]
      exact congrArg (c.utf8Size + ·) ih

theorem count_lower (t : Text) : t.lower.count '\n' = t.count '\n' := by
  induction t with
  | nil => rfl
  | cons c t ih =>
      rw [lower, List.map_cons, List.count_cons, List.count_cons]
      simp only [beq_iff_eq, toLower_eq_lineFeed_iff]
      exact congrArg (· + if c = '\n' then 1 else 0) ih

end RepoAudit.Text
