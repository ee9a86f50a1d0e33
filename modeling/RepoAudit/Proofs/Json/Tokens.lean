import RepoAudit.Json.Printer
import RepoAudit.Json.Reader
import RepoAudit.Proofs.Decimal.Unsigned
import Mathlib

/-!
# Strings and numbers read back

A quoted string is read up to its closing quotation mark and has the characters that were quoted.
The digits of a whole number are read as that number when no other part of a number follows them.
-/

namespace RepoAudit.Json

/-! ## Strings -/

theorem hexUnit_escaped : ∀ n < 32,
    hexUnit? '0' '0' (hexDigit (n / 16)) (hexDigit (n % 16)) = some n := by
  decide

theorem pieces_plain {c : Char} (hquote : c ≠ '"') (hslash : c ≠ '\\') (hcontrol : ¬ c.toNat < 32)
    (rest : Text) (offset : Nat) :
    pieces (c :: rest) offset =
      (.plain c (offset + 1) :: (pieces rest (offset + c.utf8Size)).1,
        (pieces rest (offset + c.utf8Size)).2) := by
  rw [pieces.eq_def]
  split <;> simp_all

theorem pieces_escape {c e : Char} (hc : c ≠ 'u') (he : escaped? c = some e) (rest : Text)
    (offset : Nat) :
    pieces ('\\' :: c :: rest) offset =
      (.plain e (offset + 2) :: (pieces rest (offset + 2)).1, (pieces rest (offset + 2)).2) := by
  simp [pieces, hc, he]

theorem pieces_unit {a b c d : Char} {n : Nat} (hn : hexUnit? a b c d = some n) (rest : Text)
    (offset : Nat) :
    pieces ('\\' :: 'u' :: a :: b :: c :: d :: rest) offset =
      (.unit n (offset + 6) :: (pieces rest (offset + 6)).1, (pieces rest (offset + 6)).2) := by
  rw [pieces.eq_def]
  simp [hn]

theorem decodePieces_small {n : Nat} (hn : n < 32) (offset close : Nat) (more : List Piece) :
    decodePieces close (.unit n offset :: more) =
      (decodePieces close more).map (Char.ofNat n :: ·) := by
  have hneither : ∀ n < 32, isLow n = false ∧ isHigh n = false := by decide
  obtain ⟨hlow, hhigh⟩ := hneither n hn
  rw [decodePieces.eq_def]
  simp [hlow, hhigh]

/-- The text is read as one piece of a string, which stands for the character. -/
def WritesChar (t : Text) (c : Char) : Prop :=
  ∀ (rest : Text) (offset : Nat), ∃ piece stop,
    pieces (t ++ rest) offset = (piece :: (pieces rest stop).1, (pieces rest stop).2) ∧
      ∀ close more, decodePieces close (piece :: more) = (decodePieces close more).map (c :: ·)

theorem writesChar_escaped {letter c : Char} (hletter : letter ≠ 'u')
    (hc : escaped? letter = some c) : WritesChar ['\\', letter] c :=
  fun rest offset => ⟨_, _, pieces_escape hletter hc rest offset, fun _ _ => rfl⟩

theorem writesChar_escapeChar (c : Char) : WritesChar (escapeChar c) c := by
  by_cases hquote : c = '"'
  · rw [hquote]
    exact writesChar_escaped (by decide) rfl
  by_cases hslash : c = '\\'
  · rw [hslash]
    exact writesChar_escaped (by decide) rfl
  by_cases hline : c = '\n'
  · rw [hline]
    exact writesChar_escaped (by decide) rfl
  by_cases hreturn : c = '\r'
  · rw [hreturn]
    exact writesChar_escaped (by decide) rfl
  by_cases htab : c = '\t'
  · rw [htab]
    exact writesChar_escaped (by decide) rfl
  by_cases hback : c = Char.ofNat 8
  · rw [hback]
    exact writesChar_escaped (by decide) rfl
  by_cases hfeed : c = Char.ofNat 12
  · rw [hfeed]
    exact writesChar_escaped (by decide) rfl
  have hcode : ∀ n, c ≠ Char.ofNat n → c.toNat ≠ n := by
    rintro n hne rfl
    exact hne (Char.ofNat_toNat c).symm
  have hother : escapeChar c = if c.toNat < 32 then
      ['\\', 'u', '0', '0', hexDigit (c.toNat / 16), hexDigit (c.toNat % 16)] else [c] := by
    simp [escapeChar, hquote, hslash, hline, hreturn, htab, hcode 8 hback, hcode 12 hfeed]
  rw [hother]
  intro rest offset
  split
  next hsmall =>
    refine ⟨_, _, pieces_unit (hexUnit_escaped _ hsmall) rest offset, fun close more => ?_⟩
    rw [decodePieces_small hsmall, Char.ofNat_toNat]
  next hlarge => exact ⟨_, _, pieces_plain hquote hslash hlarge rest offset, fun _ _ => rfl⟩

theorem pieces_quoted (t rest : Text) (offset : Nat) :
    ∃ parts stop, pieces (t.flatMap escapeChar ++ '"' :: rest) offset =
        (parts, .ok ⟨rest, stop⟩) ∧ ∀ close, decodePieces close parts = .ok t := by
  induction t generalizing offset with
  | nil => exact ⟨[], offset + 1, by simp [pieces], fun _ => rfl⟩
  | cons c t ih =>
      obtain ⟨piece, stop, hpieces, hdecode⟩ :=
        writesChar_escapeChar c (t.flatMap escapeChar ++ '"' :: rest) offset
      obtain ⟨parts, stop', hrest, hparts⟩ := ih stop
      refine ⟨piece :: parts, stop', ?_, fun close => ?_⟩
      · rw [List.flatMap_cons, List.append_assoc, hpieces, hrest]
      · rw [hdecode, hparts]
        rfl

theorem toList_quote (s : String) :
    (quote s).toList = '"' :: (s.toList.flatMap escapeChar ++ ['"']) := by
  simp [quote]

/-- A quoted string is read back, up to what stands after it. -/
theorem readString_quote (s : String) (rest : Text) (offset : Nat) :
    ∃ stop, readString ⟨s.toList.flatMap escapeChar ++ '"' :: rest, offset⟩ =
      .ok (.ok s, ⟨rest, stop⟩) := by
  obtain ⟨parts, stop, hpieces, hparts⟩ := pieces_quoted s.toList rest offset
  refine ⟨stop, ?_⟩
  rw [readString, hpieces]
  simp [hparts, Except.map]

/-! ## Whole numbers -/

/-- No part of a number stands here. -/
def Ends (t : Text) : Prop :=
  ∀ c ∈ t.head?, c.isDigit = false ∧ c ≠ '.' ∧ c ≠ 'e' ∧ c ≠ 'E'

theorem head?_toDigits {n : Nat} (hn : 0 < n) : (Nat.toDigits 10 n).head? ≠ some '0' := by
  induction n using Nat.strong_induction_on with
  | _ n ih =>
      rw [Nat.toDigits_eq_if (by norm_num)]
      split
      next => simpa using hn.ne'
      next hlarge =>
        rw [List.head?_append_of_ne_nil _ Nat.toDigits_ne_nil]
        exact ih (n / 10) (by omega) (by omega)

theorem digitsValue_toDigits (n : Nat) : Decimal.digitsValue 0 (Nat.toDigits 10 n) = n := by
  have hvalue := Nat.ofDigitChars_ten_toDigits (n := n)
  rw [Nat.ofDigitChars_eq_foldl] at hvalue
  rw [Decimal.digitsValue]
  simpa [Nat.mul_comm] using hvalue

theorem fitting_eq {digits : Text} {value : Nat}
    (h : Decimal.digitsValue value digits < UInt64.size) :
    fitting value digits = (Decimal.digitsValue value digits, []) := by
  induction digits generalizing value with
  | nil => rfl
  | cons c digits ih =>
      have hnext : value * 10 + digitValue c < UInt64.size :=
        (Decimal.le_digitsValue _ digits).trans_lt h
      rw [fitting]
      simp only [hnext, if_true]
      exact ih h

theorem takeWhile_digits {digits rest : Text} (hdigits : ∀ c ∈ digits, c.isDigit = true)
    (hrest : Ends rest) : (digits ++ rest).takeWhile Char.isDigit = digits := by
  rw [List.takeWhile_append_of_pos hdigits]
  cases rest with
  | nil => simp
  | cons c rest => simp [(hrest c rfl).1]

/-- Only a single digit may be a leading zero. -/
theorem toDigits_ne_zero_cons (n : Nat) (c : Char) (more : Text) :
    Nat.toDigits 10 n ≠ '0' :: c :: more := by
  intro h
  rcases Nat.eq_zero_or_pos n with rfl | hn
  · simp at h
  · exact head?_toDigits hn (by rw [h]; rfl)

/-- The digits of a number of 64 bits are read as the number. -/
theorem readNumber_toDigits {n : Nat} {rest : Text} (hn : n < UInt64.size) (hrest : Ends rest)
    (negative : Bool) (offset : Nat) (hnegative : negative = true → 0 < n ∧ n ≤ UInt64.size / 2) :
    ∃ stop, readNumber negative ⟨Nat.toDigits 10 n ++ rest, offset⟩ =
      (.int (if negative then -n else n) stop, .ok ⟨rest, stop⟩) := by
  have hdigits : (Nat.toDigits 10 n ++ rest).takeWhile Char.isDigit = Nat.toDigits 10 n :=
    takeWhile_digits (fun c hc => Nat.isDigit_of_mem_toDigits (by decide) (by decide) hc) hrest
  have hfitting : fitting 0 (Nat.toDigits 10 n) = (n, []) := by
    rw [fitting_eq (by rwa [digitsValue_toDigits]), digitsValue_toDigits]
  refine ⟨offset + (Nat.toDigits 10 n).length, ?_⟩
  simp only [readNumber, hdigits, List.drop_left]
  split
  next hnil => exact absurd hnil Nat.toDigits_ne_nil
  next c more hzero => exact absurd hzero (toDigits_ne_zero_cons n c more)
  next =>
    have hint : (if !negative then Node.int n (offset + (Nat.toDigits 10 n).length)
        else if 0 < n && n ≤ UInt64.size / 2 then
          .int (-n) (offset + (Nat.toDigits 10 n).length)
        else .float (.ok (-n.toUInt64.toFloat)) (offset + (Nat.toDigits 10 n).length)) =
          .int (if negative then -n else n) (offset + (Nat.toDigits 10 n).length) := by
      cases negative with
      | false => rfl
      | true => simp [hnegative rfl]
    cases rest with
    | nil => simpa [hfitting] using hint
    | cons c rest =>
        obtain ⟨-, hpoint, hsmall, hlarge⟩ := hrest c rfl
        simpa [hfitting, hpoint, hsmall, hlarge] using hint

end RepoAudit.Json
