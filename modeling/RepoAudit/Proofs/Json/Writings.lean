import RepoAudit.Json.Printer
import RepoAudit.Json.Reader
import Mathlib

/-!
# Writings of a value

A writing of a value has its names, numbers and strings in one form, and between them blanks as it
likes.  Both printed forms are writings.  A floating point number has none here.
-/

namespace RepoAudit.Json

/-- What holds of a value when it holds of its parts, holds of every value. -/
@[elab_as_elim]
theorem parts_induction {motive : Json → Prop} (null : motive .null)
    (bool : ∀ b, motive (.bool b)) (int : ∀ n, motive (.int n)) (float : ∀ f, motive (.float f))
    (str : ∀ s, motive (.str s))
    (arr : ∀ items, (∀ item ∈ items, motive item) → motive (.arr items))
    (obj : ∀ members, (∀ member ∈ members, motive member.2) → motive (.obj members)) (j : Json) :
    motive j := by
  match j with
  | .null => exact null
  | .bool b => exact bool b
  | .int n => exact int n
  | .float f => exact float f
  | .str s => exact str s
  | .arr items =>
      refine arr items fun item hitem => ?_
      exact parts_induction null bool int float str arr obj item
  | .obj members =>
      refine obj members fun member hmember => ?_
      exact parts_induction null bool int float str arr obj member.2
termination_by sizeOf j
decreasing_by
  · have hsize := List.sizeOf_lt_of_mem hitem
    rw [Json.arr.sizeOf_spec]
    omega
  · have hsize := List.sizeOf_lt_of_mem hmember
    have hvalue : sizeOf member.2 < sizeOf member := by
      obtain ⟨name, value⟩ := member
      simp only [Prod.mk.sizeOf_spec]
      omega
    rw [Json.obj.sizeOf_spec]
    omega

/-- Nothing but blanks. -/
def Gap (t : Text) : Prop :=
  ∀ c ∈ t, Rest.isJsonBlank c = true

/-- What stands before a piece: blanks, and before any but the first a comma among them. -/
def Separates (first : Bool) (t : Text) : Prop :=
  if first then Gap t else ∃ gap gap', Gap gap ∧ Gap gap' ∧ t = gap ++ ',' :: gap'

/-- The rest of a list of pieces, with its closing bracket. -/
def PiecesWriting (bracket : Char) : (first : Bool) → List (Text → Prop) → Text → Prop
  | _, [], t => ∃ gap, Gap gap ∧ t = gap ++ [bracket]
  | first, writes :: pieces, t => ∃ lead body rest, t = lead ++ body ++ rest ∧
      Separates first lead ∧ writes body ∧ PiecesWriting bracket false pieces rest

/-- A name, a colon and a value. -/
def MemberWriting (name : String) (writes : Text → Prop) (t : Text) : Prop :=
  ∃ gap body, t = (quote name).toList ++ ':' :: (gap ++ body) ∧ Gap gap ∧ writes body

mutual

def Writing : Json → Text → Prop
  | .null, t => t = "null".toList
  | .bool b, t => t = (if b then "true" else "false").toList
  | .int n, t => t = (toString n).toList
  | .float _, _ => False
  | .str s, t => t = (quote s).toList
  | .arr items, t => ∃ body, t = '[' :: body ∧ PiecesWriting ']' true (itemWritings items) body
  | .obj members, t => ∃ body, t = '\x7b' :: body ∧
      PiecesWriting '\x7d' true (memberWritings members) body

def itemWritings : List Json → List (Text → Prop)
  | [] => []
  | item :: items => Writing item :: itemWritings items

def memberWritings : List (String × Json) → List (Text → Prop)
  | [] => []
  | (name, value) :: members => MemberWriting name (Writing value) :: memberWritings members

end

variable {gap gap' lead t : Text} {bracket : Char}

@[simp] theorem gap_nil : Gap [] := by
  simp [Gap]

theorem Gap.append (h : Gap gap) (h' : Gap gap') : Gap (gap ++ gap') := by
  intro c hc
  exact (List.mem_append.mp hc).elim (h c) (h' c)

/-! ## Pieces in brackets -/

/-- Each piece is one of its own writings. -/
abbrev WritesEach (writings : List (Text → Prop)) (pieces : List Text) : Prop :=
  List.Forall₂ (fun writes piece => writes piece) writings pieces

theorem intercalate_eq_flatMap (separator first : Text) (pieces : List Text) :
    separator.intercalate (first :: pieces) =
      first ++ pieces.flatMap fun piece => separator ++ piece := by
  induction pieces generalizing first with
  | nil => simp
  | cons piece pieces ih =>
      rw [List.intercalate_cons_cons, ih, List.flatMap_cons, List.append_assoc, List.append_assoc]

/-- Every piece but the first has a comma and a gap before it. -/
theorem piecesWriting_later {writings : List (Text → Prop)} {pieces : List Text} (hgap : Gap gap)
    (hlast : Gap t) (h : WritesEach writings pieces) :
    PiecesWriting bracket false writings
      ((pieces.flatMap fun piece => (',' :: gap) ++ piece) ++ (t ++ [bracket])) := by
  induction h with
  | nil => exact ⟨t, hlast, rfl⟩
  | cons hpiece _ ih =>
      refine ⟨',' :: gap, _, _, ?_, ⟨[], gap, gap_nil, hgap, rfl⟩, hpiece, ih⟩
      simp

theorem piecesWriting_block {writings : List (Text → Prop)} {pieces : List Text}
    (hlead : Gap lead) (hgap : Gap gap) (hlast : Gap t)
    (h : WritesEach writings pieces) :
    PiecesWriting bracket true writings
      (lead ++ (',' :: gap).intercalate pieces ++ (t ++ [bracket])) := by
  cases h with
  | nil => exact ⟨lead ++ t, hlead.append hlast, by simp⟩
  | cons hpiece hrest =>
      refine ⟨lead, _, _, ?_, hlead, hpiece, piecesWriting_later hgap hlast hrest⟩
      rw [intercalate_eq_flatMap]
      simp

/-! ## Printed values -/

/-- Readers follow values to this depth. -/
def maxDepth : Nat := 127

mutual

/-- The value can stand in this many others: its numbers are integers of 64 bits, and it is not
nested deeper than readers follow. -/
def Plain : (depth : Nat) → Json → Prop
  | _, .null | _, .bool _ | _, .str _ => True
  | _, .int n => -2 ^ 63 ≤ n ∧ n < 2 ^ 64
  | _, .float _ => False
  | depth, .arr items => depth < maxDepth ∧ PlainItems (depth + 1) items
  | depth, .obj members => depth < maxDepth ∧ PlainMembers (depth + 1) members

def PlainItems : (depth : Nat) → List Json → Prop
  | _, [] => True
  | depth, item :: items => Plain depth item ∧ PlainItems depth items

def PlainMembers : (depth : Nat) → List (String × Json) → Prop
  | _, [] => True
  | depth, (_, value) :: members => Plain depth value ∧ PlainMembers depth members

end

theorem plainItems_iff {depth : Nat} {items : List Json} :
    PlainItems depth items ↔ ∀ item ∈ items, Plain depth item := by
  induction items with
  | nil => simp [PlainItems]
  | cons item items ih => rw [PlainItems, ih, List.forall_mem_cons]

theorem plainMembers_iff {depth : Nat} {members : List (String × Json)} :
    PlainMembers depth members ↔ ∀ member ∈ members, Plain depth member.2 := by
  induction members with
  | nil => simp [PlainMembers]
  | cons member members ih => rw [PlainMembers, ih, List.forall_mem_cons]

theorem Plain.shallower {j : Json} {depth depth' : Nat} (h : Plain depth' j)
    (hdepth : depth ≤ depth') : Plain depth j := by
  induction j using parts_induction generalizing depth depth' with
  | arr items ih =>
      obtain ⟨hless, hitems⟩ := h
      rw [plainItems_iff] at hitems
      refine ⟨hdepth.trans_lt hless, plainItems_iff.mpr fun item hitem => ?_⟩
      exact ih item hitem (hitems item hitem) (Nat.succ_le_succ hdepth)
  | obj members ih =>
      obtain ⟨hless, hmembers⟩ := h
      rw [plainMembers_iff] at hmembers
      refine ⟨hdepth.trans_lt hless, plainMembers_iff.mpr fun member hmember => ?_⟩
      exact ih member hmember (hmembers member hmember) (Nat.succ_le_succ hdepth)
  | int n => exact h
  | float f => exact h.elim
  | _ => trivial

theorem toList_bracketed (opening closing separator : String) (pieces : List String) :
    (opening ++ separator.intercalate pieces ++ closing).toList =
      opening.toList ++ separator.toList.intercalate (pieces.map String.toList) ++
        closing.toList := by
  simp [String.toList_intercalate]

mutual

theorem writing_compact : ∀ {depth : Nat} (j : Json), Plain depth j → Writing j j.compact.toList
  | _, .null, _ => rfl
  | _, .bool true, _ => rfl
  | _, .bool false, _ => rfl
  | _, .int _, _ => rfl
  | _, .float _, h => h.elim
  | _, .str _, _ => rfl
  | _, .arr items, h => by
      rw [compact, toList_bracketed]
      refine ⟨_, rfl, ?_⟩
      exact piecesWriting_block gap_nil gap_nil gap_nil (writings_compactItems items h.2)
  | _, .obj members, h => by
      rw [compact, toList_bracketed]
      refine ⟨_, rfl, ?_⟩
      exact piecesWriting_block gap_nil gap_nil gap_nil (writings_compactMembers members h.2)

theorem writings_compactItems : ∀ {depth : Nat} (items : List Json), PlainItems depth items →
    WritesEach (itemWritings items) ((compactItems items).map String.toList)
  | _, [], _ => .nil
  | _, item :: items, h => .cons (writing_compact item h.1) (writings_compactItems items h.2)

theorem writings_compactMembers : ∀ {depth : Nat} (members : List (String × Json)),
    PlainMembers depth members →
    WritesEach (memberWritings members) ((compactMembers members).map String.toList)
  | _, [], _ => .nil
  | _, (name, value) :: members, h => by
      refine .cons ?_ (writings_compactMembers members h.2)
      exact ⟨[], _, by simp, gap_nil, writing_compact value h.1⟩

end

theorem gap_inside {indent : String} (h : Gap indent.toList) : Gap (indent ++ "  ").toList := by
  rw [String.toList_append]
  exact h.append (by simp [Gap, Rest.isJsonBlank])

theorem gap_line {indent : String} (h : Gap indent.toList) : Gap ("\n" ++ indent).toList := by
  rw [String.toList_append]
  exact Gap.append (by simp [Gap, Rest.isJsonBlank]) h

theorem writing_block {opening closing indent : String} {pieces : List String}
    {writings : List (Text → Prop)} {c : Char} (hopening : opening.toList = [c])
    (hclosing : closing.toList = [bracket]) (hindent : Gap indent.toList)
    (h : WritesEach writings (pieces.map String.toList)) :
    ∃ body, (block opening closing indent pieces).toList = c :: body ∧
      PiecesWriting bracket true writings body := by
  have hinner : Gap ("\n" ++ indent ++ "  ").toList := gap_inside (gap_line hindent)
  rw [block]
  split
  next hempty =>
    obtain rfl := List.isEmpty_iff.mp hempty
    cases h
    exact ⟨[bracket], by simp [hopening, hclosing], [], gap_nil, rfl⟩
  next =>
    refine ⟨_, ?_, piecesWriting_block hinner hinner (gap_line hindent) h⟩
    simp [String.toList_intercalate, hopening, hclosing]

mutual

theorem writing_indented : ∀ {depth : Nat} {indent : String} (j : Json), Plain depth j →
    Gap indent.toList → Writing j (indented indent j).toList
  | _, _, .null, _, _ => rfl
  | _, _, .bool true, _, _ => rfl
  | _, _, .bool false, _, _ => rfl
  | _, _, .int _, _, _ => rfl
  | _, _, .float _, h, _ => h.elim
  | _, _, .str _, _, _ => rfl
  | _, _, .arr items, h, hindent => by
      rw [indented]
      exact writing_block rfl rfl hindent (writings_indentedItems items h.2 (gap_inside hindent))
  | _, _, .obj members, h, hindent => by
      rw [indented]
      exact writing_block rfl rfl hindent
        (writings_indentedMembers members h.2 (gap_inside hindent))

theorem writings_indentedItems : ∀ {depth : Nat} {indent : String} (items : List Json),
    PlainItems depth items → Gap indent.toList →
    WritesEach (itemWritings items) ((indentedItems indent items).map String.toList)
  | _, _, [], _, _ => .nil
  | _, _, item :: items, h, hindent =>
      .cons (writing_indented item h.1 hindent) (writings_indentedItems items h.2 hindent)

theorem writings_indentedMembers : ∀ {depth : Nat} {indent : String}
    (members : List (String × Json)), PlainMembers depth members → Gap indent.toList →
    WritesEach (memberWritings members) ((indentedMembers indent members).map String.toList)
  | _, _, [], _, _ => .nil
  | _, _, (name, value) :: members, h, hindent => by
      refine .cons ?_ (writings_indentedMembers members h.2 hindent)
      exact ⟨[' '], _, by simp, by simp [Gap, Rest.isJsonBlank],
        writing_indented value h.1 hindent⟩

end

/-- A value is printed on one line or on several. -/
theorem writing_of_printed {depth : Nat} {j : Json} {print : Json → String} (h : Plain depth j)
    (hprint : print = compact ∨ print = pretty) : Writing j (print j).toList := by
  rcases hprint with rfl | rfl
  · exact writing_compact j h
  · exact writing_indented j h (by simp)

end RepoAudit.Json
