import RepoAudit.Proofs.Json.Tokens
import RepoAudit.Proofs.Json.Writings

/-!
# Writings are read back

Whatever blanks a writing of a value has, it is read into a node that spells the value: the node has
the value's names, numbers and strings and no break, and is nested no deeper than readers follow.
-/

namespace RepoAudit.Json

mutual

/-- The node is that of a text of the value. -/
def Spells : Json → Node → Prop
  | .null, .null _ => True
  | .bool b, .bool c _ => b = c
  | .int n, .int m _ => n = m
  | .str s, .text found _ => found = .ok s
  | .arr items, .array _ deep nodes _ close =>
      deep = false ∧ (∃ stop, close = .ok stop) ∧ SpellItems items nodes
  | .obj members, .object _ deep nodes close =>
      deep = false ∧ (∃ stop, close = .ok stop) ∧ SpellMembers members nodes
  | _, _ => False

def SpellItems : List Json → List Node → Prop
  | [], [] => True
  | item :: items, node :: nodes => Spells item node ∧ SpellItems items nodes
  | _, _ => False

def SpellMembers : List (String × Json) → List (Except Fault String × Nat × Node) → Prop
  | [], [] => True
  | (name, value) :: members, (found, _, node) :: nodes =>
      found = .ok name ∧ Spells value node ∧ SpellMembers members nodes
  | _, _ => False

end

section

variable {node : Node}

theorem Spells.null (h : Spells .null node) : ∃ stop, node = .null stop := by
  cases node with
  | null stop => exact ⟨stop, rfl⟩
  | _ => exact h.elim

theorem Spells.bool {b : Bool} (h : Spells (.bool b) node) : ∃ stop, node = .bool b stop := by
  cases node with
  | bool c stop =>
      obtain rfl : b = c := h
      exact ⟨stop, rfl⟩
  | _ => exact h.elim

theorem Spells.int {n : Int} (h : Spells (.int n) node) : ∃ stop, node = .int n stop := by
  cases node with
  | int m stop =>
      obtain rfl : n = m := h
      exact ⟨stop, rfl⟩
  | _ => exact h.elim

theorem Spells.str {s : String} (h : Spells (.str s) node) : ∃ stop, node = .text (.ok s) stop := by
  cases node with
  | text found stop =>
      obtain rfl : found = .ok s := h
      exact ⟨stop, rfl⟩
  | _ => exact h.elim

theorem Spells.arr {items : List Json} (h : Spells (.arr items) node) :
    ∃ start nodes exits stop, node = .array start false nodes exits (.ok stop) ∧
      SpellItems items nodes := by
  cases node with
  | array start deep nodes exits close =>
      obtain ⟨rfl, ⟨stop, rfl⟩, hitems⟩ := h
      exact ⟨start, nodes, exits, stop, rfl, hitems⟩
  | _ => exact h.elim

theorem Spells.obj {members : List (String × Json)} (h : Spells (.obj members) node) :
    ∃ start nodes stop, node = .object start false nodes (.ok stop) ∧
      SpellMembers members nodes := by
  cases node with
  | object start deep nodes close =>
      obtain ⟨rfl, ⟨stop, rfl⟩, hmembers⟩ := h
      exact ⟨start, nodes, stop, rfl, hmembers⟩
  | _ => exact h.elim

theorem SpellItems.forall₂ {items : List Json} {nodes : List Node} (h : SpellItems items nodes) :
    List.Forall₂ Spells items nodes := by
  induction items generalizing nodes with
  | nil =>
      cases nodes with
      | nil => exact .nil
      | cons node nodes => exact h.elim
  | cons item items ih =>
      cases nodes with
      | nil => exact h.elim
      | cons node nodes => exact .cons h.1 (ih h.2)

theorem SpellMembers.forall₂ {members : List (String × Json)}
    {nodes : List (Except Fault String × Nat × Node)} (h : SpellMembers members nodes) :
    List.Forall₂ (fun member node => node.1 = .ok member.1 ∧ Spells member.2 node.2.2) members
      nodes := by
  induction members generalizing nodes with
  | nil =>
      cases nodes with
      | nil => exact .nil
      | cons node nodes => exact h.elim
  | cons member members ih =>
      cases nodes with
      | nil => exact h.elim
      | cons node nodes => exact .cons ⟨h.1, h.2.1⟩ (ih h.2.2)

end

variable {gap rest t : Text} {fuel depth offset : Nat}

/-! ## Blanks -/

theorem skipBlanks_gap (hgap : Gap gap) {c : Char} (hc : Rest.isJsonBlank c = false) (rest : Text)
    (offset : Nat) :
    Rest.skipBlanks ⟨gap ++ c :: rest, offset⟩ = ⟨c :: rest, offset + gap.length⟩ := by
  have hblanks : (gap ++ c :: rest).takeWhile Rest.isJsonBlank = gap := by
    rw [List.takeWhile_append_of_pos hgap, List.takeWhile_cons_of_neg (by simp [hc]),
      List.append_nil]
  rw [Rest.skipBlanks]
  simp [hblanks]

theorem skipBlanks_end (hgap : Gap gap) (offset : Nat) :
    Rest.skipBlanks ⟨gap, offset⟩ = ⟨[], offset + gap.length⟩ := by
  have hblanks : gap.takeWhile Rest.isJsonBlank = gap := by
    simpa [Gap] using hgap
  rw [Rest.skipBlanks]
  simp [hblanks]

/-- The text begins with no blank and with no bracket that closes. -/
def Begins (t : Text) : Prop :=
  ∃ c more, t = c :: more ∧ Rest.isJsonBlank c = false ∧ c ≠ ']' ∧ c ≠ '\x7d'

theorem isJsonBlank_digit {c : Char} (hc : c.isDigit = true) : Rest.isJsonBlank c = false := by
  simp only [Rest.isJsonBlank, Bool.or_eq_false_iff, beq_eq_false_iff_ne]
  refine ⟨⟨⟨?_, ?_⟩, ?_⟩, ?_⟩ <;> rintro rfl <;> simp at hc

theorem begins_digit {c : Char} (hc : c.isDigit = true) (more : Text) : Begins (c :: more) := by
  refine ⟨c, more, rfl, isJsonBlank_digit hc, ?_, ?_⟩ <;> rintro rfl <;> simp at hc

theorem toList_int (n : Int) :
    (toString n).toList =
      if 0 ≤ n then Nat.toDigits 10 n.toNat else '-' :: Nat.toDigits 10 (-n).toNat := by
  rw [Int.toString_eq_repr, Int.repr_eq_if]
  split <;> simp

theorem exists_digit (n : Nat) :
    ∃ c more, Nat.toDigits 10 n = c :: more ∧ c.isDigit = true := by
  obtain ⟨c, more, hdigits⟩ := List.exists_cons_of_ne_nil (Nat.toDigits_ne_nil (n := n) (b := 10))
  exact ⟨c, more, hdigits,
    Nat.isDigit_of_mem_toDigits (by decide) (by decide) (hdigits ▸ List.mem_cons_self)⟩

theorem begins_writing {j : Json} (h : Writing j t) : Begins t := by
  cases j with
  | null => exact ⟨'n', _, h, by decide⟩
  | bool b => cases b <;> exact ⟨_, _, h, by decide⟩
  | int n =>
      rw [Writing, toList_int] at h
      split at h
      · obtain ⟨c, more, hdigits, hc⟩ := exists_digit n.toNat
        rw [h, hdigits]
        exact begins_digit hc more
      · exact ⟨'-', _, h, by decide⟩
  | float f => exact h.elim
  | str s => exact ⟨'"', _, h.trans (toList_quote s), by decide⟩
  | arr items =>
      obtain ⟨body, rfl, -⟩ := h
      exact ⟨'[', body, rfl, by decide⟩
  | obj members =>
      obtain ⟨body, rfl, -⟩ := h
      exact ⟨'\x7b', body, rfl, by decide⟩

theorem begins_body {j : Json} (h : Writing j t) (rest : Text) :
    0 < t.length ∧ Begins (t ++ rest) := by
  obtain ⟨c, more, rfl, hc⟩ := begins_writing h
  exact ⟨by simp, c, more ++ rest, rfl, hc⟩

/-- After a value a list or an object goes on with no part of a number. -/
theorem ends_pieces {bracket : Char} {writings : List (Text → Prop)}
    (hbracket : bracket.isDigit = false ∧ bracket ≠ '.' ∧ bracket ≠ 'e' ∧ bracket ≠ 'E')
    (h : PiecesWriting bracket false writings t) (rest : Text) : Ends (t ++ rest) := by
  have hgap : ∀ gap : Text, Gap gap → ∀ (c : Char) (more : Text),
      c.isDigit = false ∧ c ≠ '.' ∧ c ≠ 'e' ∧ c ≠ 'E' → Ends (gap ++ c :: more) := by
    intro gap hgap c more hc
    cases gap with
    | nil => simpa [Ends] using hc
    | cons blank gap =>
        have hblank := hgap blank List.mem_cons_self
        simp only [Rest.isJsonBlank, Bool.or_eq_true, beq_iff_eq] at hblank
        intro first hfirst
        obtain rfl : blank = first := by simpa using hfirst
        rcases hblank with ((rfl | rfl) | rfl) | rfl <;> decide
  cases writings with
  | nil =>
      obtain ⟨gap, hblank, rfl⟩ := h
      simpa using hgap gap hblank bracket rest hbracket
  | cons writes writings =>
      obtain ⟨lead, body, after, rfl, ⟨gap, gap', hblank, -, rfl⟩, -, -⟩ := h
      simpa using hgap gap hblank ',' _ (by decide)

/-! ## Values without parts -/

/-- Every writing of the value is read into a node that spells it, up to what stands after it.
A step into a list or an object takes fuel twice, for its bracket and for its first part. -/
def ReadsBack (j : Json) : Prop :=
  ∀ ⦃t gap rest : Text⦄ ⦃fuel depth : Nat⦄ (offset : Nat), Writing j t → Plain depth j → Gap gap →
    Ends rest → 2 * (gap ++ (t ++ rest)).length ≤ fuel →
    ∃ node stop, readValue (fuel + 1) depth ⟨gap ++ (t ++ rest), offset⟩ =
      (node, .ok ⟨rest, stop⟩) ∧ Spells j node

theorem readName_all (letters : Text) (node : Nat → Node) (rest : Text) (offset : Nat) :
    ∃ stop, readName letters node ⟨letters ++ rest, offset⟩ = (node stop, .ok ⟨rest, stop⟩) := by
  induction letters generalizing offset with
  | nil => exact ⟨offset, by simp [readName]⟩
  | cons letter letters ih =>
      obtain ⟨stop, hstop⟩ := ih (offset + 1)
      exact ⟨stop, by simpa [readName] using hstop⟩

theorem readValue_digit {r : Rest} {c : Char} {more : Text} (hc : c.isDigit = true)
    (hr : r.skipBlanks = ⟨c :: more, offset⟩) :
    readValue (fuel + 1) depth r = readNumber false ⟨c :: more, offset⟩ := by
  rw [readValue]
  simp only [hr]
  split <;> simp_all

/-- A value that is written as one of the three names. -/
theorem readsBack_name {j : Json} (c : Char) (letters : Text) (leaf : Nat → Node)
    (hblank : Rest.isJsonBlank c = false) (hname : ∀ t, Writing j t → t = c :: letters)
    (hread : ∀ {fuel depth offset : Nat} {r : Rest} {more : Text},
      r.skipBlanks = ⟨c :: more, offset⟩ →
      readValue (fuel + 1) depth r = readName letters leaf ⟨more, offset + 1⟩)
    (hspells : ∀ stop, Spells j (leaf stop)) : ReadsBack j := by
  intro t gap rest fuel depth offset hwriting _ hgap _ _
  obtain rfl := hname t hwriting
  obtain ⟨stop, hstop⟩ := readName_all letters leaf rest (offset + gap.length + 1)
  exact ⟨leaf stop, stop, (hread (skipBlanks_gap hgap hblank _ _)).trans hstop, hspells stop⟩

theorem readsBack_null : ReadsBack .null := by
  refine readsBack_name 'n' ['u', 'l', 'l'] .null (by decide) (fun _ h => h) ?_ fun _ => trivial
  intro _ _ _ _ _ hr
  rw [readValue]
  simp only [hr]

theorem readsBack_bool (b : Bool) : ReadsBack (.bool b) := by
  cases b with
  | true =>
      refine readsBack_name 't' ['r', 'u', 'e'] (.bool true) (by decide) (fun _ h => h) ?_
        fun _ => rfl
      intro _ _ _ _ _ hr
      rw [readValue]
      simp only [hr]
  | false =>
      refine readsBack_name 'f' ['a', 'l', 's', 'e'] (.bool false) (by decide) (fun _ h => h) ?_
        fun _ => rfl
      intro _ _ _ _ _ hr
      rw [readValue]
      simp only [hr]

theorem readsBack_int (n : Int) : ReadsBack (.int n) := by
  rintro _ gap rest fuel depth offset rfl hn hgap hrest -
  have hsize : UInt64.size = 2 ^ 64 := rfl
  rw [Plain] at hn
  rw [toList_int]
  split
  next hpos =>
    obtain ⟨c, more, hdigits, hc⟩ := exists_digit n.toNat
    obtain ⟨stop, hstop⟩ := readNumber_toDigits (n := n.toNat) (by omega) hrest false
      (offset + gap.length) (by simp)
    refine ⟨.int n stop, stop, ?_, rfl⟩
    rw [hdigits, List.cons_append] at hstop ⊢
    rw [readValue_digit hc (skipBlanks_gap hgap (isJsonBlank_digit hc) _ _), hstop]
    simp [Int.toNat_of_nonneg hpos]
  next hneg =>
    obtain ⟨stop, hstop⟩ := readNumber_toDigits (n := (-n).toNat) (by omega) hrest true
      (offset + gap.length + 1) (by omega)
    refine ⟨.int n stop, stop, ?_, rfl⟩
    rw [readValue, List.cons_append, skipBlanks_gap hgap (by decide)]
    simp only [hstop, if_true]
    rw [Int.toNat_of_nonneg (by omega), neg_neg]

theorem readsBack_str (s : String) : ReadsBack (.str s) := by
  rintro _ gap rest fuel depth offset rfl - hgap - -
  obtain ⟨stop, hstop⟩ := readString_quote s rest (offset + gap.length + 1)
  refine ⟨.text (.ok s) stop, stop, ?_, rfl⟩
  rw [readValue, toList_quote, List.cons_append, skipBlanks_gap hgap (by decide),
    List.append_assoc, List.singleton_append]
  simp only [hstop]

/-! ## Lists and objects -/

theorem readItems_close (hgap : Gap gap) (first : Bool) :
    readItems (fuel + 1) depth first ⟨gap ++ ']' :: rest, offset⟩ =
      ([], [], .ok ⟨rest, offset + gap.length + 1⟩) := by
  rw [readItems.eq_def]
  simp only [skipBlanks_gap hgap (show Rest.isJsonBlank ']' = false by decide)]
  cases first <;> rfl

theorem readMembers_close (hgap : Gap gap) (first : Bool) :
    readMembers (fuel + 1) depth first ⟨gap ++ '\x7d' :: rest, offset⟩ =
      ([], .ok ⟨rest, offset + gap.length + 1⟩) := by
  rw [readMembers.eq_def]
  simp only [skipBlanks_gap hgap (show Rest.isJsonBlank '\x7d' = false by decide)]
  cases first <;> rfl

theorem readItems_piece {first : Bool} {lead : Text} (hlead : Separates first lead)
    (hbegins : Begins t) (fuel depth offset : Nat) :
    ∃ start, readItems (fuel + 1) depth first ⟨lead ++ t, offset⟩ =
      match readValue fuel depth ⟨t, start⟩ with
      | (item, .error b) => ([item], [⟨0, none⟩], .error b)
      | (item, .ok after) =>
          let (items, exits, close) := readItems fuel depth false after
          (item :: items, exitOf after :: exits, close) := by
  obtain ⟨c, more, rfl, hblank, hlist, -⟩ := hbegins
  cases first with
  | true =>
      refine ⟨offset + lead.length, ?_⟩
      rw [readItems.eq_def]
      simp only [skipBlanks_gap hlead hblank]
      generalize readValue fuel depth _ = found
      obtain ⟨item, b | after⟩ := found <;> rfl
  | false =>
      obtain ⟨gap, gap', hgap, hgap', rfl⟩ := hlead
      refine ⟨offset + gap.length + 1 + gap'.length, ?_⟩
      have hcomma : Rest.isJsonBlank ',' = false := by decide
      rw [readItems.eq_def, List.append_assoc, List.cons_append]
      simp only [skipBlanks_gap hgap hcomma, skipBlanks_gap hgap' hblank]
      generalize readValue fuel depth _ = found
      obtain ⟨item, b | after⟩ := found <;> rfl

theorem readMembers_piece {first : Bool} {lead : Text} (hlead : Separates first lead)
    (name : String) (fuel depth offset : Nat) :
    ∃ stand start, readMembers (fuel + 1) depth first
        ⟨lead ++ ((quote name).toList ++ ':' :: t), offset⟩ =
      match readValue fuel depth ⟨t, start⟩ with
      | (value, .error b) => ([(.ok name, stand, value)], .error b)
      | (value, .ok after) =>
          let (members, close) := readMembers fuel depth false after
          ((.ok name, stand, value) :: members, close) := by
  have hquote : Rest.isJsonBlank '"' = false := by decide
  have hcolon : ∀ offset, Rest.skipBlanks ⟨':' :: t, offset⟩ = ⟨':' :: t, offset⟩ := fun offset =>
    skipBlanks_gap gap_nil (by decide) t offset
  rw [toList_quote, List.cons_append, List.append_assoc, List.singleton_append]
  cases first with
  | true =>
      obtain ⟨stop, hstop⟩ := readString_quote name (':' :: t) (offset + lead.length + 1)
      refine ⟨stop, stop + 1, ?_⟩
      rw [readMembers.eq_def]
      simp only [skipBlanks_gap hlead hquote, hstop, hcolon]
      generalize readValue fuel depth _ = found
      obtain ⟨item, b | after⟩ := found <;> rfl
  | false =>
      obtain ⟨gap, gap', hgap, hgap', rfl⟩ := hlead
      obtain ⟨stop, hstop⟩ :=
        readString_quote name (':' :: t) (offset + gap.length + 1 + gap'.length + 1)
      refine ⟨stop, stop + 1, ?_⟩
      have hcomma : Rest.isJsonBlank ',' = false := by decide
      rw [readMembers.eq_def, List.append_assoc, List.cons_append]
      simp only [skipBlanks_gap hgap hcomma, skipBlanks_gap hgap' hquote, hstop, hcolon]
      generalize readValue fuel depth _ = found
      obtain ⟨item, b | after⟩ := found <;> rfl

theorem readItems_writing {items : List Json} (hitems : ∀ item ∈ items, ReadsBack item)
    {first : Bool} (hwriting : PiecesWriting ']' first (itemWritings items) t)
    (hplain : PlainItems depth items) (hfuel : 2 * (t ++ rest).length + 1 ≤ fuel) (offset : Nat) :
    ∃ nodes exits stop, readItems (fuel + 1) depth first ⟨t ++ rest, offset⟩ =
      (nodes, exits, .ok ⟨rest, stop⟩) ∧ SpellItems items nodes := by
  induction items generalizing t first fuel offset with
  | nil =>
      obtain ⟨gap, hgap, rfl⟩ := hwriting
      refine ⟨[], [], offset + gap.length + 1, ?_, trivial⟩
      rw [List.append_assoc, List.singleton_append]
      exact readItems_close hgap first
  | cons item items ih =>
      rw [List.forall_mem_cons] at hitems
      obtain ⟨lead, body, after, rfl, hlead, hbody, hafter⟩ := hwriting
      obtain ⟨fuel, rfl⟩ := Nat.exists_eq_add_of_le' (Nat.le_of_add_left_le hfuel)
      obtain ⟨hne, hbegins⟩ := begins_body hbody (after ++ rest)
      simp only [List.length_append] at hfuel
      have hfirst : 2 * ([] ++ (body ++ (after ++ rest))).length ≤ fuel := by
        simp only [List.nil_append, List.length_append]
        omega
      have hlater : 2 * (after ++ rest).length + 1 ≤ fuel := by
        rw [List.length_append]
        omega
      obtain ⟨start, hstart⟩ := readItems_piece hlead hbegins (fuel + 1) depth offset
      obtain ⟨node, stop, hnode, hspells⟩ := hitems.1 start hbody hplain.1 gap_nil
        (ends_pieces (by decide) hafter rest) hfirst
      obtain ⟨nodes, exits, stop', hnodes, hrest⟩ := ih hitems.2 hafter hplain.2 hlater stop
      refine ⟨node :: nodes, exitOf ⟨after ++ rest, stop⟩ :: exits, stop', ?_, hspells, hrest⟩
      rw [List.nil_append] at hnode
      rw [List.append_assoc, List.append_assoc, hstart, hnode]
      simp only [hnodes]

theorem readMembers_writing {members : List (String × Json)}
    (hmembers : ∀ member ∈ members, ReadsBack member.2) {first : Bool}
    (hwriting : PiecesWriting '\x7d' first (memberWritings members) t)
    (hplain : PlainMembers depth members) (hfuel : 2 * (t ++ rest).length + 1 ≤ fuel)
    (offset : Nat) :
    ∃ nodes stop, readMembers (fuel + 1) depth first ⟨t ++ rest, offset⟩ =
      (nodes, .ok ⟨rest, stop⟩) ∧ SpellMembers members nodes := by
  induction members generalizing t first fuel offset with
  | nil =>
      obtain ⟨gap, hgap, rfl⟩ := hwriting
      refine ⟨[], offset + gap.length + 1, ?_, trivial⟩
      rw [List.append_assoc, List.singleton_append]
      exact readMembers_close hgap first
  | cons member members ih =>
      obtain ⟨name, value⟩ := member
      rw [List.forall_mem_cons] at hmembers
      obtain ⟨lead, _, after, rfl, hlead, ⟨gap, body, rfl, hgap, hbody⟩, hafter⟩ := hwriting
      obtain ⟨fuel, rfl⟩ := Nat.exists_eq_add_of_le' (Nat.le_of_add_left_le hfuel)
      simp only [List.length_append, List.length_cons] at hfuel
      have hfirst : 2 * (gap ++ (body ++ (after ++ rest))).length ≤ fuel := by
        simp only [List.length_append]
        omega
      have hlater : 2 * (after ++ rest).length + 1 ≤ fuel := by
        rw [List.length_append]
        omega
      obtain ⟨stand, start, hstart⟩ := readMembers_piece hlead name (fuel + 1) depth offset
      obtain ⟨node, stop, hnode, hspells⟩ := hmembers.1 start hbody hplain.1 hgap
        (ends_pieces (by decide) hafter rest) hfirst
      obtain ⟨nodes, stop', hnodes, hrest⟩ := ih hmembers.2 hafter hplain.2 hlater stop
      refine ⟨(.ok name, stand, node) :: nodes, stop', ?_, rfl, hspells, hrest⟩
      simp only [List.append_assoc, List.cons_append]
      rw [hstart, hnode]
      simp only [hnodes]

theorem readsBack_arr {items : List Json} (hitems : ∀ item ∈ items, ReadsBack item) :
    ReadsBack (.arr items) := by
  rintro _ gap rest fuel depth offset ⟨body, rfl, hbody⟩ ⟨hdepth, hplain⟩ hgap - hfuel
  simp only [List.length_append, List.length_cons] at hfuel
  obtain ⟨fuel, rfl⟩ : ∃ n, fuel = n + 1 := ⟨fuel - 1, by omega⟩
  have hinside : 2 * (body ++ rest).length + 1 ≤ fuel := by
    rw [List.length_append]
    omega
  obtain ⟨nodes, exits, stop, hnodes, hspells⟩ :=
    readItems_writing hitems hbody hplain hinside (offset + gap.length + 1)
  have hflat : decide (128 ≤ depth + 1) = false := by
    rw [maxDepth] at hdepth
    simpa using hdepth
  refine ⟨.array (offset + gap.length) false nodes exits (.ok stop), stop, ?_, rfl, ⟨stop, rfl⟩,
    hspells⟩
  rw [readValue.eq_def, List.cons_append]
  simp only [skipBlanks_gap hgap (show Rest.isJsonBlank '[' = false by decide), hnodes, hflat]
  rfl

theorem readsBack_obj {members : List (String × Json)}
    (hmembers : ∀ member ∈ members, ReadsBack member.2) : ReadsBack (.obj members) := by
  rintro _ gap rest fuel depth offset ⟨body, rfl, hbody⟩ ⟨hdepth, hplain⟩ hgap - hfuel
  simp only [List.length_append, List.length_cons] at hfuel
  obtain ⟨fuel, rfl⟩ : ∃ n, fuel = n + 1 := ⟨fuel - 1, by omega⟩
  have hinside : 2 * (body ++ rest).length + 1 ≤ fuel := by
    rw [List.length_append]
    omega
  obtain ⟨nodes, stop, hnodes, hspells⟩ :=
    readMembers_writing hmembers hbody hplain hinside (offset + gap.length + 1)
  have hflat : decide (128 ≤ depth + 1) = false := by
    rw [maxDepth] at hdepth
    simpa using hdepth
  refine ⟨.object (offset + gap.length) false nodes (.ok stop), stop, ?_, rfl, ⟨stop, rfl⟩, hspells⟩
  rw [readValue.eq_def, List.cons_append]
  simp only [skipBlanks_gap hgap (show Rest.isJsonBlank '\x7b' = false by decide), hnodes, hflat]
  rfl

theorem readsBack (j : Json) : ReadsBack j := by
  induction j using parts_induction with
  | null => exact readsBack_null
  | bool b => exact readsBack_bool b
  | int n => exact readsBack_int n
  | float f => exact fun _ _ _ _ _ _ hwriting => hwriting.elim
  | str s => exact readsBack_str s
  | arr items hitems => exact readsBack_arr hitems
  | obj members hmembers => exact readsBack_obj hmembers

/-- A whole text that writes a value is read into a node that spells it, and nothing is left. -/
theorem ofText_writing {j : Json} (hwriting : Writing j t) (hplain : Plain 0 j) :
    Spells j (Document.ofText t).root ∧ (Document.ofText t).trailing = none := by
  obtain ⟨node, stop, hnode, hspells⟩ := readsBack j 0 hwriting hplain gap_nil
    (show Ends [] by simp [Ends]) (show 2 * ([] ++ (t ++ [])).length ≤ 2 * t.length + 1 by simp)
  rw [List.nil_append, List.append_nil] at hnode
  have hskip : Rest.skipBlanks ⟨[], stop⟩ = ⟨[], stop⟩ := skipBlanks_end gap_nil stop
  rw [Document.ofText, hnode]
  simp only [hskip]
  exact ⟨hspells, rfl⟩

end RepoAudit.Json
