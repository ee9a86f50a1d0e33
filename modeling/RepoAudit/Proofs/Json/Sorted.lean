import RepoAudit.Proofs.Json.Members
import RepoAudit.Proofs.Json.Reading
import RepoAudit.Proofs.Text.ByteOrder
import Mathlib

/-!
# Values as they are read

A value that is read from a text has the members of its objects in the order of names.  A node that
spells such a value is read as this value.
-/

namespace RepoAudit.Json

mutual

/-- The members of every object are in the order of names, each name once. -/
def Sorted : Json → Prop
  | .arr items => SortedItems items
  | .obj members => members.Pairwise (fun a b => a.1 < b.1) ∧ SortedMembers members
  | _ => True

def SortedItems : List Json → Prop
  | [] => True
  | item :: items => Sorted item ∧ SortedItems items

def SortedMembers : List (String × Json) → Prop
  | [] => True
  | (_, value) :: members => Sorted value ∧ SortedMembers members

end

theorem sortedMembers_iff {members : List (String × Json)} :
    SortedMembers members ↔ ∀ member ∈ members, Sorted member.2 := by
  induction members with
  | nil => simp [SortedMembers]
  | cons member members ih => rw [SortedMembers, ih, List.forall_mem_cons]

/-! ## Putting members in order -/

variable {name : String} {value : Json} {members : List (String × Json)}

theorem mem_insertMember {member : String × Json} (h : member ∈ insertMember name value members) :
    member = (name, value) ∨ member ∈ members := by
  induction members with
  | nil => simpa [insertMember] using h
  | cons first members ih =>
      obtain ⟨other, old⟩ := first
      rw [insertMember] at h
      split at h
      · rcases List.mem_cons.mp h with h | h
        · exact .inl h
        · exact .inr (List.mem_cons_of_mem _ h)
      · split at h
        · simpa using h
        · rcases List.mem_cons.mp h with h | h
          · exact .inr (by simp [h])
          · exact (ih h).imp_right (List.mem_cons_of_mem _)

theorem pairwise_insertMember (h : members.Pairwise fun a b => a.1 < b.1) :
    (insertMember name value members).Pairwise fun a b => a.1 < b.1 := by
  induction members with
  | nil => simp [insertMember]
  | cons first members ih =>
      obtain ⟨other, old⟩ := first
      obtain ⟨hfirst, hmembers⟩ := List.pairwise_cons.mp h
      rw [insertMember]
      split
      next heq =>
        obtain rfl : name = other := by simpa using heq
        exact List.pairwise_cons.mpr ⟨hfirst, hmembers⟩
      next hne =>
        have hname : name ≠ other := by simpa using hne
        split
        next hle =>
          have hlt : name < other := lt_of_le_of_ne (nameLe_iff_le.mp hle) hname
          refine List.pairwise_cons.mpr ⟨fun member hmember => ?_, h⟩
          rcases List.mem_cons.mp hmember with rfl | hmember
          · exact hlt
          · exact hlt.trans (hfirst member hmember)
        next hnot =>
          have hlt : other < name := by
            rw [nameLe_iff_le, not_le] at hnot
            exact hnot
          refine List.pairwise_cons.mpr ⟨fun member hmember => ?_, ih hmembers⟩
          rcases mem_insertMember hmember with rfl | hmember
          · exact hlt
          · exact hfirst member hmember

theorem insertMember_last (h : ∀ member ∈ members, member.1 < name) :
    insertMember name value members = members ++ [(name, value)] := by
  induction members with
  | nil => rfl
  | cons first members ih =>
      obtain ⟨other, old⟩ := first
      rw [List.forall_mem_cons] at h
      have hne : (name == other) = false := beq_eq_false_iff_ne.mpr h.1.ne'
      have hnot : nameLe name other = false := by
        rw [← Bool.not_eq_true, nameLe_iff_le, not_le]
        exact h.1
      rw [insertMember, hne, hnot]
      simp [ih h.2]

/-- The members of an object put into order, as the fold that reads them does. -/
def orderedFrom (sorted members : List (String × Json)) : List (String × Json) :=
  members.foldl (fun sorted (name, value) => insertMember name value sorted) sorted

theorem sortedObject_eq (members : List (String × Json)) :
    sortedObject members = .obj (orderedFrom [] members) := rfl

theorem pairwise_orderedFrom {sorted : List (String × Json)}
    (h : sorted.Pairwise fun a b => a.1 < b.1) (members : List (String × Json)) :
    (orderedFrom sorted members).Pairwise fun a b => a.1 < b.1 := by
  induction members generalizing sorted with
  | nil => exact h
  | cons first members ih => exact ih (pairwise_insertMember h)

theorem mem_orderedFrom {sorted : List (String × Json)} {member : String × Json}
    (h : member ∈ orderedFrom sorted members) : member ∈ sorted ∨ member ∈ members := by
  induction members generalizing sorted with
  | nil => exact .inl h
  | cons first members ih =>
      rcases ih h with h | h
      · exact (mem_insertMember h).symm.imp_right fun heq => by simp [heq]
      · exact .inr (List.mem_cons_of_mem _ h)

theorem orderedFrom_sorted {sorted : List (String × Json)}
    (h : (sorted ++ members).Pairwise fun a b => a.1 < b.1) :
    orderedFrom sorted members = sorted ++ members := by
  induction members generalizing sorted with
  | nil => simp [orderedFrom]
  | cons first members ih =>
      have hlast : insertMember first.1 first.2 sorted = sorted ++ [first] :=
        insertMember_last fun member hmember =>
          (List.pairwise_append.mp h).2.2 member hmember first List.mem_cons_self
      change orderedFrom (insertMember first.1 first.2 sorted) members = _
      rw [hlast, ih (by simpa using h), List.append_assoc, List.singleton_append]

/-! ## Nodes that are read -/

mutual

theorem sorted_of_value : ∀ {node : Node} {j : Json}, node.value = .ok j → Sorted j
  | .null _, _, h | .bool .., _, h | .int .., _, h => by
      obtain rfl := Except.ok.inj h
      trivial
  | .float .., _, h | .text .., _, h => by
      obtain ⟨_, -, rfl⟩ := map_eq_ok_iff.mp h
      trivial
  | .array start deep items exits close, j, h => by
      obtain ⟨rfl, ⟨values, hvalues⟩, stop, rfl⟩ := Node.value_array h
      rw [Node.value, hvalues] at h
      obtain rfl := Except.ok.inj h
      exact sorted_of_itemValues hvalues
  | .object start deep members close, j, h => by
      obtain ⟨rfl, ⟨values, hvalues⟩, stop, rfl⟩ := Node.value_object h
      rw [Node.value, hvalues] at h
      obtain rfl := Except.ok.inj h
      have hvaluesSorted := sortedMembers_iff.mp (sorted_of_memberValues hvalues)
      refine ⟨pairwise_orderedFrom .nil values, sortedMembers_iff.mpr fun member hmember => ?_⟩
      exact hvaluesSorted member ((mem_orderedFrom hmember).resolve_left List.not_mem_nil)
  | .broken _, _, h => by cases h

theorem sorted_of_itemValues : ∀ {items : List Node} {values : List Json},
    Node.itemValues items = .ok values → SortedItems values
  | [], _, h => by
      obtain rfl := Except.ok.inj h
      trivial
  | item :: items, _, h => by
      rw [Node.itemValues] at h
      obtain ⟨value, hvalue, h⟩ := bind_eq_ok_iff.mp h
      obtain ⟨values, hvalues, h⟩ := bind_eq_ok_iff.mp h
      obtain rfl := pure_eq_ok_iff.mp h
      exact ⟨sorted_of_value hvalue, sorted_of_itemValues hvalues⟩

theorem sorted_of_memberValues : ∀ {members : List (Except Fault String × Nat × Node)}
    {values : List (String × Json)}, Node.memberValues members = .ok values → SortedMembers values
  | [], _, h => by
      obtain rfl := Except.ok.inj h
      trivial
  | (name, _, node) :: members, _, h => by
      rw [Node.memberValues] at h
      obtain ⟨label, hname, h⟩ := bind_eq_ok_iff.mp h
      obtain ⟨value, hvalue, h⟩ := bind_eq_ok_iff.mp h
      obtain ⟨values, hvalues, h⟩ := bind_eq_ok_iff.mp h
      obtain rfl := pure_eq_ok_iff.mp h
      exact ⟨sorted_of_value hvalue, sorted_of_memberValues hvalues⟩

end

theorem sorted_ofText {t : Text} {j : Json} (h : ofText t = .ok j) : Sorted j :=
  sorted_of_value (ofText_eq_ok_iff.mp h).1

/-! ## Nodes that spell a value -/

/-- The nodes that spell the value can be read, and as this value when it is sorted. -/
def HasValue (j : Json) : Prop :=
  ∀ ⦃node : Node⦄, Spells j node → ∃ k, node.value = .ok k ∧ (Sorted j → k = j)

theorem itemValues_of_spells {items : List Json} {nodes : List Node}
    (hitems : ∀ item ∈ items, HasValue item) (h : List.Forall₂ Spells items nodes) :
    ∃ values, Node.itemValues nodes = .ok values ∧ (SortedItems items → values = items) := by
  induction h with
  | nil => exact ⟨[], rfl, fun _ => rfl⟩
  | cons hitem _ ih =>
      rw [List.forall_mem_cons] at hitems
      obtain ⟨value, hvalue, hsame⟩ := hitems.1 hitem
      obtain ⟨values, hvalues, hsames⟩ := ih hitems.2
      refine ⟨value :: values, ?_, fun hsorted => by rw [hsame hsorted.1, hsames hsorted.2]⟩
      rw [Node.itemValues, hvalue, hvalues]
      rfl

theorem memberValues_of_spells {nodes : List (Except Fault String × Nat × Node)}
    (hmembers : ∀ member ∈ members, HasValue member.2)
    (h : List.Forall₂ (fun member node => node.1 = .ok member.1 ∧ Spells member.2 node.2.2) members
      nodes) :
    ∃ values, Node.memberValues nodes = .ok values ∧
      (SortedMembers members → values = members) := by
  induction h with
  | nil => exact ⟨[], rfl, fun _ => rfl⟩
  | @cons member node _ _ hfirst _ ih =>
      obtain ⟨name, written⟩ := member
      obtain ⟨_, stand, node⟩ := node
      obtain ⟨rfl, hspells⟩ := hfirst
      rw [List.forall_mem_cons] at hmembers
      obtain ⟨value, hvalue, hsame⟩ := hmembers.1 hspells
      obtain ⟨values, hvalues, hsames⟩ := ih hmembers.2
      refine ⟨(name, value) :: values, ?_, fun hsorted => by
        rw [hsame hsorted.1, hsames hsorted.2]⟩
      rw [Node.memberValues, hvalue, hvalues]
      rfl

theorem hasValue_arr {items : List Json} (hitems : ∀ item ∈ items, HasValue item) :
    HasValue (.arr items) := by
  intro node h
  obtain ⟨start, nodes, exits, stop, rfl, hspells⟩ := h.arr
  obtain ⟨values, hvalues, hsame⟩ := itemValues_of_spells hitems hspells.forall₂
  refine ⟨.arr values, ?_, fun hsorted => by rw [hsame hsorted]⟩
  rw [Node.value, hvalues]
  rfl

theorem hasValue_obj (hmembers : ∀ member ∈ members, HasValue member.2) :
    HasValue (.obj members) := by
  intro node h
  obtain ⟨start, nodes, stop, rfl, hspells⟩ := h.obj
  obtain ⟨values, hvalues, hsame⟩ := memberValues_of_spells hmembers hspells.forall₂
  refine ⟨sortedObject values, ?_, fun hsorted => ?_⟩
  · rw [Node.value, hvalues]
    rfl
  · have hordered : orderedFrom [] members = members :=
      orderedFrom_sorted (by simpa using hsorted.1)
    rw [hsame hsorted.2, sortedObject_eq, hordered]

theorem hasValue (j : Json) : HasValue j := by
  induction j using parts_induction with
  | null =>
      intro node h
      obtain ⟨stop, rfl⟩ := h.null
      exact ⟨.null, rfl, fun _ => rfl⟩
  | bool b =>
      intro node h
      obtain ⟨stop, rfl⟩ := h.bool
      exact ⟨.bool b, rfl, fun _ => rfl⟩
  | int n =>
      intro node h
      obtain ⟨stop, rfl⟩ := h.int
      exact ⟨.int n, rfl, fun _ => rfl⟩
  | float f =>
      intro node h
      cases node <;> exact h.elim
  | str s =>
      intro node h
      obtain ⟨stop, rfl⟩ := h.str
      exact ⟨.str s, rfl, fun _ => rfl⟩
  | arr items hitems => exact hasValue_arr hitems
  | obj members hmembers => exact hasValue_obj hmembers

end RepoAudit.Json
