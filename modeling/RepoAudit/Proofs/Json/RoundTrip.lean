import RepoAudit.Json.Decode
import RepoAudit.Proofs.Json.Integers
import RepoAudit.Proofs.Json.Members
import Mathlib

/-!
# Decoders and what is written

A value comes through a text when two things hold.  A decoder takes every node that spells what is
written of the value, and what is written is plain enough to be read back.  Both are shown part by
part: the first along the fields of a record, the second for whatever a decoder gives.
-/

namespace RepoAudit.Json

variable {α β : Type} {decode : Decoder α} {encode : α → Json} {node : Node} {depth : Nat}
  {f : FieldRule α} {fields : List (FieldRule α)} {members : List (String × Json)}
  {empty a b c : α} {P Q : α → Prop}

/-! ## Taking what is written -/

/-- Every node that spells what is written of the value is decoded as the value. -/
def Reads (decode : Decoder α) (encode : α → Json) (a : α) : Prop :=
  ∀ ⦃node : Node⦄, Spells (encode a) node → decode node = .ok a

theorem reads_nat (n : Nat) : Reads decodeNat .nat n := by
  intro node h
  obtain ⟨stop, rfl⟩ := h.int
  simp [decodeNat]

theorem reads_text (s : String) : Reads decodeText .str s := by
  intro node h
  obtain ⟨stop, rfl⟩ := h.str
  rfl

theorem reads_value {j : Json} (hsorted : Sorted j) : Reads decodeValue id j := by
  intro node h
  obtain ⟨k, hvalue, hsame⟩ := hasValue j h
  rw [decodeValue, hvalue, hsame hsorted, orRefuse_ok]

theorem eq_null_of_spells {j : Json} {stop : Nat} (h : Spells j (.null stop)) : j = .null := by
  cases j with
  | null => rfl
  | _ => exact h.elim

theorem decodeOption_some (hnode : ∀ stop, node ≠ .null stop) :
    decodeOption decode node = (decode node).map some := by
  cases node with
  | null stop => exact absurd rfl (hnode stop)
  | _ => rfl

theorem reads_option {value : Option α}
    (h : ∀ a ∈ value, encode a ≠ .null ∧ Reads decode encode a) :
    Reads (decodeOption decode) (.ofOption encode) value := by
  intro node hspells
  cases value with
  | none =>
      obtain ⟨stop, rfl⟩ := hspells.null
      rfl
  | some a =>
      obtain ⟨hencode, hreads⟩ := h a rfl
      have hnode : ∀ stop, node ≠ .null stop := by
        rintro stop rfl
        exact hencode (eq_null_of_spells hspells)
      rw [decodeOption_some hnode, hreads hspells]
      rfl

theorem decoded_of_spells {values : List α} {nodes : List Node}
    (h : ∀ a ∈ values, Reads decode encode a)
    (hspells : List.Forall₂ Spells (values.map encode) nodes) :
    List.Forall₂ (fun item value => decode item = .ok value) nodes values := by
  induction values generalizing nodes with
  | nil =>
      cases hspells
      exact .nil
  | cons a values ih =>
      rw [List.forall_mem_cons] at h
      cases hspells with
      | cons hnode hnodes => exact .cons (h.1 hnode) (ih h.2 hnodes)

theorem reads_list {values : List α} (h : ∀ a ∈ values, Reads decode encode a) :
    Reads (decodeList decode) (.list encode) values := by
  intro node hspells
  obtain ⟨start, nodes, exits, stop, rfl, hitems⟩ := hspells.arr
  have hvalues : decodeItems decode nodes exits = .ok values :=
    decodeItems_iff.mpr (decoded_of_spells h hitems.forall₂)
  rw [decodeList, hvalues]
  rfl

/-! ## Records -/

/-- Members read one after another, each by the next field, make one record from another. -/
inductive Fills : List (FieldRule α) → List (String × Json) → α → α → Prop
  | nil (a : α) : Fills [] [] a a
  | cons {f : FieldRule α} {fields : List (FieldRule α)} {j : Json}
      {members : List (String × Json)} {a b c : α}
      (hread : ∀ ⦃node : Node⦄, Spells j node → f.read node a = .ok b)
      (hrest : Fills fields members b c) : Fills (f :: fields) ((f.name, j) :: members) a c

theorem Fills.field {name : String} {put : β → α → α} {decode : Decoder β} {encode : β → Json}
    {v : β} (hreads : Reads decode encode v) (hrest : Fills fields members (put v a) b) :
    Fills (field name decode put :: fields) ((name, encode v) :: members) a b := by
  refine .cons (fun node h => ?_) hrest
  change (decode node).map (put · a) = .ok (put v a)
  rw [hreads h]
  rfl

theorem Fills.mandatory (h : Fills (f :: fields) members a b) :
    Fills (f.mandatory :: fields) members a b := by
  cases h with
  | cons hread hrest => exact .cons hread hrest

theorem Fills.alsoCalled {aliases : List String} (h : Fills (f :: fields) members a b) :
    Fills (f.alsoCalled aliases :: fields) members a b := by
  cases h with
  | cons hread hrest => exact .cons hread hrest

/-- No name of a field is the one under which a later field is written. -/
def Distinct (fields : List (FieldRule α)) : Prop :=
  fields.Pairwise fun f g => f.answersTo g.name = false

instance : Decidable (Distinct fields) :=
  inferInstanceAs (Decidable (fields.Pairwise fun f g => f.answersTo g.name = false))

theorem answersTo_self (f : FieldRule α) : f.answersTo f.name = true := by
  simp [FieldRule.answersTo]

theorem decodeMembers_fills (before : List (FieldRule α))
    {nodes : List (Except Fault String × Nat × Node)} (hfills : Fills fields members a b)
    (hdistinct : Distinct (before ++ fields)) (hspells : SpellMembers members nodes) :
    decodeMembers (before ++ fields) (before.map FieldRule.name).reverse a nodes =
      .ok (b, ((before ++ fields).map FieldRule.name).reverse) := by
  induction hfills generalizing before nodes with
  | nil a =>
      cases nodes with
      | nil => simp [decodeMembers]
      | cons node nodes => exact hspells.elim
  | @cons f fields j members a b c hread hrest ih =>
      cases nodes with
      | nil => exact hspells.elim
      | cons node nodes =>
          obtain ⟨_, stand, node⟩ := node
          obtain ⟨rfl, hnode, hnodes⟩ := hspells
          have hearlier : ∀ g ∈ before, g.answersTo f.name = false := fun g hg =>
            (List.pairwise_append.mp hdistinct).2.2 g hg f List.mem_cons_self
          have hfind : (before ++ f :: fields).find? (·.answersTo f.name) = some f := by
            rw [List.find?_append, List.find?_eq_none.mpr (by simpa using hearlier)]
            simp [answersTo_self f]
          have hunseen : f.name ∉ before.map FieldRule.name := by
            rintro hmem
            obtain ⟨g, hg, hname⟩ := List.mem_map.mp hmem
            have hself := answersTo_self g
            rw [hname, hearlier g hg] at hself
            cases hself
          have hnext := ih (before ++ [f]) (by simpa using hdistinct) hnodes
          rw [decodeMembers]
          simpa [hfind, hunseen, hread hnode, bind, Except.bind] using hnext

/-- A record is taken when each of its fields takes its member. -/
theorem reads_record {type : String} (hdistinct : Distinct fields)
    (hfills : Fills fields members empty a) (hencode : encode a = .obj members) :
    Reads (decodeRecord type fields empty) encode a := by
  intro node h
  rw [hencode] at h
  obtain ⟨start, nodes, stop, rfl, hspells⟩ := h.obj
  have hmembers := decodeMembers_fills [] hfills hdistinct hspells
  have hall : (fields.find? fun f =>
      f.required && !((fields.map FieldRule.name).reverse.contains f.name)) = none := by
    rw [List.find?_eq_none]
    intro f hf
    have hseen : f.name ∈ fields.map FieldRule.name := List.mem_map_of_mem hf
    simp [hseen]
  rw [List.nil_append, List.map_nil, List.reverse_nil] at hmembers
  rw [decodeRecord, hmembers]
  simp only [Bool.false_eq_true, if_false, Except.mapError, orRefuse, bind, Except.bind]
  split
  next f hfound =>
    rw [hall] at hfound
    cases hfound
  next => rfl

theorem reads_object (hdistinct : Distinct fields) (hfills : Fills fields members empty a)
    (hencode : encode a = .obj members) : Reads (decodeObject fields empty) encode a := by
  intro node h
  have hrecord : Reads (decodeRecord "" fields empty) encode a :=
    reads_record hdistinct hfills hencode
  have hobject := h
  rw [hencode] at hobject
  obtain ⟨start, nodes, stop, rfl, -⟩ := hobject.obj
  exact hrecord h

/-! ## What decoders give -/

/-- Whatever a node of a text of integers is decoded to has the property. -/
def Gives (decode : Decoder α) (depth : Nat) (P : α → Prop) : Prop :=
  ∀ ⦃node : Node⦄ ⦃a : α⦄, node.Fits depth → decode node = .ok a → P a

/-- The property of a record is kept when the field is read from such a node. -/
def FieldRule.Keeps (f : FieldRule α) (depth : Nat) (P : α → Prop) : Prop :=
  ∀ ⦃node : Node⦄ ⦃a b : α⦄, node.Fits depth → P a → f.read node a = .ok b → P b

theorem Gives.imp (h : Gives decode depth P) (himp : ∀ a, P a → Q a) : Gives decode depth Q :=
  fun _ _ hfits hdecode => himp _ (h hfits hdecode)

theorem gives_nat : Gives decodeNat depth (· < 2 ^ 64) := by
  intro node n hfits h
  cases node with
  | int m stop =>
      rw [decodeNat] at h
      split at h
      · obtain rfl := Except.ok.inj h
        have hsmall : m < 2 ^ 64 := hfits.2
        omega
      · cases h
  | _ => exact absurd h wrongType_ne_ok

theorem gives_option (h : Gives decode depth P) :
    Gives (decodeOption decode) depth fun value => ∀ a ∈ value, P a := by
  intro node value hfits hdecode
  by_cases hnode : ∃ stop, node = .null stop
  · obtain ⟨stop, rfl⟩ := hnode
    obtain rfl := Except.ok.inj hdecode
    simp
  · rw [decodeOption_some (not_exists.mp hnode)] at hdecode
    obtain ⟨a, ha, rfl⟩ := map_eq_ok_iff.mp hdecode
    simpa using h hfits ha

theorem exists_null_of_value (h : node.value = .ok .null) : ∃ stop, node = .null stop := by
  cases node with
  | null stop => exact ⟨stop, rfl⟩
  | float f stop =>
      obtain ⟨_, -, h⟩ := map_eq_ok_iff.mp h
      cases h
  | text s stop =>
      obtain ⟨_, -, h⟩ := map_eq_ok_iff.mp h
      cases h
  | array start deep items exits close =>
      obtain ⟨rfl, ⟨values, hvalues⟩, stop, rfl⟩ := Node.value_array h
      rw [Node.value, hvalues] at h
      cases h
  | object start deep members close =>
      obtain ⟨rfl, ⟨values, hvalues⟩, stop, rfl⟩ := Node.value_object h
      rw [Node.value, hvalues] at h
      cases h
  | _ => cases h

/-- A value in an optional place is not `null`. -/
theorem gives_value : Gives (decodeOption decodeValue) depth fun value =>
    ∀ j ∈ value, j ≠ .null ∧ Plain depth j ∧ Sorted j := by
  intro node value hfits hdecode
  by_cases hnode : ∃ stop, node = .null stop
  · obtain ⟨stop, rfl⟩ := hnode
    obtain rfl := Except.ok.inj hdecode
    simp
  · rw [decodeOption_some (not_exists.mp hnode)] at hdecode
    obtain ⟨j, hj, rfl⟩ := map_eq_ok_iff.mp hdecode
    have hvalue : node.value = .ok j := mapError_eq_ok_iff.mp hj
    have hnotNull : j ≠ .null := by
      rintro rfl
      exact hnode (exists_null_of_value hvalue)
    simpa using ⟨hnotNull, plain_of_value hfits hvalue, sorted_of_value hvalue⟩

theorem gives_items {items : List Node} {values : List α} (h : Gives decode depth P)
    (hfits : FitItems depth items)
    (hvalues : List.Forall₂ (fun item value => decode item = .ok value) items values) :
    ∀ a ∈ values, P a := by
  induction hvalues with
  | nil => simp
  | cons hitem _ ih => exact List.forall_mem_cons.mpr ⟨h hfits.1 hitem, ih hfits.2⟩

theorem gives_list (h : Gives decode (depth + 1) P) :
    Gives (decodeList decode) depth fun values => ∀ a ∈ values, P a := by
  intro node values hfits hdecode
  cases node with
  | array start deep items exits close =>
      rw [decodeList, guard_eq_ok_iff] at hdecode
      obtain ⟨found, hfound, hrest⟩ := bind_eq_ok_iff.mp hdecode.2
      obtain ⟨-, -, hsame⟩ := bind_eq_ok_iff.mp hrest
      obtain rfl := pure_eq_ok_iff.mp hsame
      exact gives_items h hfits.2 (decodeItems_iff.mp hfound)
  | _ => exact absurd hdecode wrongType_ne_ok

theorem keeps_field {name : String} {put : α → β → β} {P : β → Prop} (h : Gives decode depth Q)
    (hput : ∀ v b, Q v → P b → P (put v b)) : (field name decode put).Keeps depth P := by
  intro node b c hfits hb hread
  obtain ⟨v, hv, rfl⟩ := map_eq_ok_iff.mp hread
  exact hput v b (h hfits hv) hb

/-- A field the property does not depend on. -/
theorem keeps_other {name : String} {put : α → β → β} {P : β → Prop}
    (hput : ∀ v b, P b → P (put v b)) : (field name decode put).Keeps depth P :=
  keeps_field (show Gives decode depth fun _ => True from fun _ _ _ _ => trivial)
    fun v b _ => hput v b

theorem FieldRule.Keeps.mandatory (h : f.Keeps depth P) : f.mandatory.Keeps depth P :=
  h

theorem FieldRule.Keeps.alsoCalled {aliases : List String} (h : f.Keeps depth P) :
    (f.alsoCalled aliases).Keeps depth P :=
  h

theorem keeps_members {seen seen' : List String}
    {nodes : List (Except Fault String × Nat × Node)} (hfields : ∀ f ∈ fields, f.Keeps depth P)
    (hfits : FitMembers depth nodes) (ha : P a)
    (h : decodeMembers fields seen a nodes = .ok (b, seen')) : P b := by
  induction nodes generalizing seen a with
  | nil =>
      obtain ⟨rfl, -⟩ := Prod.mk.inj (Except.ok.inj h)
      exact ha
  | cons first nodes ih =>
      obtain ⟨name, stand, node⟩ := first
      rw [decodeMembers] at h
      obtain ⟨label, -, h⟩ := bind_eq_ok_iff.mp h
      split at h
      next =>
        obtain ⟨-, -, h⟩ := bind_eq_ok_iff.mp h
        exact ih hfits.2 ha h
      next f hfind =>
        obtain ⟨-, h⟩ := guard_eq_ok_iff.mp h
        obtain ⟨c, hread, h⟩ := bind_eq_ok_iff.mp h
        exact ih hfits.2 (hfields f (List.mem_of_find?_eq_some hfind) hfits.1 ha hread) h

theorem keeps_positions {expected : String} {close : Except Break Nat} {index : Nat}
    {items : List Node} {last : Option Exit} {exits : List Exit}
    (hfields : ∀ f ∈ fields, f.Keeps depth P) (hfits : FitItems depth items) (ha : P a)
    (h : decodePositions expected close index fields a items last exits = .ok b) : P b := by
  induction fields generalizing index a items last exits with
  | nil =>
      obtain rfl : a = b := by
        simp only [decodePositions] at h
        split at h
        · exact pure_eq_ok_iff.mp h
        · split at h
          · exact pure_eq_ok_iff.mp h
          · cases h
      exact ha
  | cons f fields ih =>
      rw [List.forall_mem_cons] at hfields
      cases items with
      | nil =>
          rw [decodePositions] at h
          obtain ⟨stop, -, h⟩ := bind_eq_ok_iff.mp h
          obtain ⟨-, h⟩ := guard_eq_ok_iff.mp h
          exact ih hfields.2 hfits ha h
      | cons item items =>
          rw [decodePositions] at h
          obtain ⟨c, hread, h⟩ := bind_eq_ok_iff.mp h
          exact ih hfields.2 hfits.2 (hfields.1 hfits.1 ha (mapError_eq_ok_iff.mp hread)) h

/-- A record has the property that the empty one has and every field keeps, whether it stands as an
object or as a list. -/
theorem gives_record {type : String} (hempty : P empty)
    (hfields : fields.Forall fun f => f.Keeps (depth + 1) P) :
    Gives (decodeRecord type fields empty) depth P := by
  intro node a hfits hdecode
  rw [List.forall_iff_forall_mem] at hfields
  cases node with
  | object start deep nodes close =>
      rw [decodeRecord] at hdecode
      obtain ⟨-, hdecode⟩ := guard_eq_ok_iff.mp hdecode
      obtain ⟨⟨b, seen⟩, hmembers, hdecode⟩ := bind_eq_ok_iff.mp hdecode
      obtain ⟨stop, -, hdecode⟩ := bind_eq_ok_iff.mp hdecode
      split at hdecode
      · cases hdecode
      · obtain rfl := pure_eq_ok_iff.mp hdecode
        exact keeps_members hfields hfits.2 hempty hmembers
  | array start deep items exits close =>
      rw [decodeRecord] at hdecode
      obtain ⟨-, hdecode⟩ := guard_eq_ok_iff.mp hdecode
      exact keeps_positions hfields hfits.2 hempty hdecode
  | _ => exact absurd hdecode wrongType_ne_ok

theorem gives_object (hempty : P empty) (hfields : fields.Forall fun f => f.Keeps (depth + 1) P) :
    Gives (decodeObject fields empty) depth P := by
  intro node a hfits hdecode
  cases node with
  | object start deep nodes close =>
      have hrecord : Gives (decodeRecord "" fields empty) depth P := gives_record hempty hfields
      exact hrecord hfits hdecode
  | _ => exact absurd hdecode wrongType_ne_ok

theorem gives_variant {type : String} {forms : List (Decoder α)}
    (hforms : ∀ form ∈ forms, Gives form depth P) : Gives (decodeVariant type forms) depth P := by
  intro node a hfits hdecode
  rw [decodeVariant] at hdecode
  obtain ⟨-, -, hdecode⟩ := bind_eq_ok_iff.mp hdecode
  split at hdecode
  next b hfound =>
    obtain rfl := pure_eq_ok_iff.mp hdecode
    obtain ⟨form, hform, hb⟩ := List.exists_of_findSome?_eq_some hfound
    exact hforms form hform hfits (toOption_eq_some_iff.mp hb)
  next => cases hdecode

/-! ## Through a text -/

theorem plain_str (s : String) : Plain depth (.str s) := by
  rw [Plain]
  trivial

theorem plain_nat {n : Nat} (h : n < 2 ^ 64) : Plain depth (.nat n) := by
  rw [Json.nat, Plain]
  omega

theorem plain_ofOption_iff {value : Option α} :
    Plain depth (.ofOption encode value) ↔ ∀ a ∈ value, Plain depth (encode a) := by
  cases value with
  | none => simp [Json.ofOption, Plain]
  | some a => simp [Json.ofOption]

theorem plain_list_iff {values : List α} :
    Plain depth (.list encode values) ↔
      depth < maxDepth ∧ ∀ a ∈ values, Plain (depth + 1) (encode a) := by
  rw [Json.list, Plain, plainItems_iff, List.forall_mem_map]

theorem plain_obj_iff :
    Plain depth (.obj members) ↔
      depth < maxDepth ∧ ∀ member ∈ members, Plain (depth + 1) member.2 := by
  rw [Plain, plainMembers_iff]

theorem decodeWhole_printed {print : Json → String} (hprint : print = compact ∨ print = pretty)
    (hplain : Plain 0 (encode a)) (hreads : Reads decode encode a) :
    decodeWhole decode (print (encode a)).toList = .ok a := by
  obtain ⟨hspells, hend⟩ := ofText_writing (writing_of_printed hplain hprint) hplain
  exact decodeWhole_eq_ok_iff.mpr ⟨hreads hspells, hend⟩

end RepoAudit.Json
