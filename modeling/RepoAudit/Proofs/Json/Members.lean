import RepoAudit.Json.Decode
import RepoAudit.Proofs.Except

/-!
# Members of an object

A value that can be read can also be skipped over, so in an object that is JSON throughout the
members nobody asked for do not matter.  A record with one mandatory field is then read from the
one member that has a name of the field, and only from an object that has one such member.
-/

namespace RepoAudit.Json

variable {α : Type} {j : Json} {start : Nat} {deep : Bool} {close : Except Break Nat}

@[simp]
theorem orRefuse_ok (a : α) : orRefuse (.ok a) = .ok a :=
  rfl

/-! ## Values that can be read -/

theorem Node.value_array {items : List Node} {exits : List Exit}
    (h : (Node.array start deep items exits close).value = .ok j) :
    deep = false ∧ (∃ values, Node.itemValues items = .ok values) ∧ ∃ stop, close = .ok stop := by
  rw [Node.value] at h
  cases deep with
  | true => exact absurd h throw_ne_ok
  | false =>
      simp only [Bool.false_eq_true, if_false] at h
      obtain ⟨values, hvalues, h⟩ := bind_eq_ok_iff.mp h
      obtain ⟨_, hclose, -⟩ := bind_eq_ok_iff.mp h
      obtain ⟨stop, hstop⟩ := discard_eq_ok_iff.mp hclose
      exact ⟨rfl, ⟨values, hvalues⟩, stop, mapError_eq_ok_iff.mp hstop⟩

theorem Node.value_object {members : List (Except Fault String × Nat × Node)}
    (h : (Node.object start deep members close).value = .ok j) :
    deep = false ∧ (∃ values, Node.memberValues members = .ok values) ∧
      ∃ stop, close = .ok stop := by
  rw [Node.value] at h
  cases deep with
  | true => exact absurd h throw_ne_ok
  | false =>
      simp only [Bool.false_eq_true, if_false] at h
      obtain ⟨values, hvalues, h⟩ := bind_eq_ok_iff.mp h
      obtain ⟨_, hclose, -⟩ := bind_eq_ok_iff.mp h
      obtain ⟨stop, hstop⟩ := discard_eq_ok_iff.mp hclose
      exact ⟨rfl, ⟨values, hvalues⟩, stop, mapError_eq_ok_iff.mp hstop⟩

theorem memberValues_cons {name : Except Fault String} {stand : Nat} {node : Node}
    {members : List (Except Fault String × Nat × Node)} {values : List (String × Json)}
    (h : Node.memberValues ((name, stand, node) :: members) = .ok values) :
    (∃ label, name = .ok label) ∧ (∃ value, node.value = .ok value) ∧
      ∃ rest, Node.memberValues members = .ok rest := by
  rw [Node.memberValues] at h
  obtain ⟨label, hname, h⟩ := bind_eq_ok_iff.mp h
  obtain ⟨value, hvalue, h⟩ := bind_eq_ok_iff.mp h
  obtain ⟨rest, hrest, -⟩ := bind_eq_ok_iff.mp h
  exact ⟨⟨label, hname⟩, ⟨value, hvalue⟩, ⟨rest, hrest⟩⟩

mutual

/-- A value that can be read can be skipped over. -/
theorem Node.skip_of_value : ∀ {node : Node} {j : Json}, node.value = .ok j → node.skip = .ok ()
  | .null _, _, _ | .bool .., _, _ | .int .., _, _ | .float .., _, _ | .text .., _, _ => rfl
  | .array _ _ items _ close, _, h => by
      obtain ⟨-, ⟨values, hvalues⟩, stop, rfl⟩ := Node.value_array h
      rw [Node.skip, Node.skipItems_of_values hvalues]
      rfl
  | .object _ _ members close, _, h => by
      obtain ⟨-, ⟨values, hvalues⟩, stop, rfl⟩ := Node.value_object h
      rw [Node.skip, Node.skipMembers_of_values hvalues]
      rfl
  | .broken _, _, h => by simp [Node.value] at h

theorem Node.skipItems_of_values :
    ∀ {items : List Node} {values : List Json}, Node.itemValues items = .ok values →
      Node.skipItems items = .ok ()
  | [], _, _ => rfl
  | item :: items, _, h => by
      rw [Node.itemValues] at h
      obtain ⟨value, hvalue, h⟩ := bind_eq_ok_iff.mp h
      obtain ⟨values, hvalues, -⟩ := bind_eq_ok_iff.mp h
      rw [Node.skipItems, Node.skip_of_value hvalue]
      exact Node.skipItems_of_values hvalues

theorem Node.skipMembers_of_values :
    ∀ {members : List (Except Fault String × Nat × Node)} {values : List (String × Json)},
      Node.memberValues members = .ok values → Node.skipMembers members = .ok ()
  | [], _, _ => rfl
  | (name, stand, node) :: members, _, h => by
      obtain ⟨-, ⟨value, hvalue⟩, rest, hrest⟩ := memberValues_cons h
      rw [Node.skipMembers, Node.skip_of_value hvalue]
      exact Node.skipMembers_of_values hrest

end

/-! ## The members with a name -/

/-- The values of the members that have one of the names, in their order. -/
def valuesNamed (names : List String) : List (Except Fault String × Nat × Node) → List Node
  | [] => []
  | (.ok name, _, node) :: members =>
      if name ∈ names then node :: valuesNamed names members else valuesNamed names members
  | (.error _, _, _) :: members => valuesNamed names members

/-- The values under one of the names in an object; any other node has none. -/
def Node.named (names : List String) : Node → List Node
  | .object _ _ members _ => valuesNamed names members
  | _ => []

def FieldRule.names (f : FieldRule α) : List String :=
  f.name :: f.aliases

variable {f : FieldRule α} {label : String} {stand : Nat} {node : Node} {a b : α}
  {seen : List String} {members : List (Except Fault String × Nat × Node)}
  {values : List (String × Json)}

theorem FieldRule.answersTo_iff : f.answersTo label = true ↔ label ∈ f.names := by
  rw [FieldRule.answersTo, FieldRule.names, Bool.or_eq_true, beq_iff_eq, List.contains_iff_mem,
    List.mem_cons, eq_comm]

theorem decodeMembers_cons_unknown (hname : label ∉ f.names) (hvalue : node.value = .ok j) :
    decodeMembers [f] seen a ((.ok label, stand, node) :: members) =
      decodeMembers [f] seen a members := by
  have hother : f.answersTo label = false := by
    rwa [← Bool.not_eq_true, FieldRule.answersTo_iff]
  simp [decodeMembers, hother, Node.skip_of_value hvalue, bind, Except.bind]

theorem decodeMembers_cons_known (hname : label ∈ f.names) :
    decodeMembers [f] [] a ((.ok label, stand, node) :: members) =
      f.read node a >>= fun b => decodeMembers [f] [f.name] b members := by
  simp [decodeMembers, FieldRule.answersTo_iff.mpr hname, bind, Except.bind]

theorem decodeMembers_cons_again (hname : label ∈ f.names) :
    decodeMembers [f] [f.name] a ((.ok label, stand, node) :: members) =
      .error (.placed ⟨.duplicateField f.name, stand⟩) := by
  simp [decodeMembers, FieldRule.answersTo_iff.mpr hname, bind, Except.bind, throw, throwThe,
    MonadExceptOf.throw]

/-- Once the field has been read, no other member may have one of its names. -/
theorem decodeMembers_rest (hvalues : Node.memberValues members = .ok values)
    {result : α × List String} :
    decodeMembers [f] [f.name] a members = .ok result ↔
      valuesNamed f.names members = [] ∧ result = (a, [f.name]) := by
  induction members generalizing values with
  | nil => simp [decodeMembers, valuesNamed, eq_comm]
  | cons first members ih =>
      obtain ⟨name, stand, node⟩ := first
      obtain ⟨⟨label, rfl⟩, ⟨j, hvalue⟩, rest, hrest⟩ := memberValues_cons hvalues
      by_cases hname : label ∈ f.names
      · rw [decodeMembers_cons_again hname]
        simp [valuesNamed, hname]
      · rw [decodeMembers_cons_unknown hname hvalue, ih hrest]
        simp [valuesNamed, hname]

/-- The one field of a record is read from the one member that has a name of the field. -/
theorem decodeMembers_iff (hvalues : Node.memberValues members = .ok values) :
    (∃ seen, decodeMembers [f] [] a members = .ok (b, seen) ∧ f.name ∈ seen) ↔
      ∃ node, valuesNamed f.names members = [node] ∧ f.read node a = .ok b := by
  induction members generalizing values with
  | nil => simp [decodeMembers, valuesNamed]
  | cons first members ih =>
      obtain ⟨name, stand, node⟩ := first
      obtain ⟨⟨label, rfl⟩, ⟨j, hvalue⟩, rest, hrest⟩ := memberValues_cons hvalues
      by_cases hname : label ∈ f.names
      · simp only [decodeMembers_cons_known hname, bind_eq_ok_iff, decodeMembers_rest hrest,
          valuesNamed, hname, if_true, List.cons.injEq]
        constructor
        · rintro ⟨seen, ⟨c, hread, hnone, heq⟩, -⟩
          obtain ⟨rfl, rfl⟩ := Prod.mk.inj heq
          exact ⟨node, ⟨rfl, hnone⟩, hread⟩
        · rintro ⟨_, ⟨rfl, hnone⟩, hread⟩
          exact ⟨[f.name], ⟨b, hread, hnone, rfl⟩, List.mem_cons_self⟩
      · rw [decodeMembers_cons_unknown hname hvalue, ih hrest]
        simp [valuesNamed, hname]

theorem wrongType_ne_ok {expected : String} :
    (wrongType expected node : Except Refusal α) ≠ .ok a := by
  rw [wrongType]
  intro h
  obtain ⟨_, -, h⟩ := bind_eq_ok_iff.mp h
  cases h

/-- A record with one mandatory field is read from an object with one member for it. -/
theorem decodeObject_mandatory_iff (hvalue : node.value = .ok j) (hrequired : f.required = true) :
    decodeObject [f] a node = .ok b ↔
      ∃ value, node.named f.names = [value] ∧ f.read value a = .ok b := by
  cases node with
  | object start deep members close =>
      obtain ⟨rfl, ⟨values, hvalues⟩, stop, rfl⟩ := Node.value_object hvalue
      rw [Node.named, ← decodeMembers_iff hvalues]
      have hmissing : ∀ seen : List String,
          (([f].find? fun f => f.required && !seen.contains f.name) = none) ↔ f.name ∈ seen := by
        simp [hrequired]
      simp only [decodeObject, decodeRecord, Bool.false_eq_true, if_false, bind_eq_ok_iff,
        Except.mapError, orRefuse, Prod.exists, Except.ok.injEq, exists_eq_left']
      constructor
      · rintro ⟨c, seen, hread, hfound⟩
        cases hfind : [f].find? fun f => f.required && !seen.contains f.name with
        | none =>
            simp only [hfind, pure, Except.pure, Except.ok.injEq] at hfound
            exact ⟨seen, hfound ▸ hread, (hmissing seen).mp hfind⟩
        | some missing =>
            rw [hfind] at hfound
            cases hfound
      · rintro ⟨seen, hread, hseen⟩
        refine ⟨b, seen, hread, ?_⟩
        rw [(hmissing seen).mpr hseen]
        rfl
  | _ => simp [Node.named, decodeObject, wrongType_ne_ok]

/-! ## Lists, variants and whole texts -/

theorem decodeItems_iff {decode : Decoder α} {items : List Node} {exits : List Exit}
    {values : List α} :
    decodeItems decode items exits = .ok values ↔
      List.Forall₂ (fun item value => decode item = .ok value) items values := by
  induction items generalizing values exits with
  | nil => simp [decodeItems, eq_comm]
  | cons item items ih =>
      simp only [decodeItems, bind_eq_ok_iff, mapError_eq_ok_iff, ih, List.forall₂_cons_left_iff,
        pure, Except.pure, Except.ok.injEq]
      constructor
      · rintro ⟨value, hvalue, rest, hrest, rfl⟩
        exact ⟨value, rest, hvalue, hrest, rfl⟩
      · rintro ⟨value, rest, hvalue, hrest, rfl⟩
        exact ⟨value, hvalue, rest, hrest, rfl⟩

theorem decodeVariant_iff {type : String} {forms : List (Decoder α)} {a : α}
    (hvalue : node.value = .ok j) :
    decodeVariant type forms node = .ok a ↔
      (forms.findSome? fun form => (form node).toOption) = some a := by
  rw [decodeVariant, hvalue, bind_eq_ok_iff]
  cases forms.findSome? fun form => (form node).toOption with
  | none => simp [throw_ne_ok]
  | some b => simp [discard_eq_ok_iff, pure_eq_ok_iff]

theorem ofText_eq_ok_iff {t : Text} :
    ofText t = .ok j ↔
      (Document.ofText t).root.value = .ok j ∧ (Document.ofText t).trailing = none := by
  rw [ofText, bind_eq_ok_iff]
  cases (Document.ofText t).trailing with
  | none => simp [pure_eq_ok_iff]
  | some fault => simp [throw_ne_ok]

theorem decodeWhole_eq_ok_iff {t : Text} {decode : Decoder α} {a : α} :
    decodeWhole decode t = .ok a ↔
      decode (Document.ofText t).root = .ok a ∧ (Document.ofText t).trailing = none := by
  rw [decodeWhole, bind_eq_ok_iff]
  cases (Document.ofText t).trailing with
  | none => simp [pure_eq_ok_iff]
  | some fault => simp [throw_ne_ok]

end RepoAudit.Json
