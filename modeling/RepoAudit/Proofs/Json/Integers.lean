import RepoAudit.Proofs.Json.Members
import RepoAudit.Proofs.Json.Sorted
import Mathlib

/-!
# Texts of integers

Lists and objects of a text are marked as deep by the number of those around them.  When all numbers
of the text are integers of 64 bits, what is read from it can be printed and read again.
-/

namespace RepoAudit.Json

mutual

/-- Every number in the value is an integer of 64 bits. -/
def Node.integral : Node → Bool
  | .int n _ => -2 ^ 63 ≤ n && n < 2 ^ 64
  | .float .. => false
  | .array _ _ items _ _ => Node.integralItems items
  | .object _ _ members _ => Node.integralMembers members
  | .null _ | .bool .. | .text .. | .broken _ => true

def Node.integralItems : List Node → Bool
  | [] => true
  | item :: items => item.integral && Node.integralItems items

def Node.integralMembers : List (Except Fault String × Nat × Node) → Bool
  | [] => true
  | (_, _, value) :: members => value.integral && Node.integralMembers members

end

mutual

/-- The value can stand in this many others in a text of integers. -/
def Node.Fits : (depth : Nat) → Node → Prop
  | _, .int n _ => -2 ^ 63 ≤ n ∧ n < 2 ^ 64
  | _, .float .. => False
  | depth, .array _ deep items _ _ => (deep = false → depth < maxDepth) ∧ FitItems (depth + 1) items
  | depth, .object _ deep members _ =>
      (deep = false → depth < maxDepth) ∧ FitMembers (depth + 1) members
  | _, .null _ | _, .bool .. | _, .text .. | _, .broken _ => True

def FitItems : (depth : Nat) → List Node → Prop
  | _, [] => True
  | depth, item :: items => item.Fits depth ∧ FitItems depth items

def FitMembers : (depth : Nat) → List (Except Fault String × Nat × Node) → Prop
  | _, [] => True
  | depth, (_, _, value) :: members => value.Fits depth ∧ FitMembers depth members

end

variable {fuel depth : Nat} {node : Node} {r : Rest}

/-! ## Reading a text of integers -/

/-- The value fits into the text when the text is one of integers. -/
def Node.Placed (depth : Nat) (node : Node) : Prop :=
  node.integral = true → node.Fits depth

def PlacedItems (depth : Nat) (items : List Node) : Prop :=
  Node.integralItems items = true → FitItems depth items

def PlacedMembers (depth : Nat) (members : List (Except Fault String × Nat × Node)) : Prop :=
  Node.integralMembers members = true → FitMembers depth members

theorem PlacedItems.cons {items : List Node} (hnode : node.Placed depth)
    (hitems : PlacedItems depth items) : PlacedItems depth (node :: items) := by
  intro h
  rw [Node.integralItems, Bool.and_eq_true] at h
  exact ⟨hnode h.1, hitems h.2⟩

theorem PlacedMembers.cons {members : List (Except Fault String × Nat × Node)}
    (name : Except Fault String) (stand : Nat) (hnode : node.Placed depth)
    (hmembers : PlacedMembers depth members) :
    PlacedMembers depth ((name, stand, node) :: members) := by
  intro h
  rw [Node.integralMembers, Bool.and_eq_true] at h
  exact ⟨hnode h.1, hmembers h.2⟩

def Node.isLeaf : Node → Bool
  | .array .. | .object .. => false
  | _ => true

theorem Node.placed_of_isLeaf (hleaf : node.isLeaf = true) : node.Placed depth := by
  intro h
  cases node with
  | int n stop =>
      rw [Node.integral, Bool.and_eq_true, decide_eq_true_iff, decide_eq_true_iff] at h
      exact h
  | float f stop => simp [Node.integral] at h
  | array start deep items exits close => simp [Node.isLeaf] at hleaf
  | object start deep members close => simp [Node.isLeaf] at hleaf
  | _ => trivial

theorem isLeaf_readName (letters : Text) {leaf : Nat → Node} (hleaf : ∀ n, (leaf n).isLeaf = true)
    (r : Rest) : (readName letters leaf r).1.isLeaf = true := by
  induction letters generalizing r with
  | nil => simpa [readName] using hleaf r.offset
  | cons letter letters ih =>
      rw [readName.eq_def]
      split
      · exact hleaf r.offset
      · rfl
      next heq hrest =>
        obtain ⟨rfl, rfl⟩ := List.cons.inj heq
        split
        · exact ih _
        · rfl

theorem isLeaf_floatNode (negative : Bool) (significand : Nat) (exponent : Int) (stop : Nat) :
    (floatNode negative significand exponent stop).isLeaf = true := by
  rw [floatNode]
  split <;> rfl

theorem isLeaf_readExponent (negative : Bool) (significand : Nat) (exponent : Int) (r : Rest) :
    (readExponent negative significand exponent r).1.isLeaf = true := by
  fun_cases readExponent negative significand exponent r with
  | case1 => rfl
  | case2 _ _ _ _ _ _ _ _ _ _ node =>
      dsimp only [node]
      split
      · exact isLeaf_floatNode ..
      · split <;> rfl
  | case3 => exact isLeaf_floatNode ..
  | case4 => exact isLeaf_floatNode ..

theorem isLeaf_readFraction (negative : Bool) (significand : Nat) (exponent : Int) (r : Rest) :
    (readFraction negative significand exponent r).1.isLeaf = true := by
  fun_cases readFraction negative significand exponent r with
  | case1 => rfl
  | case2 => exact isLeaf_readExponent ..
  | case3 => exact isLeaf_readExponent ..

theorem isLeaf_readNumber (negative : Bool) (r : Rest) :
    (readNumber negative r).1.isLeaf = true := by
  fun_cases readNumber negative r with
  | case1 => rfl
  | case2 => rfl
  | case3 _ _ _ _ _ _ _ node =>
      dsimp only [node]
      split
      · rfl
      · split <;> rfl
  | case4 => exact isLeaf_readFraction ..

/-- A step into a list or an object adds one to the depth it is marked by. -/
theorem placed_readValue
    (hitems : ∀ r, PlacedItems (depth + 1) (readItems fuel (depth + 1) true r).1)
    (hmembers : ∀ r, PlacedMembers (depth + 1) (readMembers fuel (depth + 1) true r).1) (r : Rest) :
    (readValue (fuel + 1) depth r).1.Placed depth := by
  have hdeep : decide (128 ≤ depth + 1) = false → depth < maxDepth := by
    rw [maxDepth, decide_eq_false_iff_not]
    omega
  rw [readValue.eq_def]
  dsimp only
  split
  · exact Node.placed_of_isLeaf (isLeaf_readName _ (fun _ => rfl) _)
  · exact Node.placed_of_isLeaf (isLeaf_readName _ (fun _ => rfl) _)
  · exact Node.placed_of_isLeaf (isLeaf_readName _ (fun _ => rfl) _)
  · exact Node.placed_of_isLeaf (isLeaf_readNumber ..)
  · split
    · exact Node.placed_of_isLeaf rfl
    · exact Node.placed_of_isLeaf rfl
  · exact fun h => ⟨hdeep, hitems _ h⟩
  · exact fun h => ⟨hdeep, hmembers _ h⟩
  · split
    · exact Node.placed_of_isLeaf (isLeaf_readNumber ..)
    · exact Node.placed_of_isLeaf rfl
  · exact Node.placed_of_isLeaf rfl

theorem placed_readItems (hvalue : ∀ r, (readValue fuel depth r).1.Placed depth)
    (hitems : ∀ r, PlacedItems depth (readItems fuel depth false r).1) (first : Bool) (r : Rest) :
    PlacedItems depth (readItems (fuel + 1) depth first r).1 := by
  rw [readItems.eq_def]
  dsimp only
  split
  · exact fun _ => trivial
  · exact fun _ => trivial
  · split
    · exact .cons (hvalue _) fun _ => trivial
    · exact .cons (hvalue _) (hitems _)

theorem placed_readMembers (hvalue : ∀ r, (readValue fuel depth r).1.Placed depth)
    (hmembers : ∀ r, PlacedMembers depth (readMembers fuel depth false r).1) (first : Bool)
    (r : Rest) : PlacedMembers depth (readMembers (fuel + 1) depth first r).1 := by
  rw [readMembers.eq_def]
  dsimp only
  split
  · exact fun _ => trivial
  · exact fun _ => trivial
  · split
    · exact fun _ => trivial
    · split
      · split
        · exact .cons _ _ (hvalue _) fun _ => trivial
        · exact .cons _ _ (hvalue _) (hmembers _)
      · exact .cons _ _ (Node.placed_of_isLeaf rfl) fun _ => trivial

theorem placed_read (fuel : Nat) :
    (∀ depth r, (readValue fuel depth r).1.Placed depth) ∧
      (∀ depth first r, PlacedItems depth (readItems fuel depth first r).1) ∧
      ∀ depth first r, PlacedMembers depth (readMembers fuel depth first r).1 := by
  induction fuel with
  | zero => exact ⟨fun _ _ _ => trivial, fun _ _ _ _ => trivial, fun _ _ _ _ => trivial⟩
  | succ fuel ih =>
      obtain ⟨hvalue, hitems, hmembers⟩ := ih
      exact ⟨fun depth => placed_readValue (hitems _ _) (hmembers _ _),
        fun depth => placed_readItems (hvalue depth) (hitems depth _),
        fun depth => placed_readMembers (hvalue depth) (hmembers depth _)⟩

theorem ofText_root (t : Text) :
    (Document.ofText t).root = (readValue (2 * t.length + 2) 0 ⟨t, 0⟩).1 := by
  rw [Document.ofText]
  dsimp only
  split <;> rfl

theorem fits_ofText {t : Text} (h : (Document.ofText t).root.integral = true) :
    (Document.ofText t).root.Fits 0 := by
  rw [ofText_root] at h ⊢
  exact (placed_read _).1 0 _ h

/-! ## Values of a text of integers -/

mutual

/-- A value that fits into a text of integers can be printed and read again. -/
theorem plain_of_value : ∀ {node : Node} {depth : Nat} {j : Json}, node.Fits depth →
    node.value = .ok j → Plain depth j
  | .null _, _, _, _, h | .bool .., _, _, _, h => by
      obtain rfl := Except.ok.inj h
      trivial
  | .int _ _, _, _, hfits, h => by
      obtain rfl := Except.ok.inj h
      exact hfits
  | .float .., _, _, hfits, _ => hfits.elim
  | .text s _, _, _, _, h => by
      obtain ⟨_, -, rfl⟩ := map_eq_ok_iff.mp h
      trivial
  | .array start deep items exits close, depth, j, hfits, h => by
      obtain ⟨rfl, ⟨values, hvalues⟩, stop, rfl⟩ := Node.value_array h
      rw [Node.value, hvalues] at h
      obtain rfl := Except.ok.inj h
      exact ⟨hfits.1 rfl, plain_of_itemValues hfits.2 hvalues⟩
  | .object start deep members close, depth, j, hfits, h => by
      obtain ⟨rfl, ⟨values, hvalues⟩, stop, rfl⟩ := Node.value_object h
      rw [Node.value, hvalues] at h
      obtain rfl := Except.ok.inj h
      have hplain := plainMembers_iff.mp (plain_of_memberValues hfits.2 hvalues)
      refine ⟨hfits.1 rfl, plainMembers_iff.mpr fun member hmember => ?_⟩
      exact hplain member ((mem_orderedFrom hmember).resolve_left List.not_mem_nil)
  | .broken _, _, _, _, h => by cases h

theorem plain_of_itemValues : ∀ {items : List Node} {depth : Nat} {values : List Json},
    FitItems depth items → Node.itemValues items = .ok values → PlainItems depth values
  | [], _, _, _, h => by
      obtain rfl := Except.ok.inj h
      trivial
  | item :: items, _, _, hfits, h => by
      rw [Node.itemValues] at h
      obtain ⟨value, hvalue, h⟩ := bind_eq_ok_iff.mp h
      obtain ⟨values, hvalues, h⟩ := bind_eq_ok_iff.mp h
      obtain rfl := pure_eq_ok_iff.mp h
      exact ⟨plain_of_value hfits.1 hvalue, plain_of_itemValues hfits.2 hvalues⟩

theorem plain_of_memberValues : ∀ {members : List (Except Fault String × Nat × Node)} {depth : Nat}
    {values : List (String × Json)}, FitMembers depth members →
    Node.memberValues members = .ok values → PlainMembers depth values
  | [], _, _, _, h => by
      obtain rfl := Except.ok.inj h
      trivial
  | (name, _, node) :: members, _, _, hfits, h => by
      rw [Node.memberValues] at h
      obtain ⟨label, hname, h⟩ := bind_eq_ok_iff.mp h
      obtain ⟨value, hvalue, h⟩ := bind_eq_ok_iff.mp h
      obtain ⟨values, hvalues, h⟩ := bind_eq_ok_iff.mp h
      obtain rfl := pure_eq_ok_iff.mp h
      exact ⟨plain_of_value hfits.1 hvalue, plain_of_memberValues hfits.2 hvalues⟩

end

end RepoAudit.Json
