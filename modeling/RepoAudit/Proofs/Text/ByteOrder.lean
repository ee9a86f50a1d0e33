import RepoAudit.Text.Basic
import Mathlib.Data.String.Basic
import Mathlib.Tactic

/-!
# The order of names

Listings are sorted by code points.  UTF-8 was laid out so that the bytes of two texts compare the
same way, and this file proves it: the encoding of a smaller character is smaller at the first byte
where the two encodings differ, whatever follows them.
-/

namespace RepoAudit

/-- The bytes of a name in UTF-8. -/
def nameBytes (name : String) : List UInt8 :=
  name.toUTF8.data.toList

theorem toNat_val_lt (c : Char) : c.val.toNat < 1114112 := by
  have hvalid := c.valid
  simp only [UInt32.isValidChar, Nat.isValidChar] at hvalid
  omega

/-- The digits that the four bytes of a long encoding carry. -/
theorem base64_digits (v : ℕ) :
    ((v / 262144 * 64 + v / 4096 % 64) * 64 + v / 64 % 64) * 64 + v % 64 = v := by
  omega

theorem encode_append_lt {c d : Char} (hlt : c < d) (x y : List UInt8) :
    String.utf8EncodeChar c ++ x < String.utf8EncodeChar d ++ y := by
  have hval : c.val.toNat < d.val.toNat := hlt
  have hlimit := toNat_val_lt d
  unfold String.utf8EncodeChar
  simp only
  generalize c.val.toNat = v at *
  generalize d.val.toNat = w at *
  by_cases hlong : 0xffff < v
  · -- Both take four bytes; the comparison is one of base 64 digits.
    have hv := base64_digits v
    have hw := base64_digits w
    have hv4 : v / 262144 < 5 := by omega
    have hw4 : w / 262144 < 5 := by omega
    have hv3 : v / 4096 % 64 < 64 := Nat.mod_lt _ (by decide)
    have hw3 : w / 4096 % 64 < 64 := Nat.mod_lt _ (by decide)
    have hv2 : v / 64 % 64 < 64 := Nat.mod_lt _ (by decide)
    have hw2 : w / 64 % 64 < 64 := Nat.mod_lt _ (by decide)
    have hv1 : v % 64 < 64 := Nat.mod_lt _ (by decide)
    have hw1 : w % 64 < 64 := Nat.mod_lt _ (by decide)
    rw [if_neg (by omega), if_neg (by omega), if_neg (by omega), if_neg (by omega),
      if_neg (by omega), if_neg (by omega)]
    simp only [List.cons_append, List.nil_append, List.cons_lt_cons_iff, UInt8.lt_iff_toNat_lt,
      ← UInt8.toNat_inj, UInt8.toNat_ofNat']
    generalize v / 262144 = v4 at *
    generalize w / 262144 = w4 at *
    generalize v / 4096 % 64 = v3 at *
    generalize w / 4096 % 64 = w3 at *
    generalize v / 64 % 64 = v2 at *
    generalize w / 64 % 64 = w2 at *
    generalize v % 64 = v1 at *
    generalize w % 64 = w1 at *
    omega
  · split_ifs <;>
      simp only [List.cons_append, List.nil_append, List.cons_lt_cons_iff, UInt8.lt_iff_toNat_lt,
        ← UInt8.toNat_inj, UInt8.toNat_ofNat'] <;>
      omega

theorem encode_lt_of_lt {a b : List Char} (hlt : a < b) :
    a.flatMap String.utf8EncodeChar < b.flatMap String.utf8EncodeChar := by
  induction a generalizing b with
  | nil =>
      cases b with
      | nil => simp at hlt
      | cons d b =>
          obtain ⟨byte, bytes, hbytes⟩ :=
            List.exists_cons_of_ne_nil (String.utf8EncodeChar_ne_nil (c := d))
          simp [hbytes]
  | cons c a ih =>
      cases b with
      | nil => simp at hlt
      | cons d b =>
          rw [List.flatMap_cons, List.flatMap_cons]
          rcases List.cons_lt_cons_iff.mp hlt with hhead | ⟨rfl, htail⟩
          · exact encode_append_lt hhead _ _
          · exact List.append_left_lt (ih htail)

theorem nameBytes_eq (name : String) :
    nameBytes name = name.toList.flatMap String.utf8EncodeChar := by
  rw [nameBytes, String.toUTF8_eq_toByteArray, ← String.utf8Encode_toList, List.utf8Encode]
  simp

/-- Names compare as their bytes do. -/
theorem nameBytes_lt_iff {a b : String} : nameBytes a < nameBytes b ↔ a < b := by
  have hforward : ∀ {x y : String}, x < y → nameBytes x < nameBytes y := by
    intro x y hlt
    rw [nameBytes_eq, nameBytes_eq]
    exact encode_lt_of_lt (String.lt_iff_toList_lt.mp hlt)
  constructor
  · intro hbytes
    rcases lt_trichotomy a b with hlt | rfl | hgt
    · exact hlt
    · exact absurd hbytes (List.lt_irrefl _)
    · exact absurd hbytes (List.lt_asymm (hforward hgt))
  · exact hforward

theorem Text.le_iff_not_lt {a b : Text} : Text.le a b = true ↔ ¬ b < a := by
  induction a generalizing b with
  | nil => cases b <;> simp [Text.le]
  | cons c a ih =>
      cases b with
      | nil => simp [Text.le]
      | cons d b =>
          rw [Text.le, List.cons_lt_cons_iff]
          by_cases heq : c = d
          · subst heq
            simp [ih]
          · have hval : c.toNat ≠ d.toNat := fun h => heq (Char.toNat_inj.mp h)
            simp only [beq_iff_eq, heq, if_false, decide_eq_true_eq, Ne.symm heq, false_and,
              or_false, Char.lt_def, UInt32.lt_iff_toNat_lt]
            change c.toNat < d.toNat ↔ ¬ d.toNat < c.toNat
            omega

theorem nameLe_iff_le {a b : String} : nameLe a b = true ↔ a ≤ b := by
  rw [nameLe, Text.le_iff_not_lt, ← String.lt_iff_toList_lt, not_lt]

end RepoAudit
