import RepoAudit.Tally
import RepoAudit.Proofs.Ranking
import Mathlib

/-!
# Counting by a key

The counts of the keys that occur in a list add up to its length: every element counts, and none
counts twice.
-/

namespace RepoAudit

theorem sumOf_append (l₁ l₂ : List Nat) : sumOf (l₁ ++ l₂) = sumOf l₁ + sumOf l₂ :=
  List.sum_append

theorem sumOf_perm {l₁ l₂ : List Nat} (h : l₁.Perm l₂) : sumOf l₁ = sumOf l₂ :=
  h.sum_eq

theorem sum_map_ite {α : Type} (p : α → Prop) [DecidablePred p] (l : List α) :
    (l.map fun a => if p a then 1 else 0).sum = l.countP fun a => p a := by
  induction l with
  | nil => rfl
  | cons a l ih => simp [List.countP_cons, ih, Nat.add_comm]

theorem countP_add_countP_not {α : Type} (p : α → Bool) (l : List α) :
    l.countP p + (l.countP fun a => !p a) = l.length := by
  have hsplit : l.length = l.countP p + l.countP fun a => ¬ p a :=
    List.length_eq_countP_add_countP p
  simpa using hsplit.symm

theorem sum_map_single {κ : Type} [DecidableEq κ] {keys : List κ} (k : κ) (n : Nat)
    (hkeys : keys.Nodup) :
    (keys.map fun j => if k = j then n else 0).sum = if k ∈ keys then n else 0 := by
  induction keys with
  | nil => simp
  | cons j keys ih =>
      rw [List.nodup_cons] at hkeys
      rw [List.map_cons, List.sum_cons, ih hkeys.2]
      by_cases hk : k = j
      · simp [hk, hkeys.1]
      · simp [hk]

/-- What the elements with the key come to. -/
def weightOf {α κ : Type} [DecidableEq κ] (key : α → κ) (weight : α → Nat) (l : List α) (k : κ) :
    Nat :=
  (l.map fun a => if key a = k then weight a else 0).sum

section Weights

variable {α κ : Type} [DecidableEq κ] {key : α → κ} {weight : α → Nat}
variable {l : List α} {a b : α}

theorem weightOf_of_alone (hl : l.Nodup) (ha : a ∈ l)
    (halone : ∀ b ∈ l, 0 < weight b → key a = key b → a = b) :
    weightOf key weight l (key a) = weight a := by
  classical
  have hterms : ∀ b ∈ l, (if key b = key a then weight b else 0) =
      if a = b then weight a else 0 := by
    intro b hb
    by_cases hab : a = b
    · simp [hab]
    · by_cases hkey : key b = key a
      · have hzero : weight b = 0 := by
          by_contra hpos
          exact hab (halone b hb (Nat.pos_of_ne_zero hpos) hkey.symm)
        simp [hkey, hab, hzero]
      · simp [hkey, hab]
  rw [weightOf, List.map_congr_left hterms, sum_map_single a (weight a) hl, if_pos ha]

theorem add_le_weightOf (weight : α → Nat) (hl : l.Nodup) (ha : a ∈ l) (hb : b ∈ l) (hne : a ≠ b)
    (hkey : key a = key b) : weight a + weight b ≤ weightOf key weight l (key a) := by
  classical
  have hterms : ∀ c ∈ l, (if a = c then weight a else 0) + (if b = c then weight b else 0) ≤
      if key c = key a then weight c else 0 := by
    intro c _
    by_cases hac : a = c
    · have hbc : b ≠ c := fun h => hne (hac.trans h.symm)
      simp [hac, hbc]
    · by_cases hbc : b = c
      · have hkeyc : key c = key a := hbc ▸ hkey.symm
        simp [hac, hbc, hkeyc]
      · simp [hac, hbc]
  calc
    weight a + weight b = (l.map fun c => (if a = c then weight a else 0) +
        if b = c then weight b else 0).sum := by
      rw [List.sum_map_add, sum_map_single a (weight a) hl, sum_map_single b (weight b) hl,
        if_pos ha, if_pos hb]
    _ ≤ weightOf key weight l (key a) := List.sum_le_sum hterms

/-- The weights by key are the weights of the single elements exactly when no two elements that
have weight have the same key. -/
theorem weightOf_single_iff (key : α → κ) (weight : α → Nat) (hl : l.Nodup) :
    (∀ k n, n = weightOf key weight l k ∧ 0 < n ↔ ∃ a ∈ l, key a = k ∧ weight a = n ∧ 0 < n) ↔
      ∀ a ∈ l, ∀ b ∈ l, 0 < weight a → 0 < weight b → key a = key b → a = b := by
  constructor
  · intro h a ha b hb hapos hbpos hkey
    by_contra hne
    have htotal : weight a = weightOf key weight l (key a) :=
      ((h (key a) (weight a)).mpr ⟨a, ha, rfl, rfl, hapos⟩).1
    have hboth := add_le_weightOf weight hl ha hb hne hkey
    omega
  · intro h k n
    have halone : ∀ a ∈ l, 0 < weight a → weightOf key weight l (key a) = weight a :=
      fun a ha hpos => weightOf_of_alone hl ha fun b hb hbpos => h a ha b hb hpos hbpos
    constructor
    · rintro ⟨rfl, hpos⟩
      obtain ⟨a, ha, hterm⟩ : ∃ a ∈ l, (if key a = k then weight a else 0) ≠ 0 := by
        by_contra hall
        push Not at hall
        have hzero : weightOf key weight l k = 0 := by
          apply List.sum_eq_zero
          intro n hn
          obtain ⟨a, ha, rfl⟩ := List.mem_map.mp hn
          exact hall a ha
        omega
      obtain ⟨rfl, hweight⟩ := ite_ne_right_iff.mp hterm
      exact ⟨a, ha, rfl, (halone a ha (Nat.pos_of_ne_zero hweight)).symm, hpos⟩
    · rintro ⟨a, ha, rfl, rfl, hpos⟩
      exact ⟨(halone a ha hpos).symm, hpos⟩

end Weights

/-- What the elements come to, added up key by key. -/
theorem sum_by_key {α κ : Type} [DecidableEq κ] {key : α → κ} {keys : List κ} {l : List α}
    (value : α → Nat) (hkeys : keys.Nodup) (hall : ∀ a ∈ l, key a ∈ keys) :
    (keys.map fun k => ((l.filter fun a => key a == k).map value).sum).sum =
      (l.map value).sum := by
  induction l with
  | nil => simp
  | cons a l ih =>
      rw [List.forall_mem_cons] at hall
      have hstep : ∀ k, (((a :: l).filter fun a => key a == k).map value).sum =
          (if key a = k then value a else 0) +
            ((l.filter fun a => key a == k).map value).sum := by
        intro k
        by_cases hk : key a = k <;> simp [hk]
      simp only [hstep]
      rw [List.sum_map_add, sum_map_single (key a) (value a) hkeys, if_pos hall.1, ih hall.2,
        List.map_cons, List.sum_cons]

/-- Every element counts for exactly one of the keys. -/
theorem sum_countP {α κ : Type} [DecidableEq κ] {key : α → κ} {keys : List κ} {l : List α}
    (hkeys : keys.Nodup) (hall : ∀ a ∈ l, key a ∈ keys) :
    (keys.map fun k => l.countP fun a => key a == k).sum = l.length := by
  simpa [List.countP_eq_length_filter] using sum_by_key (fun _ => 1) hkeys hall

theorem sum_filter_pos {κ : Type} (counts : List (κ × Nat)) :
    ((counts.filter fun (_, n) => 0 < n).map Prod.snd).sum = (counts.map Prod.snd).sum := by
  induction counts with
  | nil => rfl
  | cons pair counts ih =>
      obtain ⟨k, n⟩ := pair
      by_cases hn : 0 < n
      · simp [hn, ih]
      · simp [Nat.eq_zero_of_not_pos hn, ih]

/-- The counts are those of the keys that occur, and together count every element once. -/
structure Tallies {α κ : Type} [DecidableEq κ] (key : α → κ) (l : List α)
    (counts : List (κ × Nat)) : Prop where
  occurring : ∀ k n, (k, n) ∈ counts ↔ n = (l.countP fun a => key a == k) ∧ 0 < n
  once : (counts.map Prod.fst).Nodup
  total : (counts.map Prod.snd).sum = l.length

theorem tallies_of_keys {α κ : Type} [DecidableEq κ] {key : α → κ} {keys : List κ} {l : List α}
    (hkeys : keys.Nodup) (hall : ∀ k, k ∈ keys) :
    Tallies key l
      ((keys.map fun k => (k, l.countP fun a => key a == k)).filter fun (_, n) => 0 < n) := by
  constructor
  case occurring =>
    intro k n
    simp only [List.mem_filter, List.mem_map, Prod.mk.injEq, decide_eq_true_eq]
    constructor
    · rintro ⟨⟨_, -, rfl, rfl⟩, hpos⟩
      exact ⟨rfl, hpos⟩
    · rintro ⟨rfl, hpos⟩
      exact ⟨⟨k, hall k, rfl, rfl⟩, hpos⟩
  case once =>
    have hfst : (keys.map fun k => (k, l.countP fun a => key a == k)).map Prod.fst = keys := by
      rw [List.map_map]
      exact List.map_id keys
    apply List.Nodup.sublist (List.filter_sublist.map Prod.fst)
    rwa [hfst]
  case total =>
    rw [sum_filter_pos, List.map_map]
    exact sum_countP hkeys fun a _ => hall (key a)

/-! ## Names -/

theorem nodup_eraseDups {κ : Type} [DecidableEq κ] (keys : List κ) : keys.eraseDups.Nodup := by
  cases keys with
  | nil => exact List.nodup_nil
  | cons key keys =>
      rw [List.eraseDups_cons, List.nodup_cons]
      refine ⟨?_, nodup_eraseDups _⟩
      rw [List.mem_eraseDups, List.mem_filter]
      simp
termination_by keys.length
decreasing_by exact Nat.lt_succ_of_le (List.length_filter_le _ _)

theorem eraseDups_perm {names names' : List String} (h : names.Perm names') :
    names.eraseDups.Perm names'.eraseDups := by
  rw [List.perm_ext_iff_of_nodup (nodup_eraseDups names) (nodup_eraseDups names')]
  intro name
  rw [List.mem_eraseDups, List.mem_eraseDups, h.mem_iff]

/-- Occurrences are counted alike in every order. -/
theorem tally_of_perm {names names' : List String} (h : names.Perm names') :
    tally names = tally names' := by
  have hkeys : names.eraseDups.mergeSort nameLe = names'.eraseDups.mergeSort nameLe := by
    apply mergeSort_eq_of_perm _ _ _ (eraseDups_perm h)
    · intro a b c hab hbc
      rw [nameLe_iff_le] at *
      exact hab.trans hbc
    · intro a b
      rw [Bool.or_eq_true, nameLe_iff_le, nameLe_iff_le]
      exact le_total a b
    · intro a _ b _ hab hba
      exact le_antisymm (nameLe_iff_le.mp hab) (nameLe_iff_le.mp hba)
  unfold tally
  rw [hkeys]
  simp only [h.count_eq]

theorem mem_tally {names : List String} {name : String} {n : Nat} :
    (name, n) ∈ tally names ↔ n = names.count name ∧ 0 < n := by
  simp only [tally, List.mem_map, List.mem_mergeSort, List.mem_eraseDups, Prod.mk.injEq]
  constructor
  · rintro ⟨_, hname, rfl, rfl⟩
    exact ⟨rfl, List.count_pos_iff.mpr hname⟩
  · rintro ⟨rfl, hpos⟩
    exact ⟨name, List.count_pos_iff.mp hpos, rfl, rfl⟩

theorem map_fst_tally (names : List String) :
    (tally names).map Prod.fst = names.eraseDups.mergeSort nameLe := by
  rw [tally, List.map_map]
  exact List.map_id _

theorem nodup_tally (names : List String) : ((tally names).map Prod.fst).Nodup := by
  rw [map_fst_tally]
  exact (List.mergeSort_perm _ _).nodup_iff.mpr (nodup_eraseDups names)

theorem length_tally (names : List String) : (tally names).length = names.toFinset.card := by
  have hsame : names.eraseDups.toFinset = names.toFinset := by
    ext name
    rw [List.mem_toFinset, List.mem_toFinset, List.mem_eraseDups]
  rw [tally, List.length_map, List.length_mergeSort, ← hsame,
    List.toFinset_card_of_nodup (nodup_eraseDups names)]

theorem sum_tally (names : List String) :
    ((tally names).map Prod.snd).sum = names.length := by
  have hperm := List.mergeSort_perm names.eraseDups nameLe
  have hkeys : (names.eraseDups.mergeSort nameLe).Nodup :=
    hperm.nodup_iff.mpr (nodup_eraseDups names)
  have hall : ∀ name ∈ names, id name ∈ names.eraseDups.mergeSort nameLe := fun name hname =>
    hperm.mem_iff.mpr (List.mem_eraseDups.mpr hname)
  rw [tally, List.map_map]
  exact sum_countP hkeys hall

theorem lookup_map_key {κ ν : Type} [DecidableEq κ] (value : κ → ν) (keys : List κ) (k : κ) :
    (keys.map fun key => (key, value key)).lookup k = if k ∈ keys then some (value k) else none := by
  induction keys with
  | nil => rfl
  | cons key keys ih =>
      by_cases hk : k = key
      · simp [hk]
      · have hne : (k == key) = false := beq_eq_false_iff_ne.mpr hk
        simp [List.lookup_cons, hk, hne, ih]

theorem getD_lookup_tally (names : List String) (name : String) :
    ((tally names).lookup name).getD 0 = names.count name := by
  have hmem : name ∈ names.eraseDups.mergeSort nameLe ↔ name ∈ names := by
    rw [List.mem_mergeSort, List.mem_eraseDups]
  rw [tally, lookup_map_key]
  split
  · rfl
  next hnone => exact (List.count_eq_zero.mpr (mt hmem.mpr hnone)).symm

end RepoAudit
