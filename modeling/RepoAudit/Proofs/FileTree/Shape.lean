import RepoAudit.FileTree.Basic
import RepoAudit.Proofs.Text.ByteOrder
import Mathlib.Data.List.Basic
import Mathlib.Tactic

/-!
# Well-formed file trees

A directory lists its entries by name, each name once, and a name is one segment of a path.  Trees
that are built by putting entries into the empty directory are of this form, and every tree below a
well-formed one is well-formed.
-/

namespace RepoAudit

/-- A name that a directory can list. -/
def IsSegment (name : String) : Prop :=
  name ≠ "" ∧ '/' ∉ name.toList

namespace FileTree

inductive WellFormed : FileTree → Prop
  | file (bytes : ByteArray) : WellFormed (.file bytes)
  | link (target : String) : WellFormed (.link target)
  | directory {entries : List (String × FileTree)}
      (sorted : entries.Pairwise fun a b => a.1 < b.1)
      (segments : ∀ entry ∈ entries, IsSegment entry.1)
      (below : ∀ entry ∈ entries, WellFormed entry.2) :
      WellFormed (.directory entries)

/-- No link stands anywhere in the tree. -/
inductive Linkless : FileTree → Prop
  | file (bytes : ByteArray) : Linkless (.file bytes)
  | directory {entries : List (String × FileTree)}
      (below : ∀ entry ∈ entries, Linkless entry.2) :
      Linkless (.directory entries)

variable {entries : List (String × FileTree)} {name : String} {t sub : FileTree}
variable {place : Location}

theorem mem_of_lookup (hlookup : entries.lookup name = some t) : (name, t) ∈ entries := by
  obtain ⟨before, after, rfl, _⟩ := List.lookup_eq_some_iff.mp hlookup
  simp

/-- Sorted entries hold each name once, so looking a name up finds the entry. -/
theorem lookup_of_mem (hsorted : entries.Pairwise fun a b => a.1 < b.1)
    (hmem : (name, t) ∈ entries) : entries.lookup name = some t := by
  induction entries with
  | nil => simp at hmem
  | cons entry entries ih =>
      obtain ⟨other, first⟩ := entry
      rw [List.pairwise_cons] at hsorted
      rcases List.mem_cons.mp hmem with heq | htail
      · obtain ⟨rfl, rfl⟩ := Prod.mk.inj heq
        simp
      · have hne : name ≠ other := (hsorted.1 _ htail).ne'
        have hbeq : (name == other) = false := by simpa using hne
        rw [List.lookup_cons, hbeq]
        exact ih hsorted.2 htail

theorem WellFormed.lookup (hwf : (FileTree.directory entries).WellFormed)
    (hlookup : entries.lookup name = some t) : t.WellFormed := by
  cases hwf with
  | directory _ _ below => exact below _ (mem_of_lookup hlookup)

theorem WellFormed.at? (hwf : t.WellFormed) (hplace : t.at? place = some sub) :
    sub.WellFormed := by
  induction place generalizing t with
  | nil =>
      obtain rfl : t = sub := by simpa [FileTree.at?] using hplace
      exact hwf
  | cons name place ih =>
      rw [FileTree.at?, Option.bind_eq_some_iff] at hplace
      obtain ⟨child, hchild, hrest⟩ := hplace
      cases t with
      | file bytes => simp [child?] at hchild
      | link target => simp [child?] at hchild
      | directory entries => exact ih (hwf.lookup hchild) hrest

/-- On the way to what stands in a tree something stands as well. -/
theorem exists_at?_of_prefix {upper : Location} (hplace : t.at? place = some sub)
    (hupper : upper <+: place) : ∃ above, t.at? upper = some above := by
  obtain ⟨rest, rfl⟩ := hupper
  rw [at?_append, Option.bind_eq_some_iff] at hplace
  obtain ⟨above, habove, -⟩ := hplace
  exact ⟨above, habove⟩

theorem at?_directory_cons (entries : List (String × FileTree)) (name : String)
    (place : Location) :
    (FileTree.directory entries).at? (name :: place) =
      (entries.lookup name).bind (·.at? place) := by
  rfl

/-! ## Building trees -/

theorem mem_insertEntry {entry : String × FileTree}
    (hmem : entry ∈ insertEntry name t entries) : entry = (name, t) ∨ entry ∈ entries := by
  induction entries with
  | nil => simpa [insertEntry] using hmem
  | cons first entries ih =>
      obtain ⟨other, old⟩ := first
      rw [insertEntry] at hmem
      split at hmem
      · rcases List.mem_cons.mp hmem with rfl | htail
        · exact .inl rfl
        · exact .inr (List.mem_cons_of_mem _ htail)
      · split at hmem
        · exact List.mem_cons.mp hmem
        · rcases List.mem_cons.mp hmem with rfl | htail
          · exact .inr (List.mem_cons_self ..)
          · exact (ih htail).imp id (List.mem_cons_of_mem _)

theorem insertEntry_sorted (hsorted : entries.Pairwise fun a b => a.1 < b.1) :
    (insertEntry name t entries).Pairwise fun a b => a.1 < b.1 := by
  induction entries with
  | nil => simp [insertEntry]
  | cons first entries ih =>
      obtain ⟨other, old⟩ := first
      rw [List.pairwise_cons] at hsorted
      rw [insertEntry]
      split
      next heq =>
        obtain rfl : name = other := by simpa using heq
        exact List.pairwise_cons.mpr hsorted
      next hne =>
        have hne : name ≠ other := by simpa using hne
        split
        next hle =>
          have hlt : name < other := lt_of_le_of_ne (nameLe_iff_le.mp hle) hne
          refine List.pairwise_cons.mpr ⟨?_, List.pairwise_cons.mpr hsorted⟩
          intro entry hentry
          rcases List.mem_cons.mp hentry with rfl | htail
          · exact hlt
          · exact hlt.trans (hsorted.1 _ htail)
        next hgt =>
          have hlt : other < name := by
            rw [nameLe_iff_le, not_le] at hgt
            exact hgt
          refine List.pairwise_cons.mpr ⟨?_, ih hsorted.2⟩
          intro entry hentry
          rcases mem_insertEntry hentry with rfl | hold
          · exact hlt
          · exact hsorted.1 _ hold

theorem WellFormed.empty : (FileTree.directory []).WellFormed :=
  .directory (by simp) (by simp) (by simp)

theorem WellFormed.insertEntry (hwf : (FileTree.directory entries).WellFormed)
    (hname : IsSegment name) (ht : t.WellFormed) :
    (FileTree.directory (insertEntry name t entries)).WellFormed := by
  cases hwf with
  | directory sorted segments below =>
      refine .directory (insertEntry_sorted sorted) ?_ ?_
      · intro entry hentry
        rcases mem_insertEntry hentry with rfl | hold
        · exact hname
        · exact segments _ hold
      · intro entry hentry
        rcases mem_insertEntry hentry with rfl | hold
        · exact ht
        · exact below _ hold

/-- Putting a well-formed tree at a place keeps a tree well-formed. -/
theorem WellFormed.insertAt {new : FileTree} (hnew : new.WellFormed) (ht : t.WellFormed)
    (hplace : ∀ name ∈ place, IsSegment name) : (insertAt new place t).WellFormed := by
  induction place generalizing t with
  | nil => exact hnew
  | cons name place ih =>
      have hrest : ∀ other ∈ place, IsSegment other := fun other hother =>
        hplace other (List.mem_cons_of_mem _ hother)
      have hname : IsSegment name := hplace name (List.mem_cons_self ..)
      have hbelow : ∀ {entries : List (String × FileTree)},
          (FileTree.directory entries).WellFormed →
          ((entries.lookup name).getD (.directory [])).WellFormed := by
        intro entries hwf
        cases hlookup : entries.lookup name with
        | none => exact WellFormed.empty
        | some child => exact hwf.lookup hlookup
      cases t with
      | file bytes =>
          exact WellFormed.empty.insertEntry hname (ih (hbelow WellFormed.empty) hrest)
      | link target =>
          exact WellFormed.empty.insertEntry hname (ih (hbelow WellFormed.empty) hrest)
      | directory entries => exact ht.insertEntry hname (ih (hbelow ht) hrest)

end FileTree
end RepoAudit
