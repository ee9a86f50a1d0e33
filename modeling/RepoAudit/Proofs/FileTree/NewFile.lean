import RepoAudit.Proofs.FileTree.Excluded
import RepoAudit.Proofs.FileTree.Growth
import Mathlib

/-!
# Adding a file

A file is added where nothing stands yet, with the directories above it that are missing.  What
stood in the tree remains, and besides the file only directories come to stand in it.  So a
repository without links is one still, and it is found under the same path.
-/

namespace RepoAudit

namespace FileTree

variable {t sub : FileTree} {place other real : Location} {entries : List (String × FileTree)}
variable {name : String} {bytes : ByteArray}

/-- A file can be added at the place: nothing stands there, and above it only directories do. -/
structure Free (t : FileTree) (place : Location) : Prop where
  vacant : t.at? place = none
  above : ∀ upper sub, upper <+: place → t.at? upper = some sub → sub.isDirectory = true

/-- Below a directory that does not list the first name every place is free. -/
theorem Free.of_lookup_eq_none (hnone : entries.lookup name = none) (rest : Location) :
    (directory entries).Free (name :: rest) := by
  constructor
  case vacant =>
    rw [at?_directory_cons, hnone]
    rfl
  case above =>
    intro upper sub hupper hsub
    cases upper with
    | nil =>
        obtain rfl := Option.some.inj hsub
        rfl
    | cons first upper =>
        obtain ⟨rfl, -⟩ := List.cons_prefix_cons.mp hupper
        rw [at?_directory_cons, hnone] at hsub
        cases hsub

theorem Free.exists_entries (h : t.Free place) : ∃ entries, t = .directory entries := by
  have hdirectory := h.above [] t List.nil_prefix rfl
  cases t with
  | file bytes => cases hdirectory
  | link target => cases hdirectory
  | directory entries => exact ⟨entries, rfl⟩

/-- Where the place is free, it is free below each entry on the way. -/
theorem Free.of_lookup (h : (directory entries).Free (name :: place))
    (hlookup : entries.lookup name = some sub) : sub.Free place := by
  have hbelow : ∀ upper, (directory entries).at? (name :: upper) = sub.at? upper := by
    intro upper
    rw [at?_directory_cons, hlookup]
    rfl
  constructor
  case vacant => exact (hbelow place).symm.trans h.vacant
  case above =>
    intro upper deep hupper hdeep
    exact h.above (name :: upper) deep (by simpa using hupper) ((hbelow upper).trans hdeep)

/-- Only below directories stands anything. -/
theorem isDirectory_of_at? (hplace : t.at? place = some sub) (hsub : sub.isDirectory = true) :
    t.isDirectory = true := by
  cases place with
  | nil => exact Option.some.inj hplace ▸ hsub
  | cons name place =>
      cases t with
      | file bytes => cases hplace
      | link target => cases hplace
      | directory entries => rfl

/-- Where the place is free below a directory, it is free on the way down to the directory too. -/
theorem Free.append (h : sub.Free place) (hreal : t.at? real = some sub) :
    t.Free (real ++ place) := by
  constructor
  case vacant =>
    rw [at?_append, hreal]
    exact h.vacant
  case above =>
    intro upper deep hupper hdeep
    rcases List.prefix_or_prefix_of_prefix hupper (List.prefix_append real place) with
      ⟨rest, rfl⟩ | ⟨rest, rfl⟩
    · rw [at?_append, hdeep] at hreal
      exact isDirectory_of_at? hreal (h.above [] sub List.nil_prefix rfl)
    · rw [at?_append, hreal] at hdeep
      exact h.above rest deep ((List.prefix_append_right_inj real).mp hupper) hdeep

theorem insertAt_directory (new : FileTree) (name : String) (rest : Location)
    (entries : List (String × FileTree)) :
    insertAt new (name :: rest) (.directory entries) =
      .directory (insertEntry name
        (insertAt new rest ((entries.lookup name).getD (.directory []))) entries) := by
  rfl

/-! ## What stands in the tree -/

theorem coverAt?_file (bytes : ByteArray) (place : Location) :
    (file bytes).coverAt? place = if place = [] then some (.file bytes) else none := by
  cases place <;> rfl

/-- The file stands at its place and directories above it; all other places are as they were. -/
theorem coverAt?_addFile (h : t.Free place) (bytes : ByteArray) (other : Location) :
    (insertAt (.file bytes) place t).coverAt? other =
      if other = place then some (.file bytes)
      else if other <+: place then some (.directory [])
      else t.coverAt? other := by
  induction place generalizing t other with
  | nil => cases h.vacant
  | cons name rest ih =>
      obtain ⟨entries, rfl⟩ := h.exists_entries
      rw [insertAt_directory]
      cases other with
      | nil => simp [coverAt?, FileTree.at?, cover]
      | cons first other =>
          rw [coverAt?_insertEntry]
          by_cases hfirst : first = name
          · subst hfirst
            simp only [if_true, List.cons.injEq, true_and, List.cons_prefix_cons]
            cases hlookup : entries.lookup first with
            | some sub => rw [Option.getD_some, ih (h.of_lookup hlookup), coverAt?_cons hlookup]
            | none =>
                -- Nothing stands on the way any more, so the rest is put into an empty directory.
                have hnone : (directory entries).coverAt? (first :: other) = none := by
                  rw [coverAt?, at?_directory_cons, hlookup]
                  rfl
                rw [Option.getD_none, hnone]
                cases rest with
                | nil =>
                    rw [insertAt, coverAt?_file]
                    cases other <;> rfl
                | cons next rest =>
                    rw [ih (.of_lookup_eq_none rfl rest)]
                    cases other <;> rfl
          · simp [hfirst]

theorem Free.remainsIn_addFile (h : t.Free place) (bytes : ByteArray) :
    t.RemainsIn (insertAt (.file bytes) place t) := by
  rw [remainsIn_iff]
  intro other c hother
  rw [coverAt?_addFile h]
  split
  next heq =>
    rw [heq, coverAt?, h.vacant] at hother
    cases hother
  next =>
    split
    next habove =>
      obtain ⟨sub, hsub, rfl⟩ := Option.map_eq_some_iff.mp hother
      have hdirectory := h.above other sub habove hsub
      cases sub with
      | file bytes => cases hdirectory
      | link target => cases hdirectory
      | directory entries => rfl
    next => exact hother

/-- Besides directories only the new file stands where it did not before. -/
theorem Free.coverAt?_of_addFile (h : t.Free place) {c : FileTree}
    (hother : (insertAt (.file bytes) place t).coverAt? other = some c)
    (hdirectory : c.isDirectory = false) :
    other = place ∨ t.coverAt? other = some c := by
  rw [coverAt?_addFile h] at hother
  split at hother
  next heq => exact .inl heq
  next =>
    split at hother
    next =>
      obtain rfl := Option.some.inj hother
      cases hdirectory
    next => exact .inr hother

theorem insertAt_append (hreal : t.at? real = some sub) (new : FileTree) (place : Location) :
    (insertAt new (real ++ place) t).at? real = some (insertAt new place sub) := by
  induction real generalizing t with
  | nil =>
      obtain rfl := Option.some.inj hreal
      rfl
  | cons name real ih =>
      obtain ⟨child, hchild, hrest⟩ := Option.bind_eq_some_iff.mp hreal
      cases t with
      | file bytes => cases hchild
      | link target => cases hchild
      | directory entries =>
          have hlookup : entries.lookup name = some child := hchild
          rw [List.cons_append, insertAt_directory, at?_directory_cons, lookup_insertEntry_self,
            hlookup]
          exact ih hrest

/-! ## Ordinary trees -/

/-- Every name on the way to an entry is a segment. -/
theorem WellFormed.segments_of_at? (ht : t.WellFormed) (hplace : t.at? place = some sub) :
    ∀ name ∈ place, IsSegment name := by
  induction place generalizing t with
  | nil => simp
  | cons name place ih =>
      obtain ⟨child, hchild, hrest⟩ := Option.bind_eq_some_iff.mp hplace
      cases ht with
      | file bytes => cases hchild
      | link target => cases hchild
      | directory sorted segments below =>
          have hmem := mem_of_lookup hchild
          exact List.forall_mem_cons.mpr ⟨segments _ hmem, ih (below _ hmem) hrest⟩

theorem Ordinary.empty : (FileTree.directory []).Ordinary :=
  .directory (by simp) (by simp) (by simp)

theorem Ordinary.lookup (h : (FileTree.directory entries).Ordinary)
    (hlookup : entries.lookup name = some sub) : sub.Ordinary where
  wellFormed := h.wellFormed.lookup hlookup
  linkless := by
    cases h.linkless with
    | directory below => exact below _ (mem_of_lookup hlookup)
  undotted := by
    cases h.undotted with
    | directory _ below => exact below _ (mem_of_lookup hlookup)

theorem Ordinary.insertEntry (h : (FileTree.directory entries).Ordinary)
    (hname : IsSegment name ∧ NamesEntry name) (ht : t.Ordinary) :
    (FileTree.directory (FileTree.insertEntry name t entries)).Ordinary where
  wellFormed := h.wellFormed.insertEntry hname.1 ht.wellFormed
  linkless := by
    cases h.linkless with
    | directory below =>
        refine .directory fun entry hentry => ?_
        rcases mem_insertEntry hentry with rfl | hold
        · exact ht.linkless
        · exact below _ hold
  undotted := by
    cases h.undotted with
    | directory names below =>
        refine .directory (fun entry hentry => ?_) fun entry hentry => ?_
        · rcases mem_insertEntry hentry with rfl | hold
          · exact hname.2.2
          · exact names _ hold
        · rcases mem_insertEntry hentry with rfl | hold
          · exact ht.undotted
          · exact below _ hold

/-- What is put into an ordinary tree under names that systems allow leaves it ordinary. -/
theorem Ordinary.insertAt {new : FileTree} (hnew : new.Ordinary) (ht : t.Ordinary)
    (hplace : ∀ name ∈ place, IsSegment name ∧ NamesEntry name) :
    (FileTree.insertAt new place t).Ordinary := by
  induction place generalizing t with
  | nil => exact hnew
  | cons name rest ih =>
      rw [List.forall_mem_cons] at hplace
      have hdirectory : ∀ entries, (FileTree.directory entries).Ordinary →
          (FileTree.insertAt new (name :: rest) (FileTree.directory entries)).Ordinary := by
        intro entries h
        rw [insertAt_directory]
        refine h.insertEntry hplace.1 (ih ?_ hplace.2)
        cases hlookup : entries.lookup name with
        | none => exact .empty
        | some sub => exact h.lookup hlookup
      cases t with
      | file bytes => exact hdirectory [] .empty
      | link target => cases ht.linkless
      | directory entries => exact hdirectory entries ht

end FileTree

/-! ## Repositories -/

namespace Volume

variable {v : Volume} {path : String} {entries : List (String × FileTree)} {real place : Location}
variable {t : FileTree} {bytes : ByteArray}

/-- The volume with one more file. -/
def addFile (v : Volume) (place : Location) (bytes : ByteArray) : Volume :=
  { v with top := FileTree.insertAt (.file bytes) place v.top }

theorem resolve_addFile (hresolve : v.resolve path = .ok (real, t)) (hfree : v.top.Free place)
    (bytes : ByteArray) :
    ∃ t', (v.addFile place bytes).resolve path = .ok (real, t') := by
  have hstarts : (v.addFile place bytes).start? path = v.start? path := rfl
  rw [resolve] at hresolve ⊢
  rw [hstarts]
  cases hstart : v.start? path with
  | none => simp [hstart] at hresolve
  | some found =>
      simp only [hstart] at hresolve
      obtain ⟨t', hresolve', -⟩ := resolveFrom_of_remainsIn (hfree.remainsIn_addFile bytes) hresolve
      exact ⟨t', hresolve'⟩

/-- A repository without links, to which a file is added, is one still. -/
theorem HoldsRepository.addFile {names : List String} (h : v.HoldsRepository path entries)
    (hresolve : v.resolve path = .ok (real, .directory entries))
    (hfree : (FileTree.directory entries).Free names)
    (hnames : ∀ name ∈ names, IsSegment name ∧ NamesEntry name) (bytes : ByteArray) :
    ∃ entries', FileTree.directory entries' =
        FileTree.insertAt (.file bytes) names (.directory entries) ∧
      (v.addFile (real ++ names) bytes).HoldsRepository path entries' := by
  have hat : v.top.at? real = some (.directory entries) := at?_of_resolve hresolve
  have hordinary : (FileTree.directory entries).Ordinary :=
    ⟨h.wellFormed.at? hat, h.linkless, h.undotted⟩
  have hadded : (FileTree.insertAt (.file bytes) names (.directory entries)).Ordinary :=
    (FileTree.Ordinary.file bytes).insertAt hordinary hnames
  obtain ⟨t, hresolve'⟩ := resolve_addFile hresolve (hfree.append hat) bytes
  obtain rfl : FileTree.insertAt (.file bytes) names (.directory entries) = t :=
    Option.some.inj ((FileTree.insertAt_append hat _ names).symm.trans (at?_of_resolve hresolve'))
  obtain ⟨first, rest, rfl⟩ : ∃ first rest, names = first :: rest := by
    cases names with
    | nil => cases hfree.vacant
    | cons first rest => exact ⟨first, rest, rfl⟩
  rw [FileTree.insertAt_directory] at hadded hresolve' ⊢
  refine ⟨_, rfl, ?_⟩
  constructor
  case anchored => exact h.anchored
  case wellFormed =>
    apply FileTree.WellFormed.insertAt (.file bytes) h.wellFormed
    intro name hname
    rcases List.mem_append.mp hname with hreal | hbelow
    · exact h.wellFormed.segments_of_at? hat name hreal
    · exact (hnames name hbelow).1
  case resolves => exact ⟨real, hresolve'⟩
  case linkless => exact hadded.linkless
  case undotted => exact hadded.undotted

end Volume
end RepoAudit
