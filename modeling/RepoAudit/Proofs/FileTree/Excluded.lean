import RepoAudit.Proofs.FileTree.Sight
import RepoAudit.Proofs.FileTree.Visits
import Mathlib

/-!
# What lies in excluded directories

Some directory names are never entered.  A walk over a directory without links meets the same
entries when the directories with these names are taken out of the tree, at whatever depth, and the
paths of the entries it meets show the same.
-/

namespace RepoAudit

namespace FileTree

/-- A directory that is never entered. -/
def isExcluded (name : String) (t : FileTree) : Bool :=
  t.isDirectory && isExcludedDir name

mutual

/-- The tree without the directories below it that are never entered. -/
def withoutExcluded : FileTree → FileTree
  | .file bytes => .file bytes
  | .link target => .link target
  | .directory entries => .directory (entriesOutside entries)

def entriesOutside : List (String × FileTree) → List (String × FileTree)
  | [] => []
  | (name, t) :: entries =>
      if t.isExcluded name then entriesOutside entries
      else (name, t.withoutExcluded) :: entriesOutside entries

end

variable {entries : List (String × FileTree)} {name : String} {names : List String}
variable {t sub : FileTree}

theorem cover_withoutExcluded (t : FileTree) : t.withoutExcluded.cover = t.cover := by
  cases t <;> rfl

theorem lookup_entriesOutside (hsorted : entries.Pairwise fun a b => a.1 < b.1) (name : String) :
    (entriesOutside entries).lookup name = (entries.lookup name).bind fun t =>
      if t.isExcluded name then none else some t.withoutExcluded := by
  induction entries with
  | nil => rfl
  | cons entry entries ih =>
      obtain ⟨other, first⟩ := entry
      rw [List.pairwise_cons] at hsorted
      have hrest := ih hsorted.2
      rw [entriesOutside, List.lookup_cons]
      by_cases heq : name = other
      · subst heq
        rw [beq_self_eq_true]
        split
        next hout =>
          have hnone : entries.lookup name = none := by
            rw [List.lookup_eq_none_iff]
            intro entry hentry
            simpa using (hsorted.1 entry hentry).ne
          rw [hrest, hnone]
          simp [hout]
        next hin => simp [hin]
      · have hbeq : (name == other) = false := by simpa using heq
        rw [hbeq]
        split
        · exact hrest
        · rw [List.lookup_cons, hbeq]
          exact hrest

/-- None of the entries that the names lead past, or to, is a directory that is never entered. -/
def Outside (t : FileTree) (names : List String) : Prop :=
  ∀ upper name sub, upper ++ [name] <+: names → t.at? (upper ++ [name]) = some sub →
    sub.isExcluded name = false

theorem Outside.of_names (hnames : ∀ name ∈ names, isExcludedDir name = false) :
    t.Outside names := by
  intro upper name sub hupper _
  have hname : name ∈ names := hupper.subset (by simp)
  simp [isExcluded, hnames name hname]

theorem sight_withoutExcluded (ht : t.WellFormed) (hout : t.Outside names) :
    t.withoutExcluded.sight names = t.sight names := by
  induction names generalizing t with
  | nil => rw [sight, sight, cover_withoutExcluded]
  | cons name names ih =>
      cases t with
      | file bytes => rfl
      | link target => rfl
      | directory entries =>
          cases ht with
          | directory sorted segments below =>
              rw [withoutExcluded, sight, sight]
              simp only [lookup_entriesOutside sorted]
              cases hlookup : entries.lookup name with
              | none => rfl
              | some sub =>
                  have hat : (FileTree.directory entries).at? ([] ++ [name]) = some sub := by
                    simp [at?, child?, hlookup]
                  -- The entry is still there, and it leads past nothing that was taken out.
                  have hkept := hout [] name sub (by simp) hat
                  have hbelow : sub.Outside names := by
                    intro upper other deep hupper hdeep
                    refine hout (name :: upper) other deep (by simpa using hupper) ?_
                    rw [List.cons_append, at?_directory_cons, hlookup]
                    exact hdeep
                  simp [hkept, ih (below _ (mem_of_lookup hlookup)) hbelow]

end FileTree

namespace Walk

variable {v w : Volume} {plan : Plan} {opened opened' : List Open} {here here' : Location}
variable {names : List String} {s t : FileTree} {entries : List (String × FileTree)}

/-- The fixed directory names are among those that the plan leaves out. -/
def Plan.LeavesOutFixed (plan : Plan) : Prop :=
  ∀ name, isExcludedDir name = true → name ∈ plan.excluded

theorem ofSettings_leavesOutFixed {root : String} {settings : WalkSettings} {includeDirs : Bool}
    (hplan : Plan.ofSettings root settings includeDirs = .ok plan) : plan.LeavesOutFixed := by
  intro name hname
  obtain ⟨-, -, hexcluded, -⟩ := ofSettings_cases hplan
  rw [hexcluded]
  exact List.mem_append_left _ (by simpa [isExcludedDir] using hname)

theorem entryEvents_of_excluded {name : String} (hplan : plan.LeavesOutFixed)
    (hout : t.isExcluded name = true) :
    entryEvents v plan opened here (names ++ [name]) t = [] := by
  obtain ⟨hdirectory, hname⟩ := Bool.and_eq_true_iff.mp hout
  cases t with
  | file bytes => cases hdirectory
  | link target => cases hdirectory
  | directory entries =>
      apply entryEvents_of_pruned
      simp [Plan.meet, Plan.meetDirectory, Plan.prunes, hplan name hname]

theorem directoryEvents_entriesOutside (hplan : plan.LeavesOutFixed)
    (hbelow : ∀ entry ∈ entries, ∀ here here',
      entryEvents v plan opened here (names ++ [entry.1]) entry.2 =
        entryEvents w plan opened' here' (names ++ [entry.1]) entry.2.withoutExcluded) :
    directoryEvents v plan opened here names entries =
      directoryEvents w plan opened' here' names (FileTree.entriesOutside entries) := by
  induction entries with
  | nil => rw [FileTree.entriesOutside, directoryEvents, directoryEvents]
  | cons entry entries ih =>
      obtain ⟨name, t⟩ := entry
      rw [List.forall_mem_cons] at hbelow
      rw [directoryEvents, FileTree.entriesOutside, ih hbelow.2]
      split
      next hout => rw [entryEvents_of_excluded hplan hout, List.nil_append]
      next hin => rw [directoryEvents, hbelow.1 (here ++ [name]) (here' ++ [name])]

theorem entryEvents_file (v : Volume) (plan : Plan) (opened : List Open) (here : Location)
    (names : List String) (bytes : ByteArray) :
    entryEvents v plan opened here names (.file bytes) =
      if plan.prunes names false then [] else [.visit ⟨names, false⟩] := by
  split
  next hpruned => exact entryEvents_of_pruned (by simp [Plan.meet, Plan.meetLeaf, hpruned])
  next hkept => exact entryEvents_of_visited (by simp [Plan.meet, Plan.meetLeaf, hkept])

theorem entryEvents_directory (v : Volume) (plan : Plan) (opened : List Open) (here : Location)
    (names : List String) (entries : List (String × FileTree)) :
    entryEvents v plan opened here names (.directory entries) =
      if plan.prunes names true then []
      else plan.ownVisit names ++
        directoryEvents v plan ((here, pathOf plan.root names) :: opened) here names entries := by
  split
  next hpruned => exact entryEvents_of_pruned (by simp [Plan.meet, Plan.meetDirectory, hpruned])
  next hkept => exact entryEvents_of_entered (by simp [Plan.meet, Plan.meetDirectory, hkept])

/-- Without links the events of an entry depend neither on where it stands nor on what lies in
directories that are never entered. -/
theorem entryEvents_withoutExcluded (hplan : plan.LeavesOutFixed) (hlinks : t.Linkless) :
    entryEvents v plan opened here names t =
      entryEvents w plan opened' here' names t.withoutExcluded := by
  induction hlinks generalizing opened opened' here here' names with
  | file bytes => rw [FileTree.withoutExcluded, entryEvents_file, entryEvents_file]
  | @directory entries below ih =>
      rw [FileTree.withoutExcluded, entryEvents_directory, entryEvents_directory]
      split
      · rfl
      · exact congrArg _ (directoryEvents_entriesOutside hplan fun entry hentry _ _ =>
          ih entry hentry)

end Walk

/-! ## Repositories without links -/

/-- No entry has a name that points upwards or nowhere. -/
inductive FileTree.Undotted : FileTree → Prop
  | file (bytes : ByteArray) : Undotted (.file bytes)
  | link (target : String) : Undotted (.link target)
  | directory {entries : List (String × FileTree)}
      (names : ∀ entry ∈ entries, entry.1 ≠ "." ∧ entry.1 ≠ "..")
      (below : ∀ entry ∈ entries, Undotted entry.2) :
      Undotted (.directory entries)

theorem FileTree.Undotted.of_at? {t sub : FileTree} {names : List String} (ht : t.Undotted)
    (hat : t.at? names = some sub) : ∀ name ∈ names, name ≠ "." ∧ name ≠ ".." := by
  induction names generalizing t with
  | nil => simp
  | cons name names ih =>
      cases ht with
      | file bytes => simp [at?, child?] at hat
      | link target => simp [at?, child?] at hat
      | @directory entries undotted below =>
          rw [at?_directory_cons, Option.bind_eq_some_iff] at hat
          obtain ⟨child, hlookup, hrest⟩ := hat
          have hmem := mem_of_lookup hlookup
          exact List.forall_mem_cons.mpr ⟨undotted _ hmem, ih (below _ hmem) hrest⟩

/-- No link stands in the tree, and its names are such as systems allow. -/
structure FileTree.Ordinary (t : FileTree) : Prop where
  wellFormed : t.WellFormed
  linkless : t.Linkless
  undotted : t.Undotted

theorem FileTree.Ordinary.file (bytes : ByteArray) : (FileTree.file bytes).Ordinary :=
  ⟨.file bytes, .file bytes, .file bytes⟩

theorem FileTree.Ordinary.directory {entries : List (String × FileTree)}
    (hsorted : entries.Pairwise fun a b => a.1 < b.1)
    (hnames : ∀ entry ∈ entries, IsSegment entry.1 ∧ entry.1 ≠ "." ∧ entry.1 ≠ "..")
    (hbelow : ∀ entry ∈ entries, entry.2.Ordinary) : (FileTree.directory entries).Ordinary where
  wellFormed := .directory hsorted (fun entry h => (hnames entry h).1) fun entry h =>
    (hbelow entry h).wellFormed
  linkless := .directory fun entry h => (hbelow entry h).linkless
  undotted := .directory (fun entry h => (hnames entry h).2) fun entry h => (hbelow entry h).undotted

/-- A directory without links stands at the path, on a volume as systems have them. -/
structure Volume.HoldsRepository (v : Volume) (path : String)
    (entries : List (String × FileTree)) : Prop where
  anchored : v.Anchored
  wellFormed : v.top.WellFormed
  resolves : ∃ real, v.resolve path = .ok (real, .directory entries)
  linkless : (FileTree.directory entries).Linkless
  undotted : (FileTree.directory entries).Undotted

namespace Volume.HoldsRepository

variable {v w : Volume} {path : String} {entries entries' : List (String × FileTree)}
variable {names : List String} {plan : Walk.Plan}

theorem isDirectory (h : v.HoldsRepository path entries) : v.isDirectory path = true := by
  obtain ⟨real, hresolve⟩ := h.resolves
  simp [Volume.isDirectory, hresolve, FileTree.isDirectory]

theorem sight_join (h : v.HoldsRepository path entries) (hne : names ≠ [])
    (hnames : ∀ name ∈ names, IsSegment name ∧ NamesEntry name)
    (hout : (FileTree.directory entries).Outside names) :
    v.sight (Path.join path (Path.ofSegments names)) =
      (FileTree.directory entries).withoutExcluded.sight names := by
  obtain ⟨real, hresolve⟩ := h.resolves
  have hwf := h.wellFormed.at? (Volume.at?_of_resolve hresolve)
  rw [FileTree.sight_withoutExcluded hwf hout]
  exact Volume.sight_join h.anchored hresolve h.linkless hne hnames

section Visits

variable {walk : WalkSettings} {includeDirs : Bool} {e : Walk.Entry}

theorem names_of_visit (h : v.HoldsRepository path entries)
    (hplan : Walk.Plan.ofSettings path walk includeDirs = .ok plan)
    (he : e ∈ (Scan.ofEvents path (plan.events v)).entries) :
    e.names ≠ [] ∧ ∀ name ∈ e.names, IsSegment name ∧ NamesEntry name := by
  obtain ⟨real, hresolve⟩ := h.resolves
  obtain ⟨hne, hsegments⟩ := Walk.names_of_visit h.wellFormed (Walk.mem_scan_entries.mp he)
  obtain ⟨-, ⟨t, hat, -, -⟩, -⟩ := (Walk.scan_exact h.wellFormed hplan hresolve h.linkless e).mp he
  refine ⟨hne, fun name hname => ?_⟩
  obtain ⟨hdot, hup⟩ := h.undotted.of_at? hat name hname
  exact ⟨hsegments name hname, (hsegments name hname).1, hdot, hup⟩

/-- The path of a visited entry shows what the entry is outside the excluded directories. -/
theorem sight_of_visit (h : v.HoldsRepository path entries)
    (hplan : Walk.Plan.ofSettings path walk includeDirs = .ok plan)
    (he : e ∈ (Scan.ofEvents path (plan.events v)).entries) :
    v.sight (Walk.pathOf path e.names) =
      (FileTree.directory entries).withoutExcluded.sight e.names := by
  obtain ⟨real, hresolve⟩ := h.resolves
  obtain ⟨hne, hnames⟩ := h.names_of_visit hplan he
  obtain ⟨-, -, hkept⟩ := (Walk.scan_exact h.wellFormed hplan hresolve h.linkless e).mp he
  have hout : (FileTree.directory entries).Outside e.names := by
    intro upper name sub hupper hsub
    have hshown := hkept (upper ++ [name]) sub (by simp) hupper hsub
    rw [FileTree.isExcluded, Bool.and_eq_false_iff]
    by_contra hboth
    simp only [not_or, Bool.not_eq_false] at hboth
    exact hshown (.inl ⟨hboth.1, name, by simp, .inl hboth.2⟩)
  rw [Walk.pathOf_eq_join hne fun name hname => (hnames name hname).1]
  exact h.sight_join hne hnames hout

/-- The path of a visited entry shows what stands in the tree. -/
theorem sight_eq_of_visit (h : v.HoldsRepository path entries)
    (hplan : Walk.Plan.ofSettings path walk includeDirs = .ok plan)
    (he : e ∈ (Scan.ofEvents path (plan.events v)).entries) :
    ∃ t, (FileTree.directory entries).at? e.names = some t ∧ e.isDirectory = t.isDirectory ∧
      v.sight (Walk.pathOf path e.names) = .ok t.cover := by
  obtain ⟨real, hresolve⟩ := h.resolves
  obtain ⟨hne, hnames⟩ := h.names_of_visit hplan he
  obtain ⟨-, ⟨t, hat, hkind, -⟩, -⟩ :=
    (Walk.scan_exact h.wellFormed hplan hresolve h.linkless e).mp he
  refine ⟨t, hat, hkind, ?_⟩
  rw [Walk.pathOf_eq_join hne fun name hname => (hnames name hname).1,
    Volume.sight_join h.anchored hresolve h.linkless hne hnames, FileTree.sight_of_at? hat]

end Visits

/-- Two repositories that are the same outside excluded directories are walked the same way. -/
theorem events_eq (h : v.HoldsRepository path entries) (h' : w.HoldsRepository path entries')
    (hsame : (FileTree.directory entries).withoutExcluded =
      (FileTree.directory entries').withoutExcluded)
    (hroot : plan.root = path) (hplan : plan.LeavesOutFixed) : plan.events v = plan.events w := by
  obtain ⟨real, hresolve⟩ := h.resolves
  obtain ⟨real', hresolve'⟩ := h'.resolves
  subst hroot
  rw [Walk.events_of_directory hresolve, Walk.events_of_directory hresolve']
  have houtside : FileTree.entriesOutside entries = FileTree.entriesOutside entries' := by
    simpa only [FileTree.withoutExcluded, FileTree.directory.injEq] using hsame
  have hlinks : ∀ {entries : List (String × FileTree)}, (FileTree.directory entries).Linkless →
      ∀ entry ∈ entries, entry.2.Linkless := by
    intro entries hlinks
    cases hlinks with
    | directory below => exact below
  calc
    Walk.directoryEvents v plan [(real, plan.root)] real [] entries
        = Walk.directoryEvents v plan [] [] [] (FileTree.entriesOutside entries) :=
      Walk.directoryEvents_entriesOutside hplan fun entry hentry _ _ =>
        Walk.entryEvents_withoutExcluded hplan (hlinks h.linkless entry hentry)
    _ = Walk.directoryEvents v plan [] [] [] (FileTree.entriesOutside entries') := by
      rw [houtside]
    _ = Walk.directoryEvents w plan [(real', plan.root)] real' [] entries' :=
      (Walk.directoryEvents_entriesOutside hplan fun entry hentry _ _ =>
        Walk.entryEvents_withoutExcluded hplan (hlinks h'.linkless entry hentry)).symm

end Volume.HoldsRepository
end RepoAudit
