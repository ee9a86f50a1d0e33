import RepoAudit.Proofs.FileTree.Events
import RepoAudit.Proofs.Path
import Mathlib

/-!
# What a walk visits

The entries of a scan come in the order of their paths, none of them is the root or lies in a
directory that is never entered, and without links they are exactly the entries that no setting
leaves out.
-/

namespace RepoAudit

/-- The settings leave out what the names lead to: a directory by its own name, anything by its
path. -/
def WalkSettings.LeavesOut (settings : WalkSettings) (names : List String) (isDirectory : Bool) :
    Prop :=
  (isDirectory = true ∧ ∃ name, names.getLast? = some name ∧
    (isExcludedDir name = true ∨ name ∈ settings.excludeDirs)) ∨
  ∃ pattern ∈ settings.ignorePatterns, ∃ glob, Glob.ofText pattern = .ok glob ∧
    glob.matchesPath (Path.ofSegments names) = true

namespace Walk

variable {v : Volume} {plan : Plan} {opened : List Open} {here real : Location}
variable {names : List String} {t : FileTree} {entries : List (String × FileTree)}
variable {root : String} {settings : WalkSettings} {includeDirs : Bool}

/-! ## Plans -/

theorem mem_of_readPatterns {patterns : List String} {globs : List Glob}
    (hread : readPatterns patterns = .ok globs) (glob : Glob) :
    glob ∈ globs ↔ ∃ pattern ∈ patterns, Glob.ofText pattern = .ok glob := by
  induction patterns generalizing globs with
  | nil =>
      obtain rfl : globs = [] := by simpa [readPatterns, eq_comm] using hread
      simp
  | cons pattern patterns ih =>
      rw [readPatterns] at hread
      cases hfirst : Glob.ofText pattern with
      | error e => simp [hfirst, bind, Except.bind] at hread
      | ok first =>
          cases hrest : readPatterns patterns with
          | error e => simp [hfirst, hrest, bind, Except.bind] at hread
          | ok rest =>
              obtain rfl : globs = first :: rest := by
                simpa [hfirst, hrest, bind, Except.bind, pure, Except.pure, eq_comm] using hread
              simp [ih hrest, hfirst, eq_comm]

theorem ofSettings_cases (hplan : Plan.ofSettings root settings includeDirs = .ok plan) :
    plan.root = root ∧ plan.includeDirs = includeDirs ∧
      plan.excluded = excludedDirs ++ settings.excludeDirs ∧
      readPatterns settings.ignorePatterns = .ok plan.ignored := by
  unfold Plan.ofSettings at hplan
  cases hread : readPatterns settings.ignorePatterns with
  | error e => simp [hread, bind, Except.bind] at hplan
  | ok ignored =>
      simp only [hread, bind, Except.bind, pure, Except.pure, Except.ok.injEq] at hplan
      subst hplan
      exact ⟨rfl, rfl, rfl, rfl⟩

theorem prunes_iff_leavesOut (hplan : Plan.ofSettings root settings includeDirs = .ok plan)
    (hne : names ≠ []) (isDirectory : Bool) :
    plan.prunes names isDirectory = true ↔ settings.LeavesOut names isDirectory := by
  obtain ⟨_, _, hexcluded, hread⟩ := ofSettings_cases hplan
  have hname : names.getLast? = some (names.getLast hne) := List.getLast?_eq_some_getLast hne
  simp only [Plan.prunes, WalkSettings.LeavesOut, hexcluded, hname, Option.getD_some,
    Bool.or_eq_true, Bool.and_eq_true, List.contains_iff_mem, List.mem_append, List.any_eq_true,
    Option.some.injEq, isExcludedDir]
  apply or_congr
  · simp
  · simp only [mem_of_readPatterns hread]
    constructor
    · rintro ⟨glob, ⟨pattern, hpattern, hglob⟩, hmatch⟩
      exact ⟨pattern, hpattern, glob, hglob, hmatch⟩
    · rintro ⟨pattern, hpattern, glob, hglob, hmatch⟩
      exact ⟨glob, ⟨pattern, hpattern, hglob⟩, hmatch⟩

/-! ## Trees without links -/

/-- Nothing from an entry down to what stands at `rest` below it is left out. -/
def Plan.Keeps (plan : Plan) (names : List String) (t : FileTree) (rest : Location) : Prop :=
  ∀ upper sub, upper <+: rest → t.at? upper = some sub →
    plan.prunes (names ++ upper) sub.isDirectory = false

/-- The entry stands in the tree that the names lead to, is wanted, and is kept. -/
def Plan.Shows (plan : Plan) (names : List String) (t : FileTree) (e : Entry) : Prop :=
  ∃ rest sub, e.names = names ++ rest ∧ t.at? rest = some sub ∧
    e.isDirectory = sub.isDirectory ∧ (sub.isDirectory = true → plan.includeDirs = true) ∧
    plan.Keeps names t rest

theorem keeps_nil : plan.Keeps names t [] ↔ plan.prunes names t.isDirectory = false := by
  constructor
  · intro hkeeps
    simpa using hkeeps [] t (List.nil_prefix) rfl
  · intro hkept upper sub hupper hsub
    obtain rfl : upper = [] := List.prefix_nil.mp hupper
    obtain rfl : t = sub := by simpa [FileTree.at?] using hsub
    simpa using hkept

theorem keeps_cons {name : String} {child : FileTree} {rest : Location}
    (hlookup : entries.lookup name = some child) :
    plan.Keeps names (.directory entries) (name :: rest) ↔
      plan.prunes names true = false ∧ plan.Keeps (names ++ [name]) child rest := by
  constructor
  · intro hkeeps
    constructor
    · simpa [FileTree.isDirectory] using hkeeps [] (.directory entries) List.nil_prefix rfl
    · intro upper sub hupper hsub
      have hstep := hkeeps (name :: upper) sub (by simpa using hupper)
        (by simpa [FileTree.at?_directory_cons, hlookup] using hsub)
      simpa using hstep
  · rintro ⟨hown, hbelow⟩ upper sub hupper hsub
    cases upper with
    | nil =>
        obtain rfl : FileTree.directory entries = sub := by simpa [FileTree.at?] using hsub
        simpa [FileTree.isDirectory] using hown
    | cons first upper =>
        obtain ⟨rfl, htail⟩ := List.cons_prefix_cons.mp hupper
        have hsub : child.at? upper = some sub := by
          simpa [FileTree.at?_directory_cons, hlookup] using hsub
        simpa using hbelow upper sub htail hsub

theorem shows_file {bytes : ByteArray} {e : Entry} :
    plan.Shows names (.file bytes) e ↔
      plan.prunes names false = false ∧ e = ⟨names, false⟩ := by
  constructor
  · rintro ⟨rest, sub, hnames, hsub, hkind, _, hkeeps⟩
    cases rest with
    | nil =>
        obtain rfl : FileTree.file bytes = sub := by simpa [FileTree.at?] using hsub
        refine ⟨keeps_nil.mp hkeeps, ?_⟩
        cases e
        simp_all [FileTree.isDirectory]
    | cons name rest => simp [FileTree.at?, FileTree.child?] at hsub
  · rintro ⟨hkept, rfl⟩
    exact ⟨[], .file bytes, by simp, rfl, rfl, by simp [FileTree.isDirectory],
      keeps_nil.mpr hkept⟩

theorem shows_directory (hsorted : entries.Pairwise fun a b => a.1 < b.1) {e : Entry} :
    plan.Shows names (.directory entries) e ↔
      plan.prunes names true = false ∧
        ((plan.includeDirs = true ∧ e = ⟨names, true⟩) ∨
          ∃ entry ∈ entries, plan.Shows (names ++ [entry.1]) entry.2 e) := by
  constructor
  · rintro ⟨rest, sub, hnames, hsub, hkind, hwanted, hkeeps⟩
    cases rest with
    | nil =>
        obtain rfl : FileTree.directory entries = sub := by simpa [FileTree.at?] using hsub
        refine ⟨keeps_nil.mp hkeeps, .inl ⟨hwanted rfl, ?_⟩⟩
        cases e
        simp_all [FileTree.isDirectory]
    | cons name rest =>
        rw [FileTree.at?_directory_cons, Option.bind_eq_some_iff] at hsub
        obtain ⟨child, hlookup, hsub⟩ := hsub
        obtain ⟨hown, hbelow⟩ := (keeps_cons hlookup).mp hkeeps
        exact ⟨hown, .inr ⟨(name, child), FileTree.mem_of_lookup hlookup, rest, sub,
          by simpa using hnames, hsub, hkind, hwanted, hbelow⟩⟩
  · rintro ⟨hown, ⟨hdirs, rfl⟩ | ⟨⟨name, child⟩, hentry, hshows⟩⟩
    · exact ⟨[], .directory entries, by simp, rfl, rfl, fun _ => hdirs, keeps_nil.mpr hown⟩
    · obtain ⟨rest, sub, hnames, hsub, hkind, hwanted, hkeeps⟩ := hshows
      have hlookup := FileTree.lookup_of_mem hsorted hentry
      refine ⟨name :: rest, sub, by simpa using hnames, ?_, hkind, hwanted,
        (keeps_cons hlookup).mpr ⟨hown, hkeeps⟩⟩
      rw [FileTree.at?_directory_cons, hlookup]
      exact hsub

/-- Below an entry without links the walk visits what the plan shows. -/
theorem visit_mem_entryEvents (ht : t.WellFormed) (hlinks : t.Linkless) {e : Entry} :
    .visit e ∈ entryEvents v plan opened here names t ↔ plan.Shows names t e := by
  induction hlinks generalizing opened here names with
  | file bytes =>
      rw [shows_file, mem_entryEvents]
      by_cases hpruned : plan.prunes names false = true
      · simp [Plan.meet, Plan.meetLeaf, hpruned]
      · simp [Plan.meet, Plan.meetLeaf, hpruned]
  | @directory entries below ih =>
      cases ht with
      | directory sorted segments wellFormed =>
          rw [shows_directory sorted, mem_entryEvents]
          by_cases hpruned : plan.prunes names true = true
          · simp [Plan.meet, Plan.meetDirectory, hpruned]
          · have hchildren : ∀ opened,
                .visit e ∈ directoryEvents v plan opened here names entries ↔
                  ∃ entry ∈ entries, plan.Shows (names ++ [entry.1]) entry.2 e := by
              intro opened
              rw [mem_directoryEvents]
              exact exists_congr fun entry => and_congr_right fun hentry =>
                ih entry hentry (wellFormed entry hentry)
            by_cases hdirs : plan.includeDirs = true
            · simp [Plan.meet, Plan.meetDirectory, hpruned, Plan.ownVisit, hdirs, hchildren]
            · simp [Plan.meet, Plan.meetDirectory, hpruned, Plan.ownVisit, hdirs, hchildren]

/-! ## Whole walks -/

theorem mem_scan_entries {events : List Event} {e : Entry} :
    e ∈ (Scan.ofEvents root events).entries ↔ .visit e ∈ events := by
  simp only [Scan.ofEvents, List.mem_filterMap]
  constructor
  · rintro ⟨event, hevent, hvisit⟩
    cases event with
    | visit other =>
        obtain rfl : other = e := by simpa using hvisit
        exact hevent
    | problem names warning => simp at hvisit
  · intro hevent
    exact ⟨.visit e, hevent, rfl⟩

theorem events_of_directory
    (hroot : v.resolve plan.root = .ok (real, .directory entries)) :
    plan.events v = directoryEvents v plan [(real, plan.root)] real [] entries := by
  simp [Plan.events, hroot]

/-- Unless the root cannot be resolved, every event belongs to an entry of the directory there. -/
theorem mem_events {e : Event} (he : e ∈ plan.events v) :
    (∃ error, v.resolve plan.root = .error error ∧ e = .problem [] (failure plan.root error)) ∨
      ∃ real entries, v.resolve plan.root = .ok (real, .directory entries) ∧
        e ∈ directoryEvents v plan [(real, plan.root)] real [] entries := by
  unfold Plan.events at he
  split at he
  next error hresolve => exact .inl ⟨error, hresolve, by simpa using he⟩
  next real entries hresolve => exact .inr ⟨real, entries, hresolve, he⟩
  next => simp at he

theorem events_sorted (hv : v.top.WellFormed) :
    (plan.events v).Pairwise fun a b => PathBefore a.names b.names := by
  unfold Plan.events
  split
  · simp
  next real entries hresolve =>
    cases hv.at? (Volume.at?_of_resolve hresolve) with
    | directory sorted segments below =>
        exact directoryEvents_sorted sorted fun entry hentry =>
          entryEvents_sorted hv (below entry hentry)
  · simp

/-- A visited entry lies below the root, and every name on the way to it is a segment. -/
theorem names_of_visit (hv : v.top.WellFormed) {e : Entry} (he : .visit e ∈ plan.events v) :
    e.names ≠ [] ∧ ∀ name ∈ e.names, IsSegment name := by
  rcases mem_events he with ⟨_, _, hproblem⟩ | ⟨real, entries, hresolve, he⟩
  · simp at hproblem
  · obtain ⟨entry, hentry, hvisit⟩ := mem_directoryEvents.mp he
    cases hv.at? (Volume.at?_of_resolve hresolve) with
    | directory sorted segments below =>
        constructor
        · intro hempty
          have hlead := prefix_of_mem_entryEvents hvisit
          simp [Event.names, hempty] at hlead
        · refine segments_of_mem_entryEvents hv (below entry hentry) ?_ hvisit
          simpa using segments entry hentry

/-- No directory on the way to a visited entry is left out. -/
theorem not_prunes_above_visit {e : Entry} (he : .visit e ∈ plan.events v)
    {above : List String} (hne : above ≠ []) (hto : above <+: e.names)
    (hproper : above ≠ e.names) : plan.prunes above true = false := by
  rcases mem_events he with ⟨_, _, hproblem⟩ | ⟨real, entries, _, he⟩
  · simp at hproblem
  · obtain ⟨entry, _, hvisit⟩ := mem_directoryEvents.mp he
    have hfrom : [entry.1] <+: above := by
      refine List.prefix_of_prefix_length_le (prefix_of_mem_entryEvents hvisit) hto ?_
      simpa [Nat.one_le_iff_ne_zero] using hne
    exact not_prunes_of_mem_entryEvents hvisit hfrom hto hproper

/-- A name before the last one ends a path that leads to a directory above. -/
theorem exists_above_of_mem_dropLast {name : String} (hname : name ∈ names.dropLast) :
    ∃ above, above <+: names ∧ above ≠ names ∧ above.getLast? = some name := by
  obtain ⟨before, after, hsplit⟩ := List.append_of_mem hname
  refine ⟨before ++ [name], ?_, ?_, by simp⟩
  · refine List.IsPrefix.trans ?_ (List.dropLast_prefix names)
    rw [hsplit]
    exact ⟨after, by simp⟩
  · intro heq
    have hlength := congrArg List.length hsplit
    rw [← heq] at hlength
    simp at hlength

/-- What is shown below the entries of a directory, said of the directory itself. -/
theorem exists_shows_iff (hsorted : entries.Pairwise fun a b => a.1 < b.1) {e : Entry} :
    (∃ entry ∈ entries, plan.Shows [entry.1] entry.2 e) ↔
      e.names ≠ [] ∧
      (∃ t, (FileTree.directory entries).at? e.names = some t ∧ e.isDirectory = t.isDirectory ∧
        (t.isDirectory = true → plan.includeDirs = true)) ∧
      ∀ upper t, upper ≠ [] → upper <+: e.names →
        (FileTree.directory entries).at? upper = some t →
        plan.prunes upper t.isDirectory = false := by
  constructor
  · rintro ⟨⟨name, child⟩, hentry, rest, sub, hnames, hsub, hkind, hwanted, hkeeps⟩
    have hlookup := FileTree.lookup_of_mem hsorted hentry
    rw [hnames]
    refine ⟨by simp, ⟨sub, ?_, hkind, hwanted⟩, ?_⟩
    · simpa [FileTree.at?_directory_cons, hlookup] using hsub
    · intro upper t hne hupper ht
      cases upper with
      | nil => exact absurd rfl hne
      | cons first upper =>
          obtain ⟨rfl, htail⟩ := List.cons_prefix_cons.mp hupper
          refine hkeeps upper t htail ?_
          simpa [FileTree.at?_directory_cons, hlookup] using ht
  · rintro ⟨hne, ⟨t, ht, hkind, hwanted⟩, hkept⟩
    obtain ⟨name, rest, hnames⟩ := List.exists_cons_of_ne_nil hne
    rw [hnames] at ht hkept
    rw [FileTree.at?_directory_cons, Option.bind_eq_some_iff] at ht
    obtain ⟨child, hlookup, hsub⟩ := ht
    refine ⟨(name, child), FileTree.mem_of_lookup hlookup, rest, t, hnames, hsub, hkind,
      hwanted, ?_⟩
    intro upper sub hupper hstands
    refine hkept (name :: upper) sub (by simp) (by simpa using hupper) ?_
    simpa [FileTree.at?_directory_cons, hlookup] using hstands

theorem scan_sorted (hv : v.top.WellFormed) (root : String) :
    (Scan.ofEvents root (plan.events v)).entries.Pairwise fun a b =>
      PathBefore (Path.segments a.relative) (Path.segments b.relative) := by
  rw [Scan.ofEvents, List.pairwise_filterMap]
  refine (events_sorted hv).imp_of_mem ?_
  intro a b ha hb hbefore x hx y hy
  cases a with
  | problem names warning => simp at hx
  | visit a =>
      cases b with
      | problem names warning => simp at hy
      | visit b =>
          obtain rfl : a = x := by simpa using hx
          obtain rfl : b = y := by simpa using hy
          obtain ⟨hane, hasegments⟩ := names_of_visit hv ha
          obtain ⟨hbne, hbsegments⟩ := names_of_visit hv hb
          rw [Entry.relative, Entry.relative, Path.segments_ofSegments hane hasegments,
            Path.segments_ofSegments hbne hbsegments]
          exact hbefore

theorem scan_outside_excluded (hv : v.top.WellFormed)
    (hplan : Plan.ofSettings root settings includeDirs = .ok plan) {e : Entry}
    (he : e ∈ (Scan.ofEvents root (plan.events v)).entries) :
    e.names ≠ [] ∧ ∀ name ∈ e.names.dropLast,
      isExcludedDir name = false ∧ name ∉ settings.excludeDirs := by
  have hvisit := mem_scan_entries.mp he
  refine ⟨(names_of_visit hv hvisit).1, ?_⟩
  intro name hname
  obtain ⟨above, hto, hproper, hlast⟩ := exists_above_of_mem_dropLast hname
  have hne : above ≠ [] := by
    rintro rfl
    simp at hlast
  have hkept := not_prunes_above_visit hvisit hne hto hproper
  have hnot : ¬ settings.LeavesOut above true := by
    rw [← prunes_iff_leavesOut hplan hne, hkept]
    simp
  constructor
  · by_contra hexcluded
    exact hnot (.inl ⟨rfl, name, hlast, .inl (by simpa using hexcluded)⟩)
  · intro hexcluded
    exact hnot (.inl ⟨rfl, name, hlast, .inr hexcluded⟩)

theorem scan_exact (hv : v.top.WellFormed)
    (hplan : Plan.ofSettings root settings includeDirs = .ok plan) {tree : FileTree}
    (hresolve : v.resolve root = .ok (here, tree)) (hlinks : tree.Linkless) (e : Entry) :
    e ∈ (Scan.ofEvents root (plan.events v)).entries ↔
      e.names ≠ [] ∧
      (∃ t, tree.at? e.names = some t ∧ e.isDirectory = t.isDirectory ∧
        (t.isDirectory = true → includeDirs = true)) ∧
      ∀ upper t, upper ≠ [] → upper <+: e.names → tree.at? upper = some t →
        ¬ settings.LeavesOut upper t.isDirectory := by
  obtain ⟨hroot, hdirs, _, _⟩ := ofSettings_cases hplan
  have hkept : ∀ {upper : List String} {t : FileTree}, upper ≠ [] →
      (plan.prunes upper t.isDirectory = false ↔
        ¬ settings.LeavesOut upper t.isDirectory) := by
    intro upper t hne
    rw [← prunes_iff_leavesOut hplan hne, Bool.not_eq_true]
  rw [mem_scan_entries]
  cases hlinks with
  | file bytes =>
      have hnone : .visit e ∉ plan.events v := by
        simp [Plan.events, hroot, hresolve]
      refine iff_of_false hnone ?_
      rintro ⟨hne, ⟨t, ht, _⟩, _⟩
      obtain ⟨name, rest, hnames⟩ := List.exists_cons_of_ne_nil hne
      simp [hnames, FileTree.at?, FileTree.child?] at ht
  | @directory entries below =>
      cases hv.at? (Volume.at?_of_resolve hresolve) with
      | directory sorted segments wellFormed =>
          rw [events_of_directory (hroot ▸ hresolve), mem_directoryEvents]
          have hshows : ∀ entry ∈ entries,
              (.visit e ∈ entryEvents v plan [(here, plan.root)] (here ++ [entry.1])
                  ([] ++ [entry.1]) entry.2 ↔ plan.Shows [entry.1] entry.2 e) :=
            fun entry hentry =>
              visit_mem_entryEvents (wellFormed entry hentry) (below entry hentry)
          rw [exists_congr fun entry => and_congr_right (hshows entry),
            exists_shows_iff sorted, hdirs]
          refine and_congr_right fun _ => and_congr_right fun _ => ?_
          exact forall₂_congr fun upper t => forall_congr' fun hne =>
            forall₂_congr fun _ _ => hkept hne

/-- The entries of a scan come in the order of their paths.  None is the root, and none lies in a
directory with an excluded name.  Below a root without links they are exactly the entries of which
the settings leave out neither the entry nor a directory above it. -/
theorem scan_sorted_and_exact (hv : v.top.WellFormed)
    (hplan : Plan.ofSettings root settings includeDirs = .ok plan) :
    ((Scan.ofEvents root (plan.events v)).entries.Pairwise fun a b =>
        PathBefore (Path.segments a.relative) (Path.segments b.relative)) ∧
      (∀ e ∈ (Scan.ofEvents root (plan.events v)).entries,
        e.names ≠ [] ∧ ∀ name ∈ e.names.dropLast,
          isExcludedDir name = false ∧ name ∉ settings.excludeDirs) ∧
      ∀ here tree, v.resolve root = .ok (here, tree) → tree.Linkless →
        ∀ e, e ∈ (Scan.ofEvents root (plan.events v)).entries ↔
          e.names ≠ [] ∧
          (∃ t, tree.at? e.names = some t ∧ e.isDirectory = t.isDirectory ∧
            (t.isDirectory = true → includeDirs = true)) ∧
          ∀ upper t, upper ≠ [] → upper <+: e.names → tree.at? upper = some t →
            ¬ settings.LeavesOut upper t.isDirectory := by
  exact ⟨scan_sorted hv root, fun e he => scan_outside_excluded hv hplan he,
    fun here tree hresolve hlinks e => scan_exact hv hplan hresolve hlinks e⟩

/-- A build directory inside another directory, and a sibling whose name continues the name of that
directory. -/
def nested : Volume :=
  { name := "r"
    top := .directory [
      ("a", .directory [
        ("build", .directory [("y", .file ⟨#[]⟩)]),
        ("x", .file ⟨#[]⟩)]),
      ("a.b", .file ⟨#[]⟩)] }

def nestedSettings : WalkSettings :=
  { ignorePatterns := ["*.b"] }

def nestedPlan : Plan :=
  { root := "r"
    excluded := excludedDirs
    ignored := [⟨[.anySequence, .char '.', .char 'b']⟩]
    includeDirs := true
    follow := true }

theorem nested_wellFormed : nested.top.WellFormed := by
  have hbuild : (FileTree.directory [("y", .file ⟨#[]⟩)]).WellFormed :=
    .directory (by simp) (by simp [IsSegment]) (by simp [FileTree.WellFormed.file])
  have ha : (FileTree.directory [
      ("build", .directory [("y", .file ⟨#[]⟩)]), ("x", .file ⟨#[]⟩)]).WellFormed := by
    refine .directory ?_ (by simp [IsSegment]) (by simp [hbuild, FileTree.WellFormed.file])
    have hlt : ("build" : String) < "x" := by decide
    simpa using hlt
  refine .directory ?_ (by simp [IsSegment]) (by simp [ha, FileTree.WellFormed.file])
  have hlt : ("a" : String) < "a.b" := by decide
  simpa using hlt

theorem nested_linkless : nested.top.Linkless := by
  have hbuild : (FileTree.directory [("y", .file ⟨#[]⟩)]).Linkless :=
    .directory (by simp [FileTree.Linkless.file])
  have ha : (FileTree.directory [
      ("build", .directory [("y", .file ⟨#[]⟩)]), ("x", .file ⟨#[]⟩)]).Linkless :=
    .directory (by simp [hbuild, FileTree.Linkless.file])
  exact .directory (by simp [ha, FileTree.Linkless.file])

/-- Of three files the walk visits the one that no directory name and no pattern leaves out. -/
theorem nested_scan :
    nested.top.WellFormed ∧ Plan.ofSettings "r" nestedSettings true = .ok nestedPlan ∧
      nested.resolve "r" = .ok ([], nested.top) ∧ nested.top.Linkless ∧
      ⟨["a", "x"], false⟩ ∈ (Scan.ofEvents "r" (nestedPlan.events nested)).entries ∧
      ⟨["a", "build", "y"], false⟩ ∉ (Scan.ofEvents "r" (nestedPlan.events nested)).entries ∧
      ⟨["a.b"], false⟩ ∉ (Scan.ofEvents "r" (nestedPlan.events nested)).entries := by
  have hplan : Plan.ofSettings "r" nestedSettings true = .ok nestedPlan := by cbv
  have hresolve : nested.resolve "r" = .ok ([], nested.top) := by cbv
  obtain ⟨_, hexcluded, hexact⟩ := scan_sorted_and_exact nested_wellFormed hplan
  have hexact := hexact [] nested.top hresolve nested_linkless
  refine ⟨nested_wellFormed, hplan, hresolve, nested_linkless, ?_, ?_, ?_⟩
  · rw [hexact]
    refine ⟨by simp, ⟨.file ⟨#[]⟩, by cbv, rfl, by simp [FileTree.isDirectory]⟩, ?_⟩
    intro upper t hne hupper ht hout
    have hpruned := (prunes_iff_leavesOut hplan hne t.isDirectory).mpr hout
    have hcases : upper = ["a"] ∨ upper = ["a", "x"] := by
      rw [← List.mem_inits] at hupper
      simpa [hne] using hupper
    rcases hcases with rfl | rfl
    · have hkept : nestedPlan.prunes ["a"] true = false := by cbv
      have hnot : nestedPlan.prunes ["a"] false = false := by cbv
      cases hkind : t.isDirectory <;> simp_all
    · have hkept : nestedPlan.prunes ["a", "x"] true = false := by cbv
      have hnot : nestedPlan.prunes ["a", "x"] false = false := by cbv
      cases hkind : t.isDirectory <;> simp_all
  · intro hvisited
    have hbuild := (hexcluded _ hvisited).2 "build" (by simp)
    simp [isExcludedDir, excludedDirs] at hbuild
  · rw [hexact]
    rintro ⟨_, _, hkept⟩
    refine hkept ["a.b"] (.file ⟨#[]⟩) (by simp) (by simp) (by cbv) (.inr ⟨"*.b", ?_⟩)
    exact ⟨by simp [nestedSettings], ⟨[.anySequence, .char '.', .char 'b']⟩, by cbv, by cbv⟩

end Walk
end RepoAudit
