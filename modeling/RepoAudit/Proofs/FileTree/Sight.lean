import RepoAudit.Proofs.Except
import RepoAudit.Proofs.FileTree.Lookup

/-!
# What a look-up shows

Of a directory that a path leads to, a look-up shows only that it is one.  Below a directory that
holds no links, what it shows follows from the tree of the directory alone, wherever the directory
stands and however its path is written.
-/

namespace RepoAudit

namespace FileTree

/-- The bytes of a file, and of a directory only that it is one. -/
def cover : FileTree → FileTree
  | .directory _ => .directory []
  | t => t

@[simp] theorem isFile_cover (t : FileTree) : t.cover.isFile = t.isFile := by
  cases t <;> rfl

@[simp] theorem isDirectory_cover (t : FileTree) : t.cover.isDirectory = t.isDirectory := by
  cases t <;> rfl

theorem isDirectory_eq_of_cover {t t' : FileTree} (h : t'.cover = t.cover) :
    t'.isDirectory = t.isDirectory := by
  rw [← isDirectory_cover, h, isDirectory_cover]

/-- What the names show below a tree without links. -/
def sight (t : FileTree) : List String → Except SystemError FileTree
  | [] => .ok t.cover
  | name :: rest =>
      match t with
      | .directory entries =>
          match entries.lookup name with
          | some sub => sub.sight rest
          | none => .error .notFound
      | _ => .error .notADirectory

theorem sight_of_at? {t sub : FileTree} {names : List String} (hat : t.at? names = some sub) :
    t.sight names = .ok sub.cover := by
  induction names generalizing t with
  | nil =>
      obtain rfl := Option.some.inj hat
      rfl
  | cons name names ih =>
      obtain ⟨child, hchild, hrest⟩ := Option.bind_eq_some_iff.mp hat
      cases t with
      | file bytes => cases hchild
      | link target => cases hchild
      | directory entries =>
          have hlookup : entries.lookup name = some child := hchild
          rw [sight, hlookup]
          exact ih hrest

end FileTree

namespace Volume

/-- What the path shows. -/
def sight (v : Volume) (path : String) : Except SystemError FileTree :=
  (v.resolve path).map fun found => found.2.cover

variable {v w : Volume} {path : String}

theorem isFile_eq (v : Volume) (path : String) :
    v.isFile path = match v.sight path with
      | .ok t => t.isFile
      | .error _ => false := by
  rw [isFile, sight]
  cases v.resolve path <;> simp [Except.map]

theorem isDirectory_eq (v : Volume) (path : String) :
    v.isDirectory path = match v.sight path with
      | .ok t => t.isDirectory
      | .error _ => false := by
  rw [isDirectory, sight]
  cases v.resolve path <;> simp [Except.map]

theorem toBool_resolve_eq (v : Volume) (path : String) :
    (v.resolve path).toBool = (v.sight path).toBool := by
  rw [sight]
  cases v.resolve path <;> rfl

theorem readText_eq (v : Volume) (path : String) :
    v.readText path = match v.sight path with
      | .error e => .error (.system e)
      | .ok (.file bytes) => decodeBytes bytes
      | .ok _ => .error (.system .isADirectory) := by
  rw [readText, sight]
  cases v.resolve path with
  | error e => rfl
  | ok found =>
      obtain ⟨real, t⟩ := found
      cases t <;> rfl

theorem isFile_congr (h : v.sight path = w.sight path) : v.isFile path = w.isFile path := by
  rw [isFile_eq, isFile_eq, h]

theorem isDirectory_congr (h : v.sight path = w.sight path) :
    v.isDirectory path = w.isDirectory path := by
  rw [isDirectory_eq, isDirectory_eq, h]

theorem readText_congr (h : v.sight path = w.sight path) : v.readText path = w.readText path := by
  rw [readText_eq, readText_eq, h]

/-! ## Going on from where a path leads -/

variable {top t : FileTree} {links : Nat} {here real : Location} {parts more names : List String}

/-- Parts after those of a path are followed from where the path leads, with the links that are
still allowed. -/
theorem resolveFrom_append (top : FileTree) (follow : Bool) (links : Nat) (here : Location)
    (parts more : List String) (hlast : more = [] → follow = true) :
    ∃ left, resolveFrom top follow links here (parts ++ more) =
      resolveFrom top true links here parts >>= fun found =>
        resolveFrom top follow left found.1 more := by
  have hfollows : ∀ rest : List String, ((rest ++ more).isEmpty && !follow) = false := by
    intro rest
    cases more with
    | nil => simp [hlast rfl]
    | cons next more => simp
  generalize hall : true = always
  fun_induction resolveFrom top always links here parts with
  | case1 links here t hhere => exact ⟨links, rfl⟩
  | case2 links here hhere =>
      refine ⟨links, ?_⟩
      rw [List.nil_append, resolveFrom.eq_def]
      cases more <;> simp [hhere, bind, Except.bind]
  | case4 links here part rest entries hhere hskip ih =>
      obtain ⟨left, hleft⟩ := ih
      refine ⟨left, ?_⟩
      rw [← hleft, List.cons_append, resolveFrom.eq_def]
      simp [hhere, hskip]
  | case5 links here part rest entries hhere hskip hup ih =>
      obtain ⟨left, hleft⟩ := ih
      refine ⟨left, ?_⟩
      rw [← hleft, List.cons_append, resolveFrom.eq_def]
      simp [hhere, hskip, hup]
  | case7 links here part rest entries hhere hskip hup target hlookup hlast =>
      simp [← hall] at hlast
  | case10 here part rest entries hhere hskip hup target hlookup hlast links hrelative ih =>
      obtain ⟨left, hleft⟩ := ih
      refine ⟨left, ?_⟩
      rw [← hleft, List.cons_append, resolveFrom.eq_def]
      simp [hhere, hskip, hup, hlookup, hrelative, hfollows]
  | case11 links here part rest entries hhere hskip hup other hother hlookup ih =>
      obtain ⟨left, hleft⟩ := ih
      refine ⟨left, ?_⟩
      rw [← hleft, List.cons_append, resolveFrom.eq_def]
      cases other with
      | link target => exact absurd rfl (hother target)
      | file bytes => simp [hhere, hskip, hup, hlookup]
      | directory inside => simp [hhere, hskip, hup, hlookup]
  | case3 | case6 | case8 | case9 | case12 =>
      subst hall
      refine ⟨0, ?_⟩
      rw [List.cons_append, resolveFrom.eq_def]
      simp [*, bind, Except.bind]

/-- Below a directory without links no link is used up. -/
theorem resolveFrom_linkless (hat : top.at? real = some t) (hlinks : t.Linkless)
    (hnames : ∀ name ∈ names, NamesEntry name) :
    (resolveFrom top true links real names).map (fun found => found.2.cover) = t.sight names := by
  induction names generalizing real t with
  | nil =>
      rw [resolveFrom, hat]
      rfl
  | cons name names ih =>
      rw [List.forall_mem_cons] at hnames
      obtain ⟨⟨hempty, hdot, hup⟩, hnames⟩ := hnames
      cases hlinks with
      | file bytes =>
          rw [resolveFrom.eq_def]
          simp [hat, FileTree.sight, Except.map]
      | @directory entries below =>
          rw [resolveFrom.eq_def, FileTree.sight]
          cases hlookup : entries.lookup name with
          | none => simp [hat, hlookup, hempty, hdot, hup, Except.map]
          | some sub =>
              have hsub : sub.Linkless := below _ (FileTree.mem_of_lookup hlookup)
              have hbelow : top.at? (real ++ [name]) = some sub := by
                rw [FileTree.at?_append, hat]
                simp [FileTree.at?, FileTree.child?, hlookup]
              have hrest := ih hbelow hsub hnames
              cases hsub with
              | file bytes => simpa [hat, hlookup, hempty, hdot, hup] using hrest
              | directory below => simpa [hat, hlookup, hempty, hdot, hup] using hrest

/-! ## Paths below a path -/

/-- The name of a volume is empty, one segment, or a path from the top of a system. -/
def Anchored (v : Volume) : Prop :=
  ∃ first rest, pathParts v.name = first :: rest ∧ "" ∉ rest ∧ (rest ≠ [] → first = "")

/-- A path and what is put after it start at the same place. -/
theorem start?_join {name : String} (hv : v.Anchored) (hstart : v.start? path = some (here, parts))
    (hname : name.toList.head? ≠ some '/') :
    ∃ body pad, (pad = [] ∨ pad = [""]) ∧ parts = body ++ pad ∧
      v.start? (Path.join path name) = some (here, body ++ Path.segments name) := by
  obtain ⟨first, rest, htop, hnamed, habsolute⟩ := hv
  have hpath : path ≠ "" := by
    rintro rfl
    simp [start?] at hstart
  obtain ⟨body, pad, hbody, hpad, hparts, hjoined⟩ := Path.segments_join hpath hname
  have hhead := Path.head?_join hpath hname
  have hjoin : Path.join path name ≠ "" := by
    intro h
    have hlist : path.toList ≠ [] := by simpa using hpath
    rw [h, eq_comm] at hhead
    exact hlist (List.head?_eq_none_iff.mp hhead)
  generalize Path.segments name = names at hjoined ⊢
  change pathParts path = body ++ pad at hparts
  change pathParts (Path.join path name) = body ++ names at hjoined
  obtain ⟨b, more, rfl⟩ := List.exists_cons_of_ne_nil hbody
  have hunder : first :: rest <+: b :: more ++ pad → first :: rest <+: b :: more := by
    intro h
    rcases hpad with rfl | rfl
    · simpa using h
    · rcases List.prefix_concat_iff.mp h with heq | hbelow
      · have hlast : rest = more ++ [""] := (List.cons_eq_cons.mp heq).2
        exact absurd (by simp [hlast]) hnamed
      · exact hbelow
  have hbelow : path.toList.head? ≠ some '/' → first :: rest <+: b :: more ++ names →
      first :: rest <+: b :: more := by
    intro hslash h
    obtain ⟨rfl, -⟩ := List.cons_prefix_cons.mp h
    cases rest with
    | nil => simp
    | cons next rest =>
        have hfirst : (Path.segments path).head? = some "" := by
          change (pathParts path).head? = some ""
          rw [hparts, ← habsolute (by simp)]
          rfl
        exact absurd (Path.head?_eq_slash_of_segments hpath hfirst) hslash
  rw [start?] at hstart ⊢
  simp only [htop, hparts, hjoined, hhead, String.isEmpty_iff, hpath, hjoin, if_false,
    List.isPrefixOf_iff_prefix, beq_iff_eq] at hstart ⊢
  split at hstart
  next htaken =>
    have hlead := hunder htaken
    obtain ⟨rfl, rfl⟩ := Prod.mk.inj (Option.some.inj hstart)
    refine ⟨(b :: more).drop (first :: rest).length, pad, hpad, ?_, ?_⟩
    · exact List.drop_append_of_le_length hlead.length_le
    · rw [if_pos (hlead.trans (List.prefix_append _ _)),
        List.drop_append_of_le_length hlead.length_le]
  next htaken =>
    split at hstart
    next => cases hstart
    next hslash =>
      obtain ⟨rfl, rfl⟩ := Prod.mk.inj (Option.some.inj hstart)
      refine ⟨b :: more, pad, hpad, rfl, ?_⟩
      rw [if_neg fun h => htaken ((hbelow hslash h).trans (List.prefix_append _ _)),
        if_neg hslash]

/-- What is put after a path is followed from where the path leads. -/
theorem resolve_join {name : String} (hv : v.Anchored) (hresolve : v.resolve path = .ok (real, t))
    (hname : name.toList.head? ≠ some '/') :
    ∃ left, v.resolve (Path.join path name) =
      resolveFrom v.top true left real (Path.segments name) := by
  cases hstart : v.start? path with
  | none => simp [resolve, hstart] at hresolve
  | some found =>
      obtain ⟨here, parts⟩ := found
      obtain ⟨body, pad, hpad, rfl, hjoin⟩ := start?_join hv hstart hname
      simp only [resolve, hstart] at hresolve
      have hbody : resolveFrom v.top true maxLinks here body = .ok (real, t) := by
        rcases hpad with rfl | rfl
        · simpa using hresolve
        · obtain ⟨left, hleft⟩ := resolveFrom_append v.top true maxLinks here body [""] fun _ => rfl
          rw [hleft, bind_eq_ok_iff] at hresolve
          obtain ⟨⟨place, sub⟩, hfound, hlast⟩ := hresolve
          have hat := at?_of_resolveFrom hfound
          rw [resolveFrom.eq_def] at hlast
          cases sub with
          | file bytes => simp [hat] at hlast
          | link target => simp [hat] at hlast
          | directory entries =>
              simp only [hat, beq_self_eq_true, Bool.true_or, if_true] at hlast
              rw [resolveFrom, hat] at hlast
              rw [hfound]
              exact hlast
      obtain ⟨left, hleft⟩ :=
        resolveFrom_append v.top true maxLinks here body (Path.segments name) fun _ => rfl
      refine ⟨left, ?_⟩
      rw [resolve, hjoin]
      simp only [hleft, hbody]
      rfl

/-- What a path below a directory without links shows, is what the names show below the tree that
stands there. -/
theorem sight_join (hv : v.Anchored) (hresolve : v.resolve path = .ok (real, t))
    (hlinks : t.Linkless) (hne : names ≠ [])
    (hnames : ∀ name ∈ names, IsSegment name ∧ NamesEntry name) :
    v.sight (Path.join path (Path.ofSegments names)) = t.sight names := by
  have hsegments : ∀ name ∈ names, IsSegment name := fun name hname => (hnames name hname).1
  have hentries : ∀ name ∈ names, NamesEntry name := fun name hname => (hnames name hname).2
  obtain ⟨left, hleft⟩ := resolve_join hv hresolve (Path.head?_ofSegments_ne_slash hsegments)
  rw [sight, hleft, Path.segments_ofSegments hne hsegments]
  exact resolveFrom_linkless (at?_of_resolve hresolve) hlinks hentries

end Volume

theorem Walk.pathOf_eq_join {root : String} {names : List String} (hne : names ≠ [])
    (hnames : ∀ name ∈ names, IsSegment name) :
    Walk.pathOf root names = Path.join root (Path.ofSegments names) := by
  induction names using List.reverseRecOn with
  | nil => exact absurd rfl hne
  | append_singleton names name ih =>
      rw [List.forall_mem_append, List.forall_mem_singleton] at hnames
      rw [Walk.pathOf, List.foldl_append, List.foldl_cons, List.foldl_nil]
      rcases eq_or_ne names [] with rfl | hnames'
      · simp [Path.ofSegments]
      · have hinit := ih hnames' hnames.1
        rw [Walk.pathOf] at hinit
        rw [hinit, Path.join_join hnames' hnames.1 hnames.2]

end RepoAudit
