import RepoAudit.Path
import RepoAudit.Proofs.FileTree.Shape
import RepoAudit.Proofs.Text.Words
import Mathlib.Data.List.Infix
import Mathlib.Tactic

/-!
# Segments of a path

A path that is put together from names falls into the same names again.  The paths above a path from
the top are those of its first names.
-/

namespace RepoAudit

namespace Path

theorem toList_ofSegments_cons_cons (name next : String) (names : List String) :
    (ofSegments (name :: next :: names)).toList =
      name.toList ++ '/' :: (ofSegments (next :: names)).toList := by
  simp [ofSegments, String.intercalate_cons_cons]

theorem splitBy_ofSegments {names : List String} (hne : names ≠ [])
    (hslash : ∀ name ∈ names, '/' ∉ name.toList) :
    Text.splitBy (· == '/') (ofSegments names).toList = names.map String.toList := by
  have hcut : ∀ name ∈ names, ∀ c ∈ name.toList, (c == '/') = false := by
    intro name hname c hc
    simp only [beq_eq_false_iff_ne, ne_eq]
    rintro rfl
    exact hslash name hname hc
  induction names with
  | nil => exact absurd rfl hne
  | cons name names ih =>
      rw [List.forall_mem_cons] at hslash hcut
      cases names with
      | nil =>
          simp only [ofSegments, String.intercalate_singleton, List.map_cons, List.map_nil]
          exact Text.splitBy_of_not_mem hcut.1
      | cons next names =>
          rw [toList_ofSegments_cons_cons, Text.splitBy_append_cons hcut.1 (by rfl),
            ih (by simp) hslash.2 hcut.2]
          rfl

/-- Pieces between slashes, empty ones too, are found again. -/
theorem segments_ofSegments_pieces {names : List String} (hne : names ≠ [])
    (hslash : ∀ name ∈ names, '/' ∉ name.toList) : segments (ofSegments names) = names := by
  rw [segments, splitBy_ofSegments hne hslash, List.map_map]
  simp

theorem segments_ofSegments {names : List String} (hne : names ≠ [])
    (hnames : ∀ name ∈ names, IsSegment name) : segments (ofSegments names) = names :=
  segments_ofSegments_pieces hne fun name hname => (hnames name hname).2

theorem ofSegments_segments (path : String) : ofSegments (segments path) = path := by
  have hlist : ∀ t : Text,
      (ofSegments ((Text.splitBy (· == '/') t).map String.ofList)).toList = t := by
    intro t
    induction t with
    | nil => simp [Text.splitBy, ofSegments]
    | cons c t ih =>
        obtain ⟨piece, more, hpieces⟩ :=
          List.exists_cons_of_ne_nil (Text.splitBy_ne_nil (· == '/') t)
        rw [hpieces, List.map_cons] at ih
        rw [Text.splitBy, hpieces]
        split
        next hc =>
          rw [List.map_cons, List.map_cons, toList_ofSegments_cons_cons, ih, eq_of_beq hc]
          simp
        next =>
          cases more with
          | nil => simpa [ofSegments] using ih
          | cons next more =>
              rw [List.map_cons, toList_ofSegments_cons_cons] at ih
              rw [List.map_cons, List.map_cons, toList_ofSegments_cons_cons, ← ih]
              simp
  exact String.toList_injective (hlist path.toList)

theorem slash_not_mem_of_mem_segments {path name : String} (hname : name ∈ segments path) :
    '/' ∉ name.toList := by
  obtain ⟨piece, hpiece, rfl⟩ := List.mem_map.mp hname
  intro hslash
  rw [String.toList_ofList] at hslash
  exact absurd (Text.cut_eq_false_of_mem_splitBy hpiece '/' hslash) (by simp)

theorem toList_ofSegments_ne_nil {names : List String} (hne : names ≠ [])
    (hnames : ∀ name ∈ names, IsSegment name) : (ofSegments names).toList ≠ [] := by
  cases names with
  | nil => exact absurd rfl hne
  | cons name names =>
      cases names with
      | nil => simpa [ofSegments] using (hnames name (by simp)).1
      | cons next names =>
          rw [toList_ofSegments_cons_cons]
          simp

theorem getLast?_ofSegments_ne_slash {names : List String} (hne : names ≠ [])
    (hnames : ∀ name ∈ names, IsSegment name) :
    (ofSegments names).toList.getLast? ≠ some '/' := by
  induction names with
  | nil => exact absurd rfl hne
  | cons name names ih =>
      rw [List.forall_mem_cons] at hnames
      cases names with
      | nil =>
          intro hlast
          simp only [ofSegments, String.intercalate_singleton] at hlast
          exact hnames.1.2 (List.mem_of_getLast? hlast)
      | cons next names =>
          have hrest := toList_ofSegments_ne_nil (List.cons_ne_nil next names) hnames.2
          rw [toList_ofSegments_cons_cons, List.getLast?_append_of_ne_nil _ (by simp),
            List.getLast?_cons_of_ne_nil hrest]
          exact ih (List.cons_ne_nil next names) hnames.2

theorem join_ofSegments {names : List String} {name : String} (hne : names ≠ [])
    (hnames : ∀ other ∈ names, IsSegment other) (hname : IsSegment name) :
    join (ofSegments names) name = ofSegments (names ++ [name]) := by
  have hslash : name.toList.head? ≠ some '/' := fun hhead =>
    hname.2 (List.mem_of_mem_head? hhead)
  have hempty : ofSegments names ≠ "" := by
    simpa using toList_ofSegments_ne_nil hne hnames
  have hlast := getLast?_ofSegments_ne_slash hne hnames
  have hsplit : ofSegments (names ++ [name]) = ofSegments names ++ "/" ++ name := by
    rw [ofSegments, String.intercalate_append_of_ne_nil hne (by simp)]
    simp [ofSegments]
  simp [join, hslash, hempty, hlast, hsplit]

theorem head?_ofSegments_ne_slash {names : List String} (hnames : ∀ name ∈ names, IsSegment name) :
    (ofSegments names).toList.head? ≠ some '/' := by
  cases names with
  | nil => simp [ofSegments]
  | cons name names =>
      obtain ⟨hempty, hslash⟩ := hnames name (List.mem_cons_self ..)
      have hhead : name.toList.head? ≠ some '/' := fun h => hslash (List.mem_of_mem_head? h)
      cases names with
      | nil => simpa [ofSegments] using hhead
      | cons next names =>
          rw [toList_ofSegments_cons_cons, List.head?_append_of_ne_nil _ (by simpa using hempty)]
          exact hhead

theorem head?_eq_slash_of_segments {path : String} (hpath : path ≠ "")
    (hfirst : (segments path).head? = some "") : path.toList.head? = some '/' := by
  rw [segments] at hfirst
  cases hlist : path.toList with
  | nil => exact absurd (String.toList_eq_nil_iff.mp hlist) hpath
  | cons c rest =>
      rw [hlist, Text.splitBy] at hfirst
      split at hfirst
      next hc => simpa using hc
      next =>
        obtain ⟨piece, more, hpieces⟩ :=
          List.exists_cons_of_ne_nil (Text.splitBy_ne_nil (· == '/') rest)
        simp [hpieces] at hfirst

theorem head?_join {base name : String} (hbase : base ≠ "") (hname : name.toList.head? ≠ some '/') :
    (join base name).toList.head? = base.toList.head? := by
  have hlist : base.toList ≠ [] := by simpa using hbase
  rw [join]
  split
  next h => simp [hname, hbase] at h
  next =>
    split
    · rw [String.toList_append, List.head?_append_of_ne_nil _ hlist]
    · rw [String.toList_append, String.toList_append, List.append_assoc,
        List.head?_append_of_ne_nil _ hlist]

/-- The segments of a relative path are put after those of another one, over an empty one at its
end. -/
theorem segments_join {base name : String} (hbase : base ≠ "")
    (hname : name.toList.head? ≠ some '/') :
    ∃ body pad, body ≠ [] ∧ (pad = [] ∨ pad = [""]) ∧ segments base = body ++ pad ∧
      segments (join base name) = body ++ segments name := by
  have hsplit : ∀ lead : Text,
      (Text.splitBy (· == '/') (lead ++ '/' :: name.toList)).map String.ofList =
        (Text.splitBy (· == '/') lead).map String.ofList ++ segments name := by
    intro lead
    rw [Text.splitBy_append_mark (by rfl), List.map_append]
    rfl
  by_cases hlast : base.toList.getLast? = some '/'
  · obtain ⟨lead, hlead⟩ := List.getLast?_eq_some_iff.mp hlast
    refine ⟨(Text.splitBy (· == '/') lead).map String.ofList, [""],
      by simpa using Text.splitBy_ne_nil _ lead, .inr rfl, ?_, ?_⟩
    · rw [segments, hlead, Text.splitBy_append_mark (by rfl), List.map_append]
      rfl
    · rw [← hsplit lead, segments, join]
      simp [hname, hbase, hlead]
  · refine ⟨segments base, [], by simpa [segments] using Text.splitBy_ne_nil _ base.toList,
      .inl rfl, (List.append_nil _).symm, ?_⟩
    rw [segments, segments, ← hsplit, join]
    simp [hname, hbase, hlast]

theorem join_empty (name : String) : join "" name = name := by
  simp [join]

/-- What is put after two relative paths is the same whichever pair is put together first. -/
theorem join_assoc {base path name : String} (hpath : path.toList.head? ≠ some '/')
    (hname : name.toList.head? ≠ some '/') :
    join (join base path) name = join base (join path name) := by
  by_cases hbase : base = ""
  · rw [hbase, join_empty, join_empty]
  -- before the path stands some text that ends in a slash
  have hlead : ∃ lead : String, lead.toList.getLast? = some '/' ∧
      ∀ other : String, other.toList.head? ≠ some '/' → join base other = lead ++ other := by
    by_cases hlast : base.toList.getLast? = some '/'
    · exact ⟨base, hlast, fun other hother => by simp [join, hbase, hlast, hother]⟩
    · exact ⟨base ++ "/", by simp, fun other hother => by simp [join, hbase, hlast, hother]⟩
  obtain ⟨lead, hend, hjoin⟩ := hlead
  have hne : lead ≠ "" := by
    rintro rfl
    simp at hend
  rw [hjoin path hpath]
  by_cases hempty : path = ""
  · subst hempty
    rw [join_empty, hjoin name hname, String.append_empty, join]
    simp [hname, hne, hend]
  · have hlist : path.toList ≠ [] := by simpa using hempty
    have hwhole : lead ++ path ≠ "" := by simp [hempty]
    have hlast : (lead ++ path).toList.getLast? = path.toList.getLast? := by
      rw [String.toList_append, List.getLast?_append_of_ne_nil _ hlist]
    rw [hjoin _ (by rwa [head?_join hempty hname]), join, join]
    simp only [hname, hempty, hwhole, hlast, beq_iff_eq, String.isEmpty_iff, Bool.or_eq_true,
      or_self, if_false]
    split <;> simp [String.append_assoc]

theorem join_join {base name : String} {names : List String} (hne : names ≠ [])
    (hnames : ∀ other ∈ names, IsSegment other) (hname : IsSegment name) :
    join (join base (ofSegments names)) name = join base (ofSegments (names ++ [name])) := by
  have hslash : name.toList.head? ≠ some '/' := fun h => hname.2 (List.mem_of_mem_head? h)
  rw [join_assoc (head?_ofSegments_ne_slash hnames) hslash, join_ofSegments hne hnames hname]

/-! ## Paths above a path -/

/-- The second path has segments of the first, but not all of them; when they end at the top, an
empty one follows. -/
def Above (path above : String) : Prop :=
  ∃ kept more pad, segments path = kept ++ more ∧ more ≠ [] ∧ segments above = kept ++ pad ∧
    (pad = [] ∨ pad = [""])

theorem Above.trans {path above top : String} (h : Above path above) (htop : Above above top) :
    Above path top := by
  obtain ⟨kept, more, pad, hpath, hmore, habove, hpad⟩ := h
  obtain ⟨kept', more', pad', habove', hmore', htop, hpad'⟩ := htop
  have hunder : kept' <+: kept := by
    rw [habove] at habove'
    rcases hpad with rfl | rfl
    · exact ⟨more', by simpa using habove'.symm⟩
    · rcases List.prefix_concat_iff.mp ⟨more', habove'.symm⟩ with heq | hbelow
      · simp [heq, hmore'] at habove'
      · exact hbelow
  obtain ⟨between, rfl⟩ := hunder
  exact ⟨kept', between ++ more, pad', by simp [hpath], by simp [hmore], htop, hpad'⟩

/-- The path that leads from the top of a file system through the names. -/
def absolute (names : List String) : String :=
  "/" ++ ofSegments names

theorem absolute_eq_ofSegments {names : List String} (hne : names ≠ []) :
    absolute names = ofSegments ("" :: names) := by
  obtain ⟨name, names, rfl⟩ := List.exists_cons_of_ne_nil hne
  simp [absolute, ofSegments, String.intercalate_cons_cons]

theorem segments_absolute {names : List String} (hne : names ≠ [])
    (hnames : ∀ name ∈ names, IsSegment name) : segments (absolute names) = "" :: names := by
  have hcut : Text.splitBy (· == '/') ([] ++ '/' :: (ofSegments names).toList) =
      [] :: Text.splitBy (· == '/') (ofSegments names).toList :=
    Text.splitBy_append_cons (by simp) (by rfl) _
  have hlist : (absolute names).toList = [] ++ '/' :: (ofSegments names).toList := by
    simp [absolute]
  rw [segments, hlist, hcut, List.map_cons]
  exact congrArg _ (segments_ofSegments hne hnames)

theorem dropUnnamed_cons {name : String} (hname : IsSegment name) (hdot : name ≠ ".")
    (rest : List String) : dropUnnamed (name :: rest) = name :: rest := by
  cases rest with
  | nil => rfl
  | cons next rest => simp [dropUnnamed, hname.1, hdot]

theorem dropUnnamed_absolute {names : List String} (hnames : ∀ name ∈ names, IsSegment name)
    (hdot : "." ∉ names) : (dropUnnamed ("" :: names).reverse).reverse = "" :: names := by
  induction names using List.reverseRecOn with
  | nil => rfl
  | append_singleton names name _ =>
      have hname : IsSegment name := hnames name (by simp)
      have hnamed : name ≠ "." := fun h => hdot (by simp [h])
      rw [← List.cons_append, List.reverse_append, List.reverse_singleton, List.singleton_append,
        dropUnnamed_cons hname hnamed]
      simp

theorem parent?_absolute_concat {names : List String} {name : String}
    (hnames : ∀ other ∈ names ++ [name], IsSegment other) (hdot : "." ∉ names ++ [name]) :
    parent? (absolute (names ++ [name])) = some (absolute names) := by
  have habove : (dropUnnamed ("" :: names).reverse).reverse = "" :: names :=
    dropUnnamed_absolute (fun other hother => hnames other (by simp [hother]))
      fun hmem => hdot (by simp [hmem])
  have hname : IsSegment name := hnames name (by simp)
  have hnamed : name ≠ "." := fun h => hdot (by simp [h])
  have hreverse : ("" :: (names ++ [name])).reverse = name :: ("" :: names).reverse := by simp
  rw [parent?, segments_absolute (by simp) hnames, hreverse, dropUnnamed_cons hname hnamed]
  split
  next h => simp at h
  next h => exact absurd (List.cons_eq_cons.mp h).1 hname.1
  next h =>
    obtain ⟨-, rfl⟩ := List.cons_eq_cons.mp h
    rw [habove]
    cases names with
    | nil => rfl
    | cons first names => simp [absolute_eq_ofSegments]

/-- The directories above a path from the top, the nearest first. -/
theorem ancestors_absolute {names : List String} (hnames : ∀ name ∈ names, IsSegment name)
    (hdot : "." ∉ names) (depth : ℕ) :
    ancestors (absolute names) depth = (names.inits.reverse.take depth).map absolute := by
  induction names using List.reverseRecOn generalizing depth with
  | nil =>
      have htop : parent? (absolute []) = none := by decide
      cases depth with
      | zero => rfl
      | succ depth => simp [ancestors, htop]
  | append_singleton names name ih =>
      cases depth with
      | zero => rfl
      | succ depth =>
          have hinits : (names ++ [name]).inits.reverse =
              (names ++ [name]) :: names.inits.reverse := by
            simp [List.inits_append]
          have habove := ih (fun other hother => hnames other (by simp [hother]))
            (fun hmem => hdot (by simp [hmem])) depth
          rw [ancestors, parent?_absolute_concat hnames hdot, hinits, List.take_succ_cons,
            List.map_cons, ← habove]

theorem join_absolute {names : List String} {name : String}
    (hnames : ∀ other ∈ names, IsSegment other) (hname : IsSegment name) :
    join (absolute names) name = absolute (names ++ [name]) := by
  have hslash : name.toList.head? ≠ some '/' := fun hhead =>
    hname.2 (List.mem_of_mem_head? hhead)
  cases names with
  | nil => simp [join, absolute, ofSegments, hslash]
  | cons first names =>
      have hne : first :: names ≠ [] := List.cons_ne_nil first names
      have hlast : ('/' :: (ofSegments (first :: names)).toList).getLast? ≠ some '/' := by
        rw [List.getLast?_cons_of_ne_nil (toList_ofSegments_ne_nil hne hnames)]
        exact getLast?_ofSegments_ne_slash hne hnames
      have hsplit : ofSegments (first :: names ++ [name]) =
          ofSegments (first :: names) ++ "/" ++ name := by
        rw [ofSegments, String.intercalate_append_of_ne_nil hne (by simp)]
        simp [ofSegments]
      rw [absolute, absolute, hsplit]
      simp [join, hslash, hlast, String.append_assoc]

/-- Relative names that make the same path with one base are the same. -/
theorem join_cancel {base name other : String} (hname : name.toList.head? ≠ some '/')
    (hother : other.toList.head? ≠ some '/') (h : join base name = join base other) :
    name = other := by
  have happend : ∀ lead : String, lead ++ name = lead ++ other → name = other := by
    intro lead hlead
    have hlists := congrArg String.toList hlead
    rw [String.toList_append, String.toList_append] at hlists
    exact String.toList_injective (List.append_cancel_left hlists)
  simp only [join, beq_iff_eq, hname, hother, Bool.or_eq_true, false_or] at h
  split at h
  · exact h
  · split at h
    · exact happend base h
    · exact happend (base ++ "/") h

end Path
end RepoAudit
