import RepoAudit.Proofs.FileTree.NewFile
import RepoAudit.Proofs.Repository.Excluded
import RepoAudit.Proofs.Structure.Languages
import Mathlib

/-!
# A layout with one more file

A file added to a repository without links, with the directories it needs, leaves every entry that
was visited visited, and what the entries show the same.  Unless it is a readme at the root, the
readme that is looked into stays the same too.  So every sign of the layout remains.
-/

namespace RepoAudit

/-! ## Walks over two trees -/

section Walks

variable {v w : Volume} {path : String} {entries entries' : List (String × FileTree)}
variable {walk : WalkSettings} {includeDirs : Bool} {plan : Walk.Plan} {e : Walk.Entry}

/-- An entry is visited in a second repository when the same stands there, and on the way to it, as
in the first. -/
theorem visited_of_same_way (h : v.HoldsRepository path entries)
    (h' : w.HoldsRepository path entries')
    (hplan : Walk.Plan.ofSettings path walk includeDirs = .ok plan)
    (he : e ∈ (Scan.ofEvents path (plan.events v)).entries)
    (hway : ∀ upper t, upper <+: e.names → (FileTree.directory entries).at? upper = some t →
      ∃ t', (FileTree.directory entries').at? upper = some t' ∧ t'.cover = t.cover) :
    e ∈ (Scan.ofEvents path (plan.events w)).entries := by
  obtain ⟨real, hresolve⟩ := h.resolves
  obtain ⟨real', hresolve'⟩ := h'.resolves
  obtain ⟨hne, ⟨t, hat, hkind, hwanted⟩, hkept⟩ :=
    (Walk.scan_exact h.wellFormed hplan hresolve h.linkless e).mp he
  obtain ⟨t', hat', hcover⟩ := hway e.names t List.prefix_rfl hat
  have hsame : t'.isDirectory = t.isDirectory := FileTree.isDirectory_eq_of_cover hcover
  rw [Walk.scan_exact h'.wellFormed hplan hresolve' h'.linkless]
  refine ⟨hne, ⟨t', hat', hkind.trans hsame.symm, fun hdirectory => hwanted (hsame ▸ hdirectory)⟩,
    ?_⟩
  intro upper u' hupperNe hupper hu'
  obtain ⟨u, hu⟩ := FileTree.exists_at?_of_prefix hat hupper
  obtain ⟨_, hu'', hcover'⟩ := hway upper u hupper hu
  obtain rfl := Option.some.inj (hu'.symm.trans hu'')
  rw [FileTree.isDirectory_eq_of_cover hcover']
  exact hkept upper u hupperNe hupper hu

/-- Two walks that meet the same entries of some kind meet them in the same order. -/
theorem filter_entries_eq (hv : v.top.WellFormed) (hw : w.top.WellFormed) {p : Walk.Entry → Bool}
    (hsame : ∀ e, (e ∈ (Scan.ofEvents path (plan.events v)).entries ∧ p e = true) ↔
      e ∈ (Scan.ofEvents path (plan.events w)).entries ∧ p e = true) :
    (Scan.ofEvents path (plan.events v)).entries.filter p =
      (Scan.ofEvents path (plan.events w)).entries.filter p := by
  have hasymm : Std.Asymm fun a b : Walk.Entry =>
      Walk.PathBefore (Path.segments a.relative) (Path.segments b.relative) :=
    ⟨fun _ _ h => h.asymm⟩
  have hsorted : ∀ x : Volume, x.top.WellFormed →
      ((Scan.ofEvents path (plan.events x)).entries.filter p).Pairwise fun a b =>
        Walk.PathBefore (Path.segments a.relative) (Path.segments b.relative) :=
    fun x hx => (Walk.scan_sorted hx path).filter p
  apply (hsorted v hv).eq_of_mem_iff (hsorted w hw)
  intro e
  rw [List.mem_filter, List.mem_filter]
  exact hsame e

end Walks

/-! ## One more file -/

section Added

variable {v w : Volume} {repo : String} {entries entries' : List (String × FileTree)}
variable {walk : WalkSettings} {includeDirs : Bool} {plan : Walk.Plan} {e : Walk.Entry}
variable {names : List String} {bytes : ByteArray}

/-- The second volume holds the repository with one more file. -/
structure HoldsAdded (v w : Volume) (repo : String) (entries entries' : List (String × FileTree))
    (names : List String) (bytes : ByteArray) : Prop where
  before : v.HoldsRepository repo entries
  after : w.HoldsRepository repo entries'
  free : (FileTree.directory entries).Free names
  added : FileTree.directory entries' =
    FileTree.insertAt (.file bytes) names (.directory entries)

namespace HoldsAdded

theorem remainsIn (h : HoldsAdded v w repo entries entries' names bytes) :
    (FileTree.directory entries).RemainsIn (.directory entries') :=
  h.added ▸ h.free.remainsIn_addFile bytes

/-- What was visited is visited. -/
theorem visited (h : HoldsAdded v w repo entries entries' names bytes)
    (hplan : Walk.Plan.ofSettings repo walk includeDirs = .ok plan)
    (he : e ∈ (Scan.ofEvents repo (plan.events v)).entries) :
    e ∈ (Scan.ofEvents repo (plan.events w)).entries :=
  visited_of_same_way h.before h.after hplan he fun upper t _ ht => h.remainsIn upper t ht

/-- Of the files that are visited only the new one was not visited before. -/
theorem visited_before (h : HoldsAdded v w repo entries entries' names bytes)
    (hplan : Walk.Plan.ofSettings repo walk includeDirs = .ok plan)
    (he : e ∈ (Scan.ofEvents repo (plan.events w)).entries) (hfile : e.isDirectory = false) :
    e = ⟨names, false⟩ ∨ e ∈ (Scan.ofEvents repo (plan.events v)).entries := by
  obtain ⟨t, hat, hkind, -⟩ := h.after.sight_eq_of_visit hplan he
  have hcover : (FileTree.directory entries').coverAt? e.names = some t.cover := by
    rw [FileTree.coverAt?, hat]
    rfl
  rw [h.added] at hcover
  rcases h.free.coverAt?_of_addFile hcover (by rw [FileTree.isDirectory_cover, ← hkind, hfile])
    with hnew | hold
  · exact .inl (congrArg₂ Walk.Entry.mk hnew hfile)
  · right
    obtain ⟨old, hold, -⟩ := Option.map_eq_some_iff.mp hold
    apply visited_of_same_way h.after h.before hplan he
    intro upper t' hupper ht'
    obtain ⟨u, hu⟩ := FileTree.exists_at?_of_prefix hold hupper
    obtain ⟨t'', ht'', hcover'⟩ := h.remainsIn upper u hu
    obtain rfl := Option.some.inj (ht'.symm.trans ht'')
    exact ⟨u, hu, hcover'.symm⟩

theorem shownAlike (h : HoldsAdded v w repo entries entries' names bytes)
    (hplan : Walk.Plan.ofSettings repo walk includeDirs = .ok plan) :
    (Scan.ofEvents repo (plan.events v)).ShownAlike v w := by
  intro e he
  obtain ⟨t, hat, -, hsight⟩ := h.before.sight_eq_of_visit hplan he
  obtain ⟨t', hat', -, hsight'⟩ := h.after.sight_eq_of_visit hplan (h.visited hplan he)
  obtain ⟨_, hat'', hcover⟩ := h.remainsIn _ _ hat
  obtain rfl := Option.some.inj (hat'.symm.trans hat'')
  exact hsight.trans (hcover ▸ hsight'.symm)

theorem within (h : HoldsAdded v w repo entries entries' names bytes)
    (hplan : Walk.Plan.ofSettings repo walk includeDirs = .ok plan) :
    Structure.Within (.ofEvents repo (plan.events v)) (.ofEvents repo (plan.events w)) where
  root := rfl
  entries _ he := h.visited hplan he
  once := by
    obtain rfl := (Walk.ofSettings_cases hplan).1
    exact (Walk.nodup_paths h.before.wellFormed).of_map

/-- A file that is no readme at the root leaves the first readme the same. -/
theorem firstReadme?_eq (h : HoldsAdded v w repo entries entries' names bytes)
    (hplan : Walk.Plan.ofSettings repo walk includeDirs = .ok plan)
    (hreadme : Structure.isReadme ⟨names, false⟩ = false) :
    Structure.firstReadme? w (.ofEvents repo (plan.events w)) =
      Structure.firstReadme? w (.ofEvents repo (plan.events v)) := by
  rw [Structure.firstReadme?, Structure.firstReadme?, ← List.head?_filter, ← List.head?_filter]
  refine congrArg List.head? ?_
  -- Both walks meet the same readmes, in the order of their paths.
  have hsame : ∀ e, (e ∈ (Scan.ofEvents repo (plan.events w)).entries ∧
        (Structure.isReadme e && !w.isDirectory (Walk.pathOf repo e.names)) = true) ↔
      e ∈ (Scan.ofEvents repo (plan.events v)).entries ∧
        (Structure.isReadme e && !w.isDirectory (Walk.pathOf repo e.names)) = true := by
    intro e
    refine and_congr_left fun htells => ⟨fun he => ?_, h.visited hplan⟩
    rw [Bool.and_eq_true, Bool.not_eq_true'] at htells
    obtain ⟨t, -, hkind, hsight⟩ := h.after.sight_eq_of_visit hplan he
    have hfile : e.isDirectory = false := by
      rw [hkind, ← FileTree.isDirectory_cover, ← htells.2, Volume.isDirectory_eq, hsight]
    rcases h.visited_before hplan he hfile with rfl | hold
    · rw [hreadme] at htells
      cases htells.1
    · exact hold
  apply filter_entries_eq h.after.wellFormed h.before.wellFormed hsame

end HoldsAdded

end Added

/-! ## The layout -/

namespace Structure

variable {v w : Volume} {repo : String} {entries entries' : List (String × FileTree)}
variable {walk : WalkSettings} {plan : Walk.Plan} {names : List String} {bytes : ByteArray}
variable {real : Location} {a a' : Assessment Report}

/-- The second report has every sign of the first, and no smaller number. -/
structure KeepsSigns (r r' : Report) : Prop where
  signals : ∀ s, r.documentation.has s = true → r'.documentation.has s = true
  score : r.documentation.score ≤ r'.documentation.score
  organization : r.organization.Le r'.organization

theorem keepsSigns_of_holdsAdded (h : HoldsAdded v w repo entries entries' names bytes)
    (hplan : Walk.Plan.ofSettings repo walk true = .ok plan)
    (hreadme : isReadme ⟨names, false⟩ = false) (ha : DrawnUp v plan a) (ha' : DrawnUp w plan a') :
    KeepsSigns a.report a'.report := by
  obtain rfl : plan.root = repo := (Walk.ofSettings_cases hplan).1
  have hwithin := h.within hplan
  have hshown := h.shownAlike hplan
  have hsignals : ∀ s, a.report.documentation.has s = true →
      a'.report.documentation.has s = true := by
    intro s hs
    rw [ha.documentation, documentation_congr hshown] at hs
    rw [ha'.documentation]
    exact documentation_mono hwithin (h.firstReadme?_eq hplan hreadme) s hs
  constructor
  case signals => exact hsignals
  case score => exact Documentation.score_mono _ _ hsignals
  case organization =>
    rw [ha.organization, ha'.organization, organization_congr hshown]
    exact organization_mono hwithin

/-- A file added to a repository without links, other than a readme at the root, takes no sign of
the layout away and makes no number smaller.  The score of any documentation is the sum of the
weights of its signals, at most 100. -/
theorem added_file_keeps_signs (h : v.HoldsRepository repo entries)
    (hresolve : v.resolve repo = .ok (real, .directory entries))
    (hplan : Walk.Plan.ofSettings repo walk true = .ok plan)
    (hfree : (FileTree.directory entries).Free names)
    (hnames : ∀ name ∈ names, IsSegment name ∧ NamesEntry name)
    (hreadme : isReadme ⟨names, false⟩ = false) (bytes : ByteArray) :
    (∃ a a', analyze v walk repo = .ok a ∧
      analyze (v.addFile (real ++ names) bytes) walk repo = .ok a' ∧
      KeepsSigns a.report a'.report) ∧
    ∀ d : Documentation, d.score = ((Signal.all.filter d.has).map Signal.weight).sum ∧
      d.score ≤ 100 := by
  obtain ⟨entries', hadded, hafter⟩ := h.addFile hresolve hfree hnames bytes
  obtain ⟨a, ha, hdrawn⟩ := exists_drawnUp h.isDirectory hplan
  obtain ⟨a', ha', hdrawn'⟩ := exists_drawnUp hafter.isDirectory hplan
  have hkeeps := keepsSigns_of_holdsAdded ⟨h, hafter, hfree, hadded⟩ hplan hreadme hdrawn hdrawn'
  exact ⟨⟨a, a', ha, ha', hkeeps⟩, fun d => ⟨d.score_eq, d.score_le⟩⟩

/-- A guide in a new directory of documents. -/
theorem nested_with_guide :
    ∃ a a', analyze Walk.nested Walk.nestedSettings "r" = .ok a ∧
      analyze (Walk.nested.addFile ["docs", "setup.md"] ⟨#[]⟩) Walk.nestedSettings "r" = .ok a' ∧
      a.report.documentation.score ≤ a'.report.documentation.score := by
  have hresolve : Walk.nested.resolve "r" = .ok ([], Walk.nested.top) := by cbv
  have hplan : Walk.Plan.ofSettings "r" Walk.nestedSettings true = .ok Walk.nestedPlan := by cbv
  have hfree : Walk.nested.top.Free ["docs", "setup.md"] := .of_lookup_eq_none (by decide) _
  obtain ⟨⟨a, a', ha, ha', hkeeps⟩, -⟩ :=
    added_file_keeps_signs (holdsRepository_top nested_ordinary) hresolve hplan hfree
      (by simp [IsSegment, NamesEntry]) (by decide +kernel) ⟨#[]⟩
  exact ⟨a, a', ha, ha', hkeeps.score⟩

end Structure
end RepoAudit
