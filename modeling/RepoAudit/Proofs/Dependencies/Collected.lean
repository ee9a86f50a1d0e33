import RepoAudit.Proofs.Dependencies.Isolation
import RepoAudit.Proofs.Json.Sorted
import RepoAudit.Proofs.Tally
import RepoAudit.Proofs.Text.LetterCase

/-!
# Collected dependencies

The manifests are gone through one after the other, and every entry of each is collected in its own
order, but for those of a setup script that the Python requirements name already.  The look-ups that
follow only fill in what they find, and the summary counts what was collected.
-/

namespace RepoAudit

namespace Manifest

variable {manifest : Json} {sectionName : String} {scope : DependencyScope}

/-- The dependencies are the members of a section of the package manifest, in the order of the bytes
of their names. -/
structure ListsSection (manifest : Json) (sectionName : String) (scope : DependencyScope)
    (ds : List Dependency) : Prop where
  ordered : ds.Pairwise fun a b => nameBytes a.name < nameBytes b.name
  entries : ∀ d, d ∈ ds ↔ ∃ members name version,
    manifest.get? sectionName = some (.obj members) ∧ (name, version) ∈ members ∧
      d = { name, version := versionText version, ecosystem := .npm, scope }

/-- A package manifest states the members of three sections, and nothing when it is not JSON. -/
def StatesPackages (t : Text) (ds : List Dependency) : Prop :=
  match Json.ofText t with
  | .error _ => ds = []
  | .ok manifest => ∃ runtime development peer, ds = runtime ++ development ++ peer ∧
      ListsSection manifest "dependencies" .runtime runtime ∧
      ListsSection manifest "devDependencies" .development development ∧
      ListsSection manifest "peerDependencies" .peer peer

def sectionEntries (manifest : Json) (sectionName : String) (scope : DependencyScope) :
    List Dependency :=
  (((manifest.get? sectionName).bind Json.members?).getD []).map fun (name, version) =>
    { name, version := versionText version, ecosystem := .npm, scope }

theorem ofPackageJson_eq (manifest : Json) :
    ofPackageJson manifest = sectionEntries manifest "dependencies" .runtime ++
      sectionEntries manifest "devDependencies" .development ++
      sectionEntries manifest "peerDependencies" .peer := by
  simp [ofPackageJson, packageSections, sectionEntries]

theorem pairwise_of_get? {members : List (String × Json)} (hsorted : manifest.Sorted)
    (hget : manifest.get? sectionName = some (.obj members)) :
    members.Pairwise fun a b => a.1 < b.1 := by
  cases manifest with
  | obj sections =>
      obtain ⟨before, after, rfl, -⟩ := List.lookup_eq_some_iff.mp hget
      have hsection : (Json.obj members).Sorted :=
        Json.sortedMembers_iff.mp hsorted.2 (sectionName, .obj members) (by simp)
      exact hsection.1
  | _ => cases hget

theorem listsSection_sectionEntries (hsorted : manifest.Sorted) (sectionName : String)
    (scope : DependencyScope) :
    ListsSection manifest sectionName scope (sectionEntries manifest sectionName scope) := by
  by_cases hsection : ∃ members, manifest.get? sectionName = some (.obj members)
  · obtain ⟨members, hget⟩ := hsection
    constructor
    case ordered =>
      have hnames := pairwise_of_get? hsorted hget
      simp only [sectionEntries, hget, Option.bind_some, Json.members?, Option.getD_some,
        List.pairwise_map]
      exact hnames.imp nameBytes_lt_iff.mpr
    case entries =>
      intro d
      simp only [sectionEntries, hget, Option.bind_some, Json.members?, Option.getD_some,
        List.mem_map, Prod.exists, Option.some.injEq, Json.obj.injEq, exists_and_left,
        exists_eq_left', eq_comm]
  · have hnone : (manifest.get? sectionName).bind Json.members? = none := by
      rw [Option.bind_eq_none_iff]
      intro found hfound
      cases found with
      | obj members => exact absurd ⟨members, hfound⟩ hsection
      | _ => rfl
    constructor
    case ordered => simp [sectionEntries, hnone]
    case entries =>
      intro d
      rw [sectionEntries, hnone]
      constructor
      · intro hd
        cases hd
      · rintro ⟨members, -, -, hget, -⟩
        exact absurd ⟨members, hget⟩ hsection

theorem statesPackages_parsed (t : Text) :
    StatesPackages t (match parsePackageJson t with
      | .ok found => found
      | .error _ => []) := by
  rw [StatesPackages, parsePackageJson]
  cases hmanifest : Json.ofText t with
  | error fault => rfl
  | ok manifest =>
      have hsorted := Json.sorted_ofText hmanifest
      exact ⟨_, _, _, ofPackageJson_eq manifest, listsSection_sectionEntries hsorted _ _,
        listsSection_sectionEntries hsorted _ _, listsSection_sectionEntries hsorted _ _⟩

end Manifest

namespace Dependencies

open RootManifest

variable {v : Volume} {repo file : String} {d e : Dependency}

/-! ## What a manifest states -/

/-- What the text of the manifest states, in its own order. -/
def RootManifest.Lists : RootManifest → Text → List Dependency → Prop
  | packageJson, t, ds => Manifest.StatesPackages t ds
  | requirementsTxt, t, ds => ds = Manifest.parseRequirementsTxt t
  | setupPy, t, ds => ds = Manifest.parseSetupPy t
  | goMod, t, ds => ds = Manifest.parseGoMod t
  | pomXml, t, ds => ds = (Manifest.parsePomXml t).1

/-- The manifest states what its text does, and nothing where there is no text to read. -/
structure RootManifest.States (m : RootManifest) (v : Volume) (repo : String)
    (ds : List Dependency) : Prop where
  read : ∀ text, v.readText (m.path repo) = .ok text → m.Lists text.toList ds
  unread : ∀ e, v.readText (m.path repo) = .error e → ds = []

theorem readManifest_of_text {read : String → Gathered} {text : String}
    (h : v.readText (Path.join repo file) = .ok text) :
    readManifest v repo file read = read text := by
  rw [readManifest_eq, readOptional_eq_some_iff.mpr h]

theorem readManifest_of_unread {read : String → Gathered} {e : ReadError}
    (h : v.readText (Path.join repo file) = .error e) : (readManifest v repo file read).1 = [] := by
  rw [readManifest_eq]
  split
  next text hread => simp [readOptional_eq_some_iff.mp hread] at h
  · rfl
  · rfl

theorem lists_gathered {m : RootManifest} {text : String}
    (h : v.readText (m.path repo) = .ok text) : m.Lists text.toList (m.gathered v repo).1 := by
  cases m with
  | packageJson =>
      have hpath : v.readText (Path.join repo "package.json") = .ok text := h
      have hstates := Manifest.statesPackages_parsed text.toList
      simp only [RootManifest.Lists, gathered, readPackageJson, readManifest_of_text hpath]
      split
      next found hfound => simpa [hfound] using hstates
      next fault hfault => simpa [hfault] using hstates
  | requirementsTxt | setupPy | goMod | pomXml => exact congrArg Prod.fst (readManifest_of_text h)

theorem states_gathered (m : RootManifest) (v : Volume) (repo : String) :
    m.States v repo (m.gathered v repo).1 where
  read text h := lists_gathered h
  unread e h := by cases m <;> exact readManifest_of_unread h

/-! ## Names that are alike -/

def SameName (d e : Dependency) : Prop :=
  Text.SameLetters d.name.toList e.name.toList

theorem nameKey_eq_iff : nameKey d = nameKey e ↔ SameName d e :=
  Text.lower_eq_iff

instance : Decidable (SameName d e) :=
  decidable_of_iff (nameKey d = nameKey e) nameKey_eq_iff

theorem added_setupPy (v : Volume) (repo : String) :
    setupPy.added v repo = (setupPy.gathered v repo).1.filter fun d =>
      ∀ r ∈ (requirementsTxt.gathered v repo).1, ¬ SameName d r := by
  apply List.filter_congr
  intro d _
  rw [Bool.eq_iff_iff]
  simp only [Bool.not_eq_true', List.contains_eq_mem, decide_eq_false_iff_not, List.mem_map,
    not_exists, not_and, decide_eq_true_eq, ← nameKey_eq_iff]
  exact forall₂_congr fun r _ => not_congr eq_comm

/-! ## Look-ups and the summary -/

/-- The second is the first with what the registry finds about it. -/
structure LookedUp (registry : Registry) (d e : Dependency) : Prop where
  name : e.name = d.name
  version : e.version = d.version
  ecosystem : e.ecosystem = d.ecosystem
  scope : e.scope = d.scope
  indirect : e.indirect = d.indirect
  vulnerabilities : e.vulnerabilities = registry.vulnerabilities d
  outdated : e.outdated = (registry.status d).outdated
  latestVersion : e.latestVersion = (registry.status d).latest

theorem lookedUp_lookUp (registry : Registry) (d : Dependency) :
    LookedUp registry d (d.lookUp registry) := by
  constructor <;> rfl

theorem forall₂_lookedUp (registry : Registry) (ds : List Dependency) :
    List.Forall₂ (LookedUp registry) ds (ds.map (Dependency.lookUp registry)) := by
  rw [List.forall₂_map_right_iff, List.forall₂_same]
  exact fun d _ => lookedUp_lookUp registry d

theorem map_name_of_lookedUp {registry : Registry} {ds es : List Dependency}
    (h : List.Forall₂ (LookedUp registry) ds es) :
    ds.map Dependency.name = es.map Dependency.name :=
  map_eq_map_iff_forall₂.mpr (h.imp fun _ _ hlooked => hlooked.name.symm)

structure Summarizes (s : Summary) (ds : List Dependency) : Prop where
  total : s.total = ds.length
  ecosystems : Tallies Dependency.ecosystem ds s.byEcosystem
  scopes : s.runtime + s.development = s.total
  development : s.development = (ds.filter fun d => d.scope = .development).length
  vulnerable : s.vulnerable = (ds.filter fun d => !d.vulnerabilities.isEmpty).length
  outdated : s.outdated = (ds.filter fun d => d.outdated).length

theorem summarizes_summarize (ds : List Dependency) : Summarizes (summarize ds) ds where
  total := rfl
  ecosystems := tallies_of_keys (by decide) fun e => by cases e <;> decide
  scopes := by
    have hcount := countP_add_countP_not (fun d : Dependency => d.scope == .development) ds
    rw [Nat.add_comm]
    exact hcount
  development := List.countP_eq_length_filter
  vulnerable := List.countP_eq_length_filter
  outdated := List.countP_eq_length_filter

/-! ## Collecting -/

/-- Every manifest states its dependencies, and they are collected one manifest after the other;
only a setup script leaves out the names that the Python requirements have.  The look-ups keep what
was stated, each at its place, and the summary has the numbers of what was collected. -/
theorem collect_in_manifest_order (v : Volume) (registry : Registry) (repo : String) :
    ∃ stated : RootManifest → List Dependency, (∀ m : RootManifest, m.States v repo (stated m)) ∧
      List.Forall₂ (LookedUp registry)
        (stated packageJson ++ stated requirementsTxt ++
          (stated setupPy).filter (fun d => ∀ r ∈ stated requirementsTxt, ¬ SameName d r) ++
          stated goMod ++ stated pomXml)
        (collect v registry repo).1 ∧
      (v.isDirectory repo = true → ∃ a, analyze v registry repo = .ok a ∧
        a.report.dependencies = (collect v registry repo).1 ∧
        Summarizes a.report.summary a.report.dependencies) := by
  have hdeclared : (declared v repo).1 = (packageJson.gathered v repo).1 ++
      (requirementsTxt.gathered v repo).1 ++ setupPy.added v repo ++ (goMod.gathered v repo).1 ++
      (pomXml.gathered v repo).1 := rfl
  refine ⟨fun m : RootManifest => (m.gathered v repo).1, fun m => states_gathered m v repo, ?_, ?_⟩
  · rw [← added_setupPy, ← hdeclared]
    exact forall₂_lookedUp registry _
  · intro hdirectory
    refine ⟨assess (.ofDependencies (collect v registry repo).1) (collect v registry repo).2,
      ?_, rfl, summarizes_summarize _⟩
    rw [analyze, ensureRepository_eq_ok_iff.mpr hdirectory]
    rfl

def pythonManifests : List (String × FileTree) :=
  [("requirements.txt", .file "A".toUTF8),
   ("setup.py", .file "install_requires=['a', 'b']".toUTF8)]

/-- The setup script asks for a package that the requirements name with a capital letter. -/
theorem shared_requirement_collected_once :
    ∃ a, analyze (disk pythonManifests) .offline "/w" = .ok a ∧
      a.report.dependencies.map Dependency.name = ["A", "b"] ∧ a.report.summary.total = 2 := by
  have hlinks : (FileTree.directory pythonManifests).Linkless :=
    .directory (by simp [pythonManifests, FileTree.Linkless.file])
  have hdirectory : (disk pythonManifests).isDirectory "/w" = true := by cbv
  have hrequirements : (disk pythonManifests).readText (requirementsTxt.path "/w") = .ok "A" := by
    rw [Volume.readText_eq, disk_sight hlinks]
    exact decodeBytes_toUTF8 _
  have hsetup : (disk pythonManifests).readText (setupPy.path "/w") =
      .ok "install_requires=['a', 'b']" := by
    rw [Volume.readText_eq, disk_sight hlinks]
    exact decodeBytes_toUTF8 _
  have habsent : ∀ m : RootManifest, m ≠ requirementsTxt → m ≠ setupPy →
      (disk pythonManifests).readText (m.path "/w") = .error (.system .notFound) := by
    intro m hm hm'
    rw [Volume.readText_eq, disk_sight hlinks]
    cases m <;> first | rfl | contradiction
  have hparsed : Manifest.parseRequirementsTxt "A".toList =
        [{ name := "A", version := "*", ecosystem := .pip }] ∧
      Manifest.parseSetupPy "install_requires=['a', 'b']".toList =
        [{ name := "a", version := "*", ecosystem := .pip },
         { name := "b", version := "*", ecosystem := .pip }] := by
    constructor <;> cbv
  obtain ⟨stated, hstates, hlooked, hanalyze⟩ :=
    collect_in_manifest_order (disk pythonManifests) .offline "/w"
  obtain ⟨a, ha, hcollected, hsummary⟩ := hanalyze hdirectory
  have hnone : ∀ m : RootManifest, m ≠ requirementsTxt → m ≠ setupPy → stated m = [] := by
    intro m hm hm'
    exact (hstates m).unread _ (habsent m hm hm')
  have hsome : stated requirementsTxt = Manifest.parseRequirementsTxt "A".toList :=
    (hstates requirementsTxt).read _ hrequirements
  have hsome' : stated setupPy = Manifest.parseSetupPy "install_requires=['a', 'b']".toList :=
    (hstates setupPy).read _ hsetup
  have hnames : a.report.dependencies.map Dependency.name = ["A", "b"] := by
    rw [hcollected, ← map_name_of_lookedUp hlooked, hsome, hsome', hparsed.1, hparsed.2,
      hnone packageJson (by decide) (by decide), hnone goMod (by decide) (by decide),
      hnone pomXml (by decide) (by decide)]
    decide +kernel
  refine ⟨a, ha, hnames, ?_⟩
  rw [hsummary.total, ← List.length_map Dependency.name, hnames]
  rfl

end Dependencies
end RepoAudit
