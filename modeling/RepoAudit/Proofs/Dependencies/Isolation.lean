import RepoAudit.Proofs.Dependencies.Troubles
import RepoAudit.Proofs.Except
import RepoAudit.Proofs.FileTree.Sight
import RepoAudit.Proofs.Path

/-!
# Manifests do not interfere

Each manifest at the root of a repository feeds one ecosystem, and every warning about it has its
path.  So what stands at its place changes neither the dependencies of the other ecosystems nor the
warnings about the other manifests, and one that is there and of no use is as good as absent, apart
from one warning.
-/

namespace RepoAudit

/-! ## What the manifests declare -/

namespace Manifest

variable {t : Text} {d : Dependency} {found : List Dependency}

theorem ecosystem_of_mem_parsePackageJson (hfound : parsePackageJson t = .ok found)
    (hd : d ∈ found) : d.ecosystem = .npm := by
  obtain ⟨manifest, -, rfl⟩ := map_eq_ok_iff.mp hfound
  obtain ⟨⟨section', scope⟩, -, hmem⟩ := List.mem_flatMap.mp hd
  obtain ⟨entry, -, rfl⟩ := List.mem_map.mp hmem
  rfl

theorem ecosystem_of_mem_map_pipDependency {named : List (String × String)}
    (hd : d ∈ named.map pipDependency) : d.ecosystem = .pip := by
  obtain ⟨entry, -, rfl⟩ := List.mem_map.mp hd
  rfl

theorem ecosystem_of_goRequirement? {entry : Text} (hd : goRequirement? entry = some d) :
    d.ecosystem = .go := by
  simp only [goRequirement?] at hd
  split at hd
  · obtain rfl := Option.some.inj hd
    rfl
  · cases hd

theorem ecosystem_of_mem_goRequirements {inBlock : Bool} {lines : List Text}
    (hd : d ∈ goRequirements inBlock lines) : d.ecosystem = .go := by
  have hentry : ∀ {entry : Text}, d ∈ (goRequirement? entry).toList → d.ecosystem = .go :=
    fun h => ecosystem_of_goRequirement? (Option.mem_toList.mp h)
  fun_induction goRequirements inBlock lines <;> grind

theorem ecosystem_of_mavenDependency? {block : Text} (hd : mavenDependency? block = some d) :
    d.ecosystem = .maven := by
  simp only [mavenDependency?, Option.bind_eq_bind, Option.bind_eq_some_iff] at hd
  obtain ⟨group, -, artifact, -, hd⟩ := hd
  obtain rfl := Option.some.inj hd
  rfl

theorem ecosystem_of_mem_parsePomXml (hd : d ∈ (parsePomXml t).1) : d.ecosystem = .maven := by
  simp only [parsePomXml, List.filterMap_map, List.mem_filterMap] at hd
  obtain ⟨block, -, hblock⟩ := hd
  exact ecosystem_of_mavenDependency? hblock

end Manifest

namespace Dependencies

inductive RootManifest where
  | packageJson
  | requirementsTxt
  | setupPy
  | goMod
  | pomXml
  deriving DecidableEq

namespace RootManifest

/-- In the order in which they are read. -/
def all : List RootManifest :=
  [packageJson, requirementsTxt, setupPy, goMod, pomXml]

def fileName : RootManifest → String
  | packageJson => "package.json"
  | requirementsTxt => "requirements.txt"
  | setupPy => "setup.py"
  | goMod => "go.mod"
  | pomXml => "pom.xml"

/-- The ecosystem that the manifest feeds. -/
def ecosystem : RootManifest → Ecosystem
  | packageJson => .npm
  | requirementsTxt | setupPy => .pip
  | goMod => .go
  | pomXml => .maven

def path (m : RootManifest) (repo : String) : String :=
  Path.join repo m.fileName

theorem path_injective {m other : RootManifest} {repo : String}
    (h : m.path repo = other.path repo) : m = other := by
  have hnames : m.fileName = other.fileName := by
    refine Path.join_cancel ?_ ?_ h
    · cases m <;> decide
    · cases other <;> decide
  cases m <;> cases other <;> first | rfl | exact absurd hnames (by decide)

/-- What is gathered from the manifest alone. -/
def gathered (m : RootManifest) (v : Volume) (repo : String) : Gathered :=
  match m with
  | packageJson => readPackageJson v repo
  | requirementsTxt => readManifest v repo "requirements.txt" fun text =>
      (Manifest.parseRequirementsTxt text.toList, [])
  | setupPy => readManifest v repo "setup.py" fun text => (Manifest.parseSetupPy text.toList, [])
  | goMod => readManifest v repo "go.mod" fun text => (Manifest.parseGoMod text.toList, [])
  | pomXml => readPomXml v repo

/-- What the manifest adds to the dependencies. -/
def added (m : RootManifest) (v : Volume) (repo : String) : List Dependency :=
  match m with
  | setupPy => (setupPy.gathered v repo).1.filter fun d =>
      !((requirementsTxt.gathered v repo).1.map nameKey).contains (nameKey d)
  | other => (other.gathered v repo).1

end RootManifest

open RootManifest

variable {v w : Volume} {repo file : String} {m other : RootManifest}

theorem declared_eq (v : Volume) (repo : String) :
    declared v repo = (RootManifest.all.flatMap fun m => m.added v repo,
      RootManifest.all.flatMap fun m => (m.gathered v repo).2) := by
  simp [declared, RootManifest.all, added, gathered]

theorem readManifest_eq (v : Volume) (repo file : String) (read : String → Gathered) :
    readManifest v repo file read =
      match readOptional v "dependencies" (Path.join repo file) with
      | .ok (some text) => read text
      | .ok none => ([], [])
      | .error x => ([], [x]) := by
  rfl

theorem readManifest_congr {read : String → Gathered}
    (h : v.readText (Path.join repo file) = w.readText (Path.join repo file)) :
    readManifest v repo file read = readManifest w repo file read := by
  rw [readManifest_eq, readManifest_eq, readOptional, readOptional, h]

theorem gathered_congr (h : v.readText (m.path repo) = w.readText (m.path repo)) :
    m.gathered v repo = m.gathered w repo := by
  cases m <;> exact readManifest_congr h

/-! ## What is gathered from one manifest -/

theorem exists_of_mem_readManifest {read : String → Gathered} {d : Dependency}
    (hd : d ∈ (readManifest v repo file read).1) : ∃ text, d ∈ (read text).1 := by
  rw [readManifest_eq] at hd
  split at hd
  next text hread => exact ⟨text, hd⟩
  · cases hd
  · cases hd

theorem ecosystem_of_mem_gathered {d : Dependency} (hd : d ∈ (m.gathered v repo).1) :
    d.ecosystem = m.ecosystem := by
  cases m with
  | packageJson =>
      obtain ⟨text, hd⟩ := exists_of_mem_readManifest hd
      split at hd
      next found hfound => exact Manifest.ecosystem_of_mem_parsePackageJson hfound hd
      next => cases hd
  | requirementsTxt | setupPy =>
      obtain ⟨text, hd⟩ := exists_of_mem_readManifest hd
      exact Manifest.ecosystem_of_mem_map_pipDependency hd
  | goMod =>
      obtain ⟨text, hd⟩ := exists_of_mem_readManifest hd
      exact Manifest.ecosystem_of_mem_goRequirements hd
  | pomXml =>
      obtain ⟨text, hd⟩ := exists_of_mem_readManifest hd
      exact Manifest.ecosystem_of_mem_parsePomXml hd

theorem path_of_mem_gathered {x : Warning} (hx : x ∈ (m.gathered v repo).2) :
    x.path = some (m.path repo) := by
  have hunread : ∀ {file : String}, UnreadFile v "dependencies" (Path.join repo file) x →
      x.path = some (Path.join repo file) := by
    rintro file ⟨e, -, -, rfl⟩
    rfl
  cases m with
  | packageJson =>
      rcases mem_readPackageJson_warnings.mp hx with h | ⟨text, fault, -, -, rfl⟩
      · exact hunread h
      · rfl
  | requirementsTxt | setupPy | goMod =>
      exact (mem_readManifest_warnings.mp hx).elim hunread (by simp)
  | pomXml =>
      rcases mem_readPomXml_warnings.mp hx with h | ⟨text, -, i, block, -, -, rfl⟩
      · exact hunread h
      · rfl

theorem readManifest_of_error {read : String → Gathered} {x : Warning}
    (h : readOptional v "dependencies" (Path.join repo file) = .error x) :
    readManifest v repo file read = ([], [x]) := by
  rw [readManifest_eq, h]

theorem gathered_of_absent (h : v.readText (m.path repo) = .error (.system .notFound)) :
    m.gathered v repo = ([], []) := by
  have hnone : ∀ read, readManifest v repo m.fileName read = ([], []) := by
    intro read
    have hread : readOptional v "dependencies" (Path.join repo m.fileName) = .ok none :=
      readOptional_eq_none_iff.mpr h
    rw [readManifest_eq, hread]
  cases m <;> exact hnone _

/-- What stands in the place of the manifest is not text, or not JSON where that is needed. -/
inductive RootManifest.Unusable (m : RootManifest) (v : Volume) (repo : String) : Prop
  | notText (hthere : (v.resolve (m.path repo)).toBool = true)
      (hread : ∀ text, v.readText (m.path repo) ≠ .ok text)
  | notJson {text : String} {fault : Json.Fault} (hm : m = .packageJson)
      (hread : v.readText (m.path repo) = .ok text) (hjson : Json.ofText text.toList = .error fault)

theorem readText_ne_notFound {path : String} (hthere : (v.resolve path).toBool = true) :
    v.readText path ≠ .error (.system .notFound) := by
  rw [Volume.readText]
  cases hresolve : v.resolve path with
  | error e => simp [hresolve, Except.toBool] at hthere
  | ok found =>
      obtain ⟨real, t⟩ := found
      cases t with
      | file bytes =>
          simp only [decodeBytes]
          split <;> simp
      | link target => simp
      | directory entries => simp

theorem RootManifest.Unusable.gathered_eq (h : m.Unusable v repo) :
    ∃ x, m.gathered v repo = ([], [x]) := by
  cases h with
  | notText hthere hread =>
      cases he : v.readText (m.path repo) with
      | ok text => exact absurd he (hread text)
      | error e =>
          have hne : e ≠ .system .notFound := fun h => readText_ne_notFound hthere (h ▸ he)
          obtain ⟨x, herror⟩ : ∃ x,
              readOptional v "dependencies" (Path.join repo m.fileName) = .error x :=
            ⟨_, readOptional_eq_error_iff.mpr ⟨e, he, hne, rfl⟩⟩
          refine ⟨x, ?_⟩
          cases m <;> exact readManifest_of_error herror
  | @notJson text fault hm hread hjson =>
      subst hm
      refine ⟨{ source := "npm", path := some (Path.join repo "package.json")
                message := fault.message text.toList }, ?_⟩
      have hsome : readOptional v "dependencies" (Path.join repo "package.json") =
          .ok (some text) := readOptional_eq_some_iff.mpr hread
      simp only [gathered, readPackageJson, readManifest_eq, hsome, Manifest.parsePackageJson, hjson]
      rfl

/-! ## What is gathered from all -/

theorem added_eq_of_gathered_eq
    (h : ∀ other, (gathered other v repo).1 = (gathered other w repo).1) :
    m.added v repo = m.added w repo := by
  cases m <;> simp only [added, h]

theorem ecosystem_of_mem_added {d : Dependency} (hd : d ∈ m.added v repo) :
    d.ecosystem = m.ecosystem := by
  cases m with
  | setupPy => exact ecosystem_of_mem_gathered (m := setupPy) (List.mem_of_mem_filter hd)
  | packageJson | requirementsTxt | goMod | pomXml => exact ecosystem_of_mem_gathered hd

/-- A manifest of another ecosystem adds the same when only `m` differs. -/
theorem added_congr
    (hagree : ∀ other, other ≠ m → v.readText (other.path repo) = w.readText (other.path repo))
    (hother : other.ecosystem ≠ m.ecosystem) : other.added v repo = other.added w repo := by
  have hgathered : ∀ third : RootManifest, third.ecosystem = other.ecosystem →
      third.gathered v repo = third.gathered w repo := by
    intro third hthird
    refine gathered_congr (hagree third ?_)
    rintro rfl
    exact hother hthird.symm
  cases other with
  | setupPy => rw [added, added, hgathered setupPy rfl, hgathered requirementsTxt rfl]
  | packageJson | requirementsTxt | goMod | pomXml => exact congrArg Prod.fst (hgathered _ rfl)

theorem filter_flatMap_congr {α β : Type} {l : List α} {f g : α → List β} {p : β → Bool}
    (h : ∀ a ∈ l, (f a).filter p = (g a).filter p) :
    (l.flatMap f).filter p = (l.flatMap g).filter p := by
  rw [List.filter_flatMap, List.filter_flatMap]
  exact List.flatMap_congr h

theorem collect_eq (v : Volume) (registry : Registry) (repo : String) :
    collect v registry repo =
      ((RootManifest.all.flatMap fun m => m.added v repo).map (Dependency.lookUp registry),
        RootManifest.all.flatMap fun m => (m.gathered v repo).2) := by
  simp only [collect, declared_eq]

theorem filter_map_lookUp (registry : Registry) (ds : List Dependency) (e : Ecosystem) :
    (ds.map (Dependency.lookUp registry)).filter (fun d => d.ecosystem != e) =
      (ds.filter fun d => d.ecosystem != e).map (Dependency.lookUp registry) := by
  rw [List.filter_map]
  rfl

/-- The warnings with the path of a manifest are those about it. -/
theorem filter_warnings_eq (v : Volume) (registry : Registry) (repo : String) (m : RootManifest) :
    (collect v registry repo).2.filter (fun x => x.path == some (m.path repo)) =
      (m.gathered v repo).2 := by
  have hown : ∀ other : RootManifest,
      (other.gathered v repo).2.filter (fun x => x.path == some (m.path repo)) =
        if other = m then (m.gathered v repo).2 else [] := by
    intro other
    split
    next heq =>
      subst heq
      exact List.filter_eq_self.mpr fun x hx => by simp [path_of_mem_gathered hx]
    next hne =>
      rw [List.filter_eq_nil_iff]
      intro x hx
      have hpath : other.path repo ≠ m.path repo := fun h => hne (path_injective h)
      simp [path_of_mem_gathered hx, hpath]
  rw [collect_eq, List.filter_flatMap]
  simp only [hown]
  cases m <;> simp [RootManifest.all]

theorem dependencies_isolated
    (hagree : ∀ other, other ≠ m → v.readText (other.path repo) = w.readText (other.path repo))
    (registry : Registry) :
    ((collect v registry repo).1.filter fun d => d.ecosystem != m.ecosystem) =
      (collect w registry repo).1.filter fun d => d.ecosystem != m.ecosystem := by
  have hadded : ∀ other ∈ RootManifest.all,
      (other.added v repo).filter (fun d => d.ecosystem != m.ecosystem) =
        (other.added w repo).filter fun d => d.ecosystem != m.ecosystem := by
    intro other _
    by_cases hsame : other.ecosystem = m.ecosystem
    · -- Here the lists may differ, but all of both is left out.
      have hnil : ∀ u : Volume,
          (other.added u repo).filter (fun d => d.ecosystem != m.ecosystem) = [] := by
        intro u
        rw [List.filter_eq_nil_iff]
        intro d hd
        simp [ecosystem_of_mem_added hd, hsame]
      rw [hnil v, hnil w]
    · rw [added_congr hagree hsame]
  rw [collect_eq, collect_eq, filter_map_lookUp, filter_map_lookUp, filter_flatMap_congr hadded]

theorem warnings_isolated
    (hagree : ∀ other, other ≠ m → v.readText (other.path repo) = w.readText (other.path repo))
    (registry : Registry) :
    ((collect v registry repo).2.filter fun x => x.path != some (m.path repo)) =
      (collect w registry repo).2.filter fun x => x.path != some (m.path repo) := by
  have hwarnings : ∀ other ∈ RootManifest.all,
      (other.gathered v repo).2.filter (fun x => x.path != some (m.path repo)) =
        (other.gathered w repo).2.filter fun x => x.path != some (m.path repo) := by
    intro other _
    by_cases hsame : other = m
    · have hnil : ∀ u : Volume,
          (other.gathered u repo).2.filter (fun x => x.path != some (m.path repo)) = [] := by
        intro u
        rw [List.filter_eq_nil_iff]
        intro x hx
        simp [path_of_mem_gathered hx, hsame]
      rw [hnil v, hnil w]
    · rw [gathered_congr (hagree other hsame)]
  rw [collect_eq, collect_eq]
  exact filter_flatMap_congr hwarnings

theorem dependencies_eq_of_unusable
    (hagree : ∀ other, other ≠ m → v.readText (other.path repo) = w.readText (other.path repo))
    (hunusable : m.Unusable v repo)
    (habsent : w.readText (m.path repo) = .error (.system .notFound)) (registry : Registry) :
    (collect v registry repo).1 = (collect w registry repo).1 := by
  obtain ⟨x, hx⟩ := hunusable.gathered_eq
  have hgathered : ∀ other : RootManifest,
      (other.gathered v repo).1 = (other.gathered w repo).1 := by
    intro other
    by_cases hsame : other = m
    · rw [hsame, hx, gathered_of_absent habsent]
    · rw [gathered_congr (hagree other hsame)]
  have hadded : (fun other : RootManifest => other.added v repo) = fun other =>
      other.added w repo := funext fun other => added_eq_of_gathered_eq hgathered
  rw [collect_eq, collect_eq, hadded]

/-- When two repositories differ in one manifest at most, the dependencies of the ecosystems that it
does not feed are the same, and so are the warnings about the others.  A manifest that is there and
of no use costs one warning, and the dependencies are those of a repository without it. -/
theorem collect_isolated
    (hagree : ∀ other, other ≠ m → v.readText (other.path repo) = w.readText (other.path repo))
    (registry : Registry) :
    ((collect v registry repo).1.filter fun d => d.ecosystem != m.ecosystem) =
        ((collect w registry repo).1.filter fun d => d.ecosystem != m.ecosystem) ∧
      ((collect v registry repo).2.filter fun x => x.path != some (m.path repo)) =
        ((collect w registry repo).2.filter fun x => x.path != some (m.path repo)) ∧
      (m.Unusable v repo →
        (∃ x, (collect v registry repo).2.filter (fun x => x.path == some (m.path repo)) = [x]) ∧
          (w.readText (m.path repo) = .error (.system .notFound) →
            (collect v registry repo).1 = (collect w registry repo).1)) := by
  refine ⟨dependencies_isolated hagree registry, warnings_isolated hagree registry, ?_⟩
  intro hunusable
  obtain ⟨x, hx⟩ := hunusable.gathered_eq
  have hwarned : (collect v registry repo).2.filter (fun x => x.path == some (m.path repo)) =
      [x] := by rw [filter_warnings_eq, hx]
  exact ⟨⟨x, hwarned⟩, fun habsent =>
    dependencies_eq_of_unusable hagree hunusable habsent registry⟩

def unreadable : List (String × FileTree) :=
  [("package.json", .file ⟨#[255]⟩), ("requirements.txt", .file ⟨#[102]⟩)]

def removed : List (String × FileTree) :=
  [("requirements.txt", .file ⟨#[102]⟩)]

/-- A disk with these entries at the top. -/
def disk (entries : List (String × FileTree)) : Volume :=
  { name := "/w", top := .directory entries }

theorem disk_sight {entries : List (String × FileTree)}
    (hlinks : (FileTree.directory entries).Linkless) (m : RootManifest) :
    (disk entries).sight (m.path "/w") = (FileTree.directory entries).sight [m.fileName] := by
  have hanchored : (disk entries).Anchored :=
    ⟨"", ["w"], by simp only [disk]; decide +kernel, by simp, by simp⟩
  have hstart : (disk entries).start? "/w" = some ([], []) := by
    have hparts : pathParts "/w" = ["", "w"] := by decide +kernel
    simp [disk, Volume.start?, hparts]
  have hresolve : (disk entries).resolve "/w" = .ok ([], .directory entries) :=
    Volume.resolve_of_at? hstart (by simp) rfl (by simp)
  have hname : IsSegment m.fileName ∧ NamesEntry m.fileName := by
    cases m <;> simp [fileName, IsSegment, NamesEntry]
  have hpath : m.path "/w" = Path.join "/w" (Path.ofSegments [m.fileName]) := by
    simp [RootManifest.path, Path.ofSegments]
  rw [hpath]
  exact Volume.sight_join hanchored hresolve hlinks (by simp) (by simpa using hname)

/-- A package manifest that is not text leaves the Python requirement where it was. -/
theorem unreadable_isolated :
    (∃ x, (collect (disk unreadable) .offline "/w").2.filter
        (fun x => x.path == some (packageJson.path "/w")) = [x]) ∧
      (collect (disk unreadable) .offline "/w").1 = (collect (disk removed) .offline "/w").1 := by
  have hlinks : (FileTree.directory unreadable).Linkless :=
    .directory (by simp [unreadable, FileTree.Linkless.file])
  have hlinks' : (FileTree.directory removed).Linkless :=
    .directory (by simp [removed, FileTree.Linkless.file])
  have hagree : ∀ other, other ≠ packageJson → (disk unreadable).readText (other.path "/w") =
      (disk removed).readText (other.path "/w") := by
    intro other hother
    apply Volume.readText_congr
    rw [disk_sight hlinks, disk_sight hlinks']
    cases other with
    | packageJson => exact absurd rfl hother
    | requirementsTxt | setupPy | goMod | pomXml => rfl
  have hunusable : packageJson.Unusable (disk unreadable) "/w" := by
    refine .notText ?_ fun text => ?_
    · rw [Volume.toBool_resolve_eq, disk_sight hlinks]
      rfl
    · have hshown : (FileTree.directory unreadable).sight [packageJson.fileName] =
          .ok (.file ⟨#[255]⟩) := by rfl
      have hdecoded : decodeBytes ⟨#[255]⟩ = .error .notText := by decide +kernel
      rw [Volume.readText_eq, disk_sight hlinks, hshown]
      simp [hdecoded]
  have habsent : (disk removed).readText (packageJson.path "/w") = .error (.system .notFound) := by
    rw [Volume.readText_eq, disk_sight hlinks']
    rfl
  obtain ⟨-, -, hrest⟩ := collect_isolated hagree .offline
  exact ⟨(hrest hunusable).1, (hrest hunusable).2 habsent⟩

end Dependencies
end RepoAudit
