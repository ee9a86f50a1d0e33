import RepoAudit.Proofs.FileTree.Below
import RepoAudit.Proofs.Licenses.Troubles
import RepoAudit.Proofs.Repository.Excluded

/-!
# What a license analysis depends on

A license analysis looks at the root manifest, at the license files and at the manifests of the
installed packages.  The name of a package is put into the path of its manifest as it is, so a name
that points upwards leads out of the directory in which packages are installed.  When no name does,
nothing else in the repository matters.
-/

namespace RepoAudit

theorem Volume.HoldsRepository.sight_entry {v : Volume} {repo name : String}
    {entries : List (String × FileTree)} (h : v.HoldsRepository repo entries)
    (hname : IsSegment name ∧ NamesEntry name) :
    v.sight (Path.join repo name) =
      match entries.lookup name with
      | some t => .ok t.cover
      | none => .error .notFound := by
  obtain ⟨real, hresolve⟩ := h.resolves
  have hsight : v.sight (Path.join repo (Path.ofSegments [name])) = _ :=
    Volume.sight_join h.anchored hresolve h.linkless (by simp) (by simpa using hname)
  rw [Path.ofSegments, String.intercalate_singleton] at hsight
  rw [hsight, FileTree.sight]
  cases entries.lookup name <;> rfl

theorem Volume.exists_resolve_of_isDirectory {v : Volume} {path : String}
    (h : v.isDirectory path = true) : ∃ real t, v.resolve path = .ok (real, t) := by
  rw [isDirectory] at h
  split at h
  next real t hresolve => exact ⟨real, t, hresolve⟩
  next => simp at h

namespace Licenses

variable {v w : Volume} {repo name : String} {entries entries' : List (String × FileTree)}
variable {real : Location} {t : FileTree}

/-- Two repositories have the same root manifest, the same license files and the same installed
packages. -/
structure Agree (entries entries' : List (String × FileTree)) : Prop where
  manifest : entries.lookup "package.json" = entries'.lookup "package.json"
  modules : entries.lookup "node_modules" = entries'.lookup "node_modules"
  licenseFiles : ∀ name, isLicenseFileName name = true →
    (entries.lookup name).filter FileTree.isFile = (entries'.lookup name).filter FileTree.isFile

/-- The packages that the root manifest lists. -/
def listedPackages (v : Volume) (repo : String) : List String :=
  match readManifestAt v (Path.join repo "package.json") with
  | .ok (some manifest) => packageNames manifest
  | _ => []

/-- From the directory of the packages the name leads nowhere above it. -/
def StaysInside (name : String) : Prop :=
  name.toList.head? ≠ some '/' ∧ Path.staysBelow 0 (Path.segments name) = true

def manifestPath (repo name : String) : String :=
  Path.join (Path.join (Path.join repo "node_modules") name) "package.json"

/-! ## License files -/

theorem lookup_of_mem (h : v.HoldsRepository repo entries) (hmem : (name, t) ∈ entries) :
    entries.lookup name = some t ∧ IsSegment name ∧ NamesEntry name := by
  obtain ⟨real, hresolve⟩ := h.resolves
  cases h.wellFormed.at? (Volume.at?_of_resolve hresolve) with
  | directory sorted segments _ =>
      cases h.undotted with
      | directory names _ =>
          have hsegment : IsSegment name := segments _ hmem
          exact ⟨FileTree.lookup_of_mem sorted hmem, hsegment, hsegment.1, names _ hmem⟩

/-- The names of the license files at the root. -/
def licenseFiles (v : Volume) (repo : String) (entries : List (String × FileTree)) : List String :=
  (entries.map Prod.fst).filter fun name =>
    isLicenseFileName name && v.isFile (Path.join repo name)

theorem mem_licenseFiles_iff (h : v.HoldsRepository repo entries) :
    name ∈ licenseFiles v repo entries ↔ isLicenseFileName name = true ∧
      ∃ t, (entries.lookup name).filter FileTree.isFile = some t := by
  have hfile : ∀ t, (name, t) ∈ entries → (v.isFile (Path.join repo name) = true ↔
      ∃ t, (entries.lookup name).filter FileTree.isFile = some t) := by
    intro t hmem
    obtain ⟨hlookup, hname⟩ := lookup_of_mem h hmem
    rw [Volume.isFile_eq, h.sight_entry hname, hlookup]
    cases t <;> simp [FileTree.cover, FileTree.isFile]
  rw [licenseFiles, List.mem_filter, Bool.and_eq_true]
  constructor
  · rintro ⟨hmem, hlicense, hisFile⟩
    obtain ⟨⟨_, t⟩, hentry, rfl⟩ := List.mem_map.mp hmem
    exact ⟨hlicense, (hfile t hentry).mp hisFile⟩
  · rintro ⟨hlicense, t, ht⟩
    have hentry := FileTree.mem_of_lookup (Option.filter_eq_some_iff.mp ht).1
    exact ⟨List.mem_map_of_mem hentry, hlicense, (hfile t hentry).mpr ⟨t, ht⟩⟩

theorem pairwise_licenseFiles (h : v.HoldsRepository repo entries) :
    (licenseFiles v repo entries).Pairwise (· < ·) := by
  obtain ⟨real, hresolve⟩ := h.resolves
  cases h.wellFormed.at? (Volume.at?_of_resolve hresolve) with
  | directory sorted _ _ => exact (List.pairwise_map.mpr sorted).filter _

theorem licenseFile?_eq (h : v.HoldsRepository repo entries) :
    licenseFile? v repo = .ok (licenseFiles v repo entries).head? := by
  obtain ⟨real, hresolve⟩ := h.resolves
  rw [licenseFile?, Volume.entryNames, hresolve, licenseFiles, List.head?_filter]

theorem licenseFile?_congr (h : v.HoldsRepository repo entries)
    (h' : w.HoldsRepository repo entries') (hagree : Agree entries entries') :
    licenseFile? v repo = licenseFile? w repo := by
  have hsame : licenseFiles v repo entries = licenseFiles w repo entries' := by
    refine (pairwise_licenseFiles h).eq_of_mem_iff (pairwise_licenseFiles h') fun name => ?_
    rw [mem_licenseFiles_iff h, mem_licenseFiles_iff h']
    exact and_congr_right fun hlicense => by rw [hagree.licenseFiles name hlicense]
  rw [licenseFile?_eq h, licenseFile?_eq h', hsame]

theorem projectTerms_congr (h : v.HoldsRepository repo entries)
    (h' : w.HoldsRepository repo entries') (hagree : Agree entries entries')
    {table : LicenseTable} {file : Option String} (hfile : licenseFile? v repo = .ok file) :
    projectTerms table v repo file = projectTerms table w repo file := by
  cases file with
  | none => rfl
  | some name =>
      rw [licenseFile?_eq h, Except.ok.injEq] at hfile
      obtain ⟨hlicense, t, ht⟩ := (mem_licenseFiles_iff h).mp (List.mem_of_head? hfile)
      have ht' := hagree.licenseFiles name hlicense ▸ ht
      obtain ⟨hlookup, -⟩ := Option.filter_eq_some_iff.mp ht
      obtain ⟨hlookup', -⟩ := Option.filter_eq_some_iff.mp ht'
      obtain ⟨-, hname⟩ := lookup_of_mem h (FileTree.mem_of_lookup hlookup)
      have hsight : v.sight (Path.join repo name) = w.sight (Path.join repo name) := by
        rw [h.sight_entry hname, h'.sight_entry hname, hlookup, hlookup']
      rw [projectTerms, projectTerms, readOptional_congr hsight]

/-! ## Installed packages -/

theorem modules_name : IsSegment "node_modules" ∧ NamesEntry "node_modules" := by
  simp [IsSegment, NamesEntry]

theorem manifest_name : IsSegment "package.json" ∧ NamesEntry "package.json" := by
  simp [IsSegment, NamesEntry]

theorem readManifestAt_congr (hsight : v.sight name = w.sight name) :
    readManifestAt v name = readManifestAt w name := by
  rw [readManifestAt, readManifestAt, readOptional_congr hsight]

theorem rootManifest_congr (h : v.HoldsRepository repo entries)
    (h' : w.HoldsRepository repo entries') (hagree : Agree entries entries') :
    readManifestAt v (Path.join repo "package.json") =
      readManifestAt w (Path.join repo "package.json") := by
  apply readManifestAt_congr
  rw [h.sight_entry manifest_name, h'.sight_entry manifest_name, hagree.manifest]

theorem modules_congr (h : v.HoldsRepository repo entries)
    (h' : w.HoldsRepository repo entries') (hagree : Agree entries entries') :
    v.isDirectory (Path.join repo "node_modules") =
      w.isDirectory (Path.join repo "node_modules") := by
  apply Volume.isDirectory_congr
  rw [h.sight_entry modules_name, h'.sight_entry modules_name, hagree.modules]

/-- The tree that stands where packages are installed is that of the entry. -/
theorem lookup_of_resolve_modules (h : v.HoldsRepository repo entries)
    (hmodules : v.resolve (Path.join repo "node_modules") = .ok (real, t)) :
    entries.lookup "node_modules" = some t ∧ t.Linkless := by
  obtain ⟨place, hresolve⟩ := h.resolves
  have hsegments : Path.segments "node_modules" = ["node_modules"] := by decide +kernel
  have hrelative : "node_modules".toList.head? ≠ some '/' := by simp
  obtain ⟨left, hleft⟩ := Volume.resolve_join h.anchored hresolve hrelative
  have hat := Volume.at?_of_resolve hresolve
  rw [hmodules, hsegments, Volume.resolveFrom.eq_def] at hleft
  cases hlookup : entries.lookup "node_modules" with
  | none => simp [hat, hlookup] at hleft
  | some sub =>
      have hsub : sub.Linkless := by
        cases h.linkless with
        | directory below => exact below _ (FileTree.mem_of_lookup hlookup)
      have hnext : v.top.at? (place ++ ["node_modules"]) = some sub := by
        rw [FileTree.at?_append, hat]
        simp [FileTree.at?, FileTree.child?, hlookup]
      have hfound : t = sub := by
        cases hsub <;> simp [hat, hlookup, Volume.resolveFrom, hnext] at hleft <;> exact hleft.2
      exact ⟨by rw [hfound], hfound ▸ hsub⟩

/-- The manifest of a package whose name leads nowhere above is looked for below the directory of
the packages. -/
theorem resolve_manifestPath (h : v.HoldsRepository repo entries) (hname : StaysInside name)
    (hmodules : v.resolve (Path.join repo "node_modules") = .ok (real, t)) :
    v.resolve (manifestPath repo name) =
      (Volume.resolveFrom t true 0 [] (Path.segments (Path.join name "package.json"))).map
        fun found => (real ++ found.1, found.2) := by
  have hslash : "package.json".toList.head? ≠ some '/' := by simp
  obtain ⟨hrelative, hbelow⟩ :=
    Path.staysBelow_join hname.1 ⟨manifest_name.1, manifest_name.2.2.2⟩ hname.2
  rw [manifestPath, Path.join_assoc hname.1 hslash]
  exact Volume.resolve_join_below h.anchored hmodules (lookup_of_resolve_modules h hmodules).2
    hrelative hbelow

theorem sight_manifestPath_congr (h : v.HoldsRepository repo entries)
    (h' : w.HoldsRepository repo entries') (hagree : Agree entries entries')
    (hname : StaysInside name) (hmodules : v.isDirectory (Path.join repo "node_modules") = true) :
    v.sight (manifestPath repo name) = w.sight (manifestPath repo name) := by
  have hmodules' := hmodules
  rw [modules_congr h h' hagree] at hmodules'
  obtain ⟨real, t, hresolve⟩ := Volume.exists_resolve_of_isDirectory hmodules
  obtain ⟨real', t', hresolve'⟩ := Volume.exists_resolve_of_isDirectory hmodules'
  have hlookup := (lookup_of_resolve_modules h hresolve).1
  have hlookup' := (lookup_of_resolve_modules h' hresolve').1
  obtain rfl : t = t' := Option.some.inj (hlookup.symm.trans (hagree.modules.trans hlookup'))
  rw [Volume.sight, Volume.sight, resolve_manifestPath h hname hresolve,
    resolve_manifestPath h' hname hresolve']
  generalize Volume.resolveFrom t true 0 [] _ = found
  cases found <;> rfl

theorem installedManifest_congr (hsight : v.sight name = w.sight name) :
    installedManifest v name = installedManifest w name := by
  rw [installedManifest, installedManifest, readManifestAt_congr hsight]

theorem installedPackage_congr {table : LicenseTable} {modules : String}
    (hsight : v.sight (Path.join (Path.join modules name) "package.json") =
      w.sight (Path.join (Path.join modules name) "package.json")) :
    installedPackage table v modules name = installedPackage table w modules name := by
  unfold installedPackage
  rw [installedManifest_congr hsight]

theorem installedPackages_congr (h : v.HoldsRepository repo entries)
    (h' : w.HoldsRepository repo entries') (hagree : Agree entries entries')
    (hnames : ∀ name ∈ listedPackages v repo, StaysInside name) (table : LicenseTable) :
    installedPackages table v repo = installedPackages table w repo := by
  rw [installedPackages, installedPackages, ← rootManifest_congr h h' hagree]
  rw [listedPackages] at hnames
  cases hroot : readManifestAt v (Path.join repo "package.json") with
  | error warning => rfl
  | ok found =>
      cases found with
      | none => rfl
      | some manifest =>
          rw [hroot] at hnames
          dsimp only
          rw [← modules_congr h h' hagree]
          cases hmodules : v.isDirectory (Path.join repo "node_modules") with
          | false => rfl
          | true =>
              have hfound : ∀ name ∈ packageNames manifest,
                  installedPackage table v (Path.join repo "node_modules") name =
                    installedPackage table w (Path.join repo "node_modules") name :=
                fun name hname => installedPackage_congr
                  (sight_manifestPath_congr h h' hagree (hnames name hname) hmodules)
              rw [List.map_congr_left hfound]

/-! ## The analysis -/

/-- When the names of the listed packages lead nowhere above the directory of the packages, their
manifests are read below it, and the analysis is the same for every repository with the same root
manifest, license files and installed packages. -/
theorem analyze_confined (h : v.HoldsRepository repo entries)
    (h' : w.HoldsRepository repo entries') (hagree : Agree entries entries')
    (hnames : ∀ name ∈ listedPackages v repo, StaysInside name) (table : LicenseTable) :
    analyze v table repo = analyze w table repo ∧
      ∀ name ∈ listedPackages v repo, ∀ modules inside place found,
        v.resolve (Path.join repo "node_modules") = .ok (modules, inside) →
        v.resolve (manifestPath repo name) = .ok (place, found) → modules <+: place := by
  constructor
  · have hensure : ensureRepository v repo = .ok () := ensureRepository_eq_ok_iff.mpr h.isDirectory
    have hensure' : ensureRepository w repo = .ok () :=
      ensureRepository_eq_ok_iff.mpr h'.isDirectory
    have hfile := licenseFile?_eq h
    have hfile' := hfile
    rw [licenseFile?_congr h h' hagree] at hfile'
    simp only [analyze, hensure, hensure', hfile, hfile', bind, Except.bind,
      installedPackages_congr h h' hagree hnames, projectTerms_congr h h' hagree hfile]
  · intro name hname modules inside place found hmodules hplace
    rw [resolve_manifestPath h (hnames name hname) hmodules, map_eq_ok_iff] at hplace
    obtain ⟨below, -, hbelow⟩ := hplace
    exact ⟨below.1, congrArg Prod.fst hbelow⟩

/-! ### Examples -/

def library : FileTree :=
  .directory [("package.json", .file "\x7b\"license\":\"MIT\"\x7d".toUTF8)]

/-- An installed package, a root manifest, and other entries before them. -/
def oneInstalled (listed : String) (beside : List (String × FileTree)) :
    List (String × FileTree) :=
  beside ++ [
    ("node_modules", .directory [("a", library)]), ("package.json", .file listed.toUTF8)]

def held (entries : List (String × FileTree)) : Volume :=
  { name := "r", top := .directory entries }

theorem library_ordinary : library.Ordinary :=
  .directory (by simp) (by simp [IsSegment]) (by simp [FileTree.Ordinary.file])

theorem oneInstalled_held (listed : String) {beside : List (String × FileTree)}
    (hbeside : beside = [] ∨ beside = [("lib", library)]) :
    (held (oneInstalled listed beside)).HoldsRepository "r" (oneInstalled listed beside) := by
  have hmodules : (FileTree.directory [("a", library)]).Ordinary :=
    .directory (by simp) (by simp [IsSegment]) (by simp [library_ordinary])
  have hlt : ("lib" : String) < "node_modules" ∧ ("lib" : String) < "package.json" ∧
      ("node_modules" : String) < "package.json" := by decide
  apply holdsRepository_top
  rcases hbeside with rfl | rfl
  · refine .directory ?_ (by simp [oneInstalled, IsSegment])
      (by simp [oneInstalled, hmodules, FileTree.Ordinary.file])
    simpa [oneInstalled] using hlt.2.2
  · refine .directory ?_ (by simp [oneInstalled, IsSegment])
      (by simp [oneInstalled, hmodules, library_ordinary, FileTree.Ordinary.file])
    simpa [oneInstalled, and_assoc] using hlt

theorem oneInstalled_agree (listed : String) :
    Agree (oneInstalled listed []) (oneInstalled listed [("lib", library)]) := by
  have hlib : isLicenseFileName "lib" = false := by decide +kernel
  constructor
  · simp [oneInstalled, List.lookup_cons]
  · simp [oneInstalled, List.lookup_cons]
  · intro name hname
    have hne : (name == "lib") = false := by
      rw [beq_eq_false_iff_ne]
      rintro rfl
      simp [hlib] at hname
    simp [oneInstalled, List.lookup_cons, hne]

theorem manifest_read {path text : String} {manifest : Json} {v : Volume} {place : Location}
    (hresolve : v.resolve path = .ok (place, .file text.toUTF8))
    (hjson : Json.ofText text.toList = .ok manifest) :
    readManifestAt v path = .ok (some manifest) := by
  refine readManifestAt_eq_some_iff.mpr ⟨text, ?_, hjson⟩
  rw [Volume.readText, hresolve]
  exact decodeBytes_toUTF8 text

theorem oneInstalled_manifest {listed : String} {manifest : Json}
    (hlisted : Json.ofText listed.toList = .ok manifest) {beside : List (String × FileTree)}
    (hbeside : beside.lookup "package.json" = none) :
    readManifestAt (held (oneInstalled listed beside)) (Path.join "r" "package.json") =
      .ok (some manifest) := by
  have hstart : (held []).start? (Path.join "r" "package.json") = some ([], ["package.json"]) := by
    decide +kernel
  have hplace : (FileTree.directory (oneInstalled listed beside)).at? ["package.json"] =
      some (.file listed.toUTF8) := by
    simp [oneInstalled, FileTree.at?, FileTree.child?, List.lookup_append, hbeside,
      List.lookup_cons]
  exact manifest_read (Volume.resolve_of_at? hstart (by simp [NamesEntry]) hplace (by simp))
    hlisted

def inward : String :=
  "\x7b\"dependencies\":\x7b\"a\":\"1\"\x7d\x7d"

/-- A package listed by its own name is read where it is installed, whatever stands beside. -/
theorem inward_confined :
    analyze (held (oneInstalled inward [])) .builtIn "r" =
      analyze (held (oneInstalled inward [("lib", library)])) .builtIn "r" := by
  have hlisted : Json.ofText inward.toList =
      .ok (.obj [("dependencies", .obj [("a", .str "1")])]) := by cbv
  have hnames : listedPackages (held (oneInstalled inward [])) "r" = ["a"] := by
    rw [listedPackages, oneInstalled_manifest hlisted rfl]
    rfl
  have hinside : StaysInside "a" := ⟨by simp, by decide +kernel⟩
  exact (analyze_confined (oneInstalled_held inward (.inl rfl))
    (oneInstalled_held inward (.inr rfl)) (oneInstalled_agree inward) (by simpa [hnames] using hinside) .builtIn).1

def upward : String :=
  "\x7b\"dependencies\":\x7b\"../lib\":\"1\"\x7d\x7d"

theorem dependencies_of_analyze {table : LicenseTable} {a : Assessment Report}
    (h : analyze v table repo = .ok a) :
    a.report.dependencies = (installedPackages table v repo).1 := by
  rw [analyze, bind_eq_ok_iff] at h
  obtain ⟨_, -, h⟩ := h
  rw [bind_eq_ok_iff] at h
  obtain ⟨file, -, h⟩ := h
  rw [← Except.ok.inj h]
  rfl

theorem upward_dependencies {beside : List (String × FileTree)} {a : Assessment Report}
    (hbeside : beside = [] ∨ beside = [("lib", library)])
    (ha : analyze (held (oneInstalled upward beside)) .builtIn "r" = .ok a) :
    a.report.dependencies = [(installedPackage .builtIn (held (oneInstalled upward beside))
      (Path.join "r" "node_modules") "../lib").1] := by
  have hlisted : Json.ofText upward.toList =
      .ok (.obj [("dependencies", .obj [("../lib", .str "1")])]) := by cbv
  have hmanifest : readManifestAt (held (oneInstalled upward beside))
      (Path.join "r" "package.json") = _ :=
    oneInstalled_manifest hlisted (by rcases hbeside with rfl | rfl <;> simp [List.lookup_cons])
  have hmodules : (held (oneInstalled upward beside)).isDirectory
      (Path.join "r" "node_modules") = true := by
    have hheld := oneInstalled_held upward hbeside
    rw [Volume.isDirectory_eq, hheld.sight_entry modules_name]
    rcases hbeside with rfl | rfl <;>
      simp [oneInstalled, List.lookup_cons, FileTree.cover, FileTree.isDirectory]
  rw [dependencies_of_analyze ha, installedPackages, hmanifest]
  simp only [hmodules]
  rfl

theorem resolve_upward (entries : List (String × FileTree)) :
    (held entries).resolve (manifestPath "r" "../lib") =
      Volume.resolveFrom (.directory entries) true Volume.maxLinks []
        ["node_modules", "..", "lib", "package.json"] := by
  have hstart : (held []).start? (manifestPath "r" "../lib") =
      some ([], ["node_modules", "..", "lib", "package.json"]) := by decide +kernel
  have hnamed : (held entries).start? (manifestPath "r" "../lib") = _ := hstart
  rw [Volume.resolve, hnamed]
  rfl

/-- A package listed by a name that points upwards is read from beside the installed ones. -/
theorem upward_escapes :
    ¬ ∀ (v w : Volume) (repo : String) (entries entries' : List (String × FileTree)),
      v.HoldsRepository repo entries → w.HoldsRepository repo entries' → Agree entries entries' →
      analyze v .builtIn repo = analyze w .builtIn repo := by
  intro h
  have hsame := h _ _ "r" _ _ (oneInstalled_held upward (.inl rfl))
    (oneInstalled_held upward (.inr rfl)) (oneInstalled_agree upward)
  have halone : installedManifest (held (oneInstalled upward [])) (manifestPath "r" "../lib") =
      .error { source := "licenses", path := some (manifestPath "r" "../lib")
               message := "package manifest not found" } := by
    refine installedManifest_eq_error_iff.mpr (.missing ?_ rfl)
    rw [Volume.readText, resolve_upward]
    simp [Volume.resolveFrom, oneInstalled, FileTree.at?, FileTree.child?, List.lookup_cons]
  have hbeside : installedManifest (held (oneInstalled upward [("lib", library)]))
      (manifestPath "r" "../lib") = .ok (.obj [("license", .str "MIT")]) := by
    have hresolve : (held (oneInstalled upward [("lib", library)])).resolve
        (manifestPath "r" "../lib") =
          .ok (["lib", "package.json"], .file "\x7b\"license\":\"MIT\"\x7d".toUTF8) := by
      rw [resolve_upward]
      simp [Volume.resolveFrom, oneInstalled, library, FileTree.at?, FileTree.child?,
        List.lookup_cons]
    rw [installedManifest, manifest_read hresolve (by cbv)]
  obtain ⟨a, ha⟩ := (settled (held (oneInstalled upward [])) .builtIn "r").ok_iff.mpr
    (oneInstalled_held upward (.inl rfl)).isDirectory
  have hunknown := upward_dependencies (.inl rfl) ha
  have hknown := upward_dependencies (.inr rfl) (hsame.symm.trans ha)
  rw [manifestPath] at halone hbeside
  unfold installedPackage at hunknown hknown
  rw [halone] at hunknown
  rw [hbeside, hunknown] at hknown
  have hterms : (packageLicense .builtIn "../lib" (.obj [("license", .str "MIT")])).terms.title =
      "MIT" := by decide +kernel
  have htitle := congrArg (List.map fun d => d.terms.title) hknown
  simp only [List.map_cons, List.map_nil, hterms] at htitle
  exact absurd htitle (by decide +kernel)

end Licenses
end RepoAudit
