import RepoAudit.Licenses.Analysis
import RepoAudit.Proofs.Repository.Troubles

/-!
# Troubles with licenses

A license analysis reads the license file, the root manifest and the manifests of the installed
packages.  A package that is named and not installed is trouble as well.
-/

namespace RepoAudit.Licenses

variable {v : Volume} {table : LicenseTable} {repo path : String} {w : Warning}

/-- The manifest of an installed package cannot be used. -/
inductive UnusableManifest (v : Volume) (path : String) (w : Warning) : Prop
  | unread (h : UnreadFile v "licenses" path w)
  | malformed (h : MalformedFile v "licenses" path w)
  | missing (hread : v.readText path = .error (.system .notFound))
      (hw : w = { source := "licenses", path := some path
                  message := "package manifest not found" })

/-- The file at the path is there and is this JSON value. -/
def ManifestAt (v : Volume) (path : String) (manifest : Json) : Prop :=
  ∃ text, v.readText path = .ok text ∧ Json.ofText text.toList = .ok manifest

/-! ## Manifests -/

theorem readManifestAt_eq_error_iff :
    readManifestAt v path = .error w ↔
      UnreadFile v "licenses" path w ∨ MalformedFile v "licenses" path w := by
  have htext : ∀ text, readOptional v "licenses" path = .ok (some text) ↔
      v.readText path = .ok text := fun _ => readOptional_eq_some_iff
  rw [MalformedFile, ← readOptional_eq_error_iff]
  simp only [← htext]
  unfold readManifestAt
  cases readOptional v "licenses" path with
  | error other => simp
  | ok found =>
      cases found with
      | none => simp
      | some text => cases hjson : Json.ofText text.toList <;> simp [hjson, eq_comm]

theorem readManifestAt_eq_none_iff :
    readManifestAt v path = .ok none ↔ v.readText path = .error (.system .notFound) := by
  have hnone : readOptional v "licenses" path = .ok none ↔ _ := readOptional_eq_none_iff
  rw [← hnone]
  unfold readManifestAt
  cases readOptional v "licenses" path with
  | error other => simp
  | ok found =>
      cases found with
      | none => simp
      | some text => cases hjson : Json.ofText text.toList <;> simp [hjson]

theorem readManifestAt_eq_some_iff {manifest : Json} :
    readManifestAt v path = .ok (some manifest) ↔ ManifestAt v path manifest := by
  have htext : ∀ text, readOptional v "licenses" path = .ok (some text) ↔
      v.readText path = .ok text := fun _ => readOptional_eq_some_iff
  rw [ManifestAt]
  simp only [← htext]
  unfold readManifestAt
  cases readOptional v "licenses" path with
  | error other => simp
  | ok found =>
      cases found with
      | none => simp
      | some text => cases hjson : Json.ofText text.toList <;> simp [hjson]

theorem installedManifest_eq_error_iff :
    installedManifest v path = .error w ↔ UnusableManifest v path w := by
  have hunusable : UnusableManifest v path w ↔ readManifestAt v path = .error w ∨
      readManifestAt v path = .ok none ∧
        w = { source := "licenses", path := some path
              message := "package manifest not found" } := by
    rw [readManifestAt_eq_error_iff, readManifestAt_eq_none_iff]
    constructor
    · rintro (h | h | ⟨hread, hw⟩)
      · exact .inl (.inl h)
      · exact .inl (.inr h)
      · exact .inr ⟨hread, hw⟩
    · rintro ((h | h) | ⟨hread, hw⟩)
      · exact .unread h
      · exact .malformed h
      · exact .missing hread hw
  rw [hunusable]
  unfold installedManifest
  cases readManifestAt v path with
  | error other => simp
  | ok found => cases found <;> simp [eq_comm]

/-! ## The parts of the analysis -/

theorem mem_projectTerms_warnings {file : Option String} :
    w ∈ (projectTerms table v repo file).2 ↔
      ∃ name, file = some name ∧ UnreadFile v "licenses" (Path.join repo name) w := by
  unfold projectTerms
  cases file with
  | none => simp
  | some name =>
      refine mem_optional_warnings.trans ?_
      simp

theorem mem_installedPackage_warnings {modules name : String} :
    w ∈ (installedPackage table v modules name).2 ↔
      UnusableManifest v (Path.join (Path.join modules name) "package.json") w := by
  rw [← installedManifest_eq_error_iff]
  unfold installedPackage
  cases installedManifest v (Path.join (Path.join modules name) "package.json") <;> simp [eq_comm]

/-- What a license analysis comes up against. -/
inductive Trouble (v : Volume) (repo : String) (w : Warning) : Prop
  | licenseFile {name : String} (hfile : licenseFile? v repo = .ok (some name))
      (h : UnreadFile v "licenses" (Path.join repo name) w)
  | unread (h : UnreadFile v "licenses" (Path.join repo "package.json") w)
  | malformed (h : MalformedFile v "licenses" (Path.join repo "package.json") w)
  | notInstalled {manifest : Json}
      (hmanifest : ManifestAt v (Path.join repo "package.json") manifest)
      (hnames : packageNames manifest ≠ [])
      (hmodules : v.isDirectory (Path.join repo "node_modules") = false)
      (hw : w = { source := "licenses", path := some (Path.join repo "node_modules")
                  message :=
                    "node_modules not found; install dependencies to check their licenses" })
  | package {manifest : Json} {name : String}
      (hmanifest : ManifestAt v (Path.join repo "package.json") manifest)
      (hname : name ∈ packageNames manifest)
      (hmodules : v.isDirectory (Path.join repo "node_modules") = true)
      (h : UnusableManifest v
        (Path.join (Path.join (Path.join repo "node_modules") name) "package.json") w)

theorem mem_installedPackages_warnings :
    w ∈ (installedPackages table v repo).2 ↔
      UnreadFile v "licenses" (Path.join repo "package.json") w ∨
      MalformedFile v "licenses" (Path.join repo "package.json") w ∨
      ∃ manifest, ManifestAt v (Path.join repo "package.json") manifest ∧
        ((packageNames manifest ≠ [] ∧ v.isDirectory (Path.join repo "node_modules") = false ∧
          w = { source := "licenses", path := some (Path.join repo "node_modules")
                message :=
                  "node_modules not found; install dependencies to check their licenses" }) ∨
        (v.isDirectory (Path.join repo "node_modules") = true ∧ ∃ name ∈ packageNames manifest,
          UnusableManifest v
            (Path.join (Path.join (Path.join repo "node_modules") name) "package.json") w)) := by
  rw [← or_assoc, ← readManifestAt_eq_error_iff]
  simp only [← readManifestAt_eq_some_iff]
  unfold installedPackages
  cases readManifestAt v (Path.join repo "package.json") with
  | error other =>
      simp only [List.mem_singleton, Except.error.injEq, reduceCtorEq, false_and, exists_false,
        or_false]
      exact eq_comm
  | ok found =>
      cases found with
      | none => simp
      | some manifest =>
          simp only [reduceCtorEq, false_or, Except.ok.injEq, Option.some.injEq, exists_eq_left']
          cases hnames : packageNames manifest with
          | nil => simp
          | cons name names =>
              cases hmodules : v.isDirectory (Path.join repo "node_modules") with
              | false => simp
              | true => simp [mem_installedPackage_warnings]

theorem exists_licenseFile? (h : v.isDirectory repo = true) :
    ∃ file, licenseFile? v repo = .ok file := by
  rw [Volume.isDirectory] at h
  rw [licenseFile?, Volume.entryNames]
  split at h
  next place t hresolve =>
    cases t with
    | directory entries =>
        rw [hresolve]
        exact ⟨_, rfl⟩
    | _ => cases h
  next => cases h

/-- A license analysis settles, with a warning for every trouble. -/
theorem settled (v : Volume) (table : LicenseTable) (repo : String) :
    SettledBy v repo (Trouble v repo) (analyze v table repo) := by
  refine .of_ensure fun hdirectory => ?_
  obtain ⟨file, hfile⟩ := exists_licenseFile? hdirectory
  rw [hfile]
  refine ⟨_, rfl, fun w => ?_⟩
  change w ∈ (projectTerms table v repo file).2 ++ (installedPackages table v repo).2 ↔ _
  rw [List.mem_append, mem_projectTerms_warnings, mem_installedPackages_warnings]
  constructor
  · rintro (⟨name, rfl, h⟩ | h | h | ⟨manifest, hmanifest, h | ⟨hmodules, name, hname, h⟩⟩)
    · exact .licenseFile hfile h
    · exact .unread h
    · exact .malformed h
    · exact .notInstalled hmanifest h.1 h.2.1 h.2.2
    · exact .package hmanifest hname hmodules h
  · intro h
    cases h with
    | licenseFile hfile' h => exact .inl ⟨_, Except.ok.inj (hfile.symm.trans hfile'), h⟩
    | unread h => exact .inr (.inl h)
    | malformed h => exact .inr (.inr (.inl h))
    | notInstalled hmanifest hnames hmodules hw =>
        exact .inr (.inr (.inr ⟨_, hmanifest, .inl ⟨hnames, hmodules, hw⟩⟩))
    | package hmanifest hname hmodules h =>
        exact .inr (.inr (.inr ⟨_, hmanifest, .inr ⟨hmodules, _, hname, h⟩⟩))

end RepoAudit.Licenses
