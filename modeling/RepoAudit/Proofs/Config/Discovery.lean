import RepoAudit.Config.Reader
import RepoAudit.Proofs.FileTree.Lookup
import Mathlib

/-!
# The file that is found

A file with settings is looked for in a directory and in those above it.  One that is malformed is
passed over as if it were not there.  So the settings are those of the nearest well-formed file, and
not always what the nearest file calls for: its own settings, or the defaults when it is malformed.
-/

namespace RepoAudit

namespace Config

/-- Where a file is looked for, the nearest place first. -/
def places (v : Volume) (start : String) : List String :=
  (Path.ancestors (canonicalPath v start) searchDepth).map (Path.join · fileName)

/-- The nearest place at which something is found, well formed or not. -/
def nearest? (v : Volume) (start : String) : Option String :=
  (places v start).find? fun place => (v.resolve place).toBool

/-- The settings when the nearest file alone counts: the defaults stand for a malformed one. -/
def ofNearest (v : Volume) (start : String) : Settings :=
  match nearest? v start with
  | none => {}
  | some place =>
      match v.readText place with
      | .error _ => {}
      | .ok text =>
          match parse text.toList with
          | .error _ => {}
          | .ok settings => settings

/-- The settings that the nearest well-formed file makes. -/
def wellFormed? (v : Volume) (start : String) : Option Settings :=
  (places v start).findSome? (tryRead v)

variable {v : Volume} {start place : String}

theorem tryRead_of_not_found (hplace : (v.resolve place).toBool = false) :
    tryRead v place = none := by
  cases hresolve : v.resolve place with
  | error e => simp [tryRead, Volume.readText, hresolve]
  | ok found => simp [hresolve, Except.toBool] at hplace

theorem discover_eq_wellFormed (v : Volume) (start : String) :
    discover v start = (wellFormed? v start).getD {} := by
  rw [wellFormed?, places, List.findSome?_map]
  rfl

theorem ofNearest_eq (v : Volume) (start : String) :
    ofNearest v start = ((nearest? v start).bind (tryRead v)).getD {} := by
  cases hnearest : nearest? v start with
  | none => simp [ofNearest, hnearest]
  | some place =>
      simp only [ofNearest, hnearest, Option.bind_some, tryRead]
      cases v.readText place with
      | error e => rfl
      | ok text => cases h : parse text.toList <;> simp [h, Except.toOption]

theorem wellFormed?_of_nearest_none (hnone : nearest? v start = none) :
    wellFormed? v start = none := by
  rw [wellFormed?, List.findSome?_eq_none_iff]
  intro place hplace
  have hmissing := List.find?_eq_none.mp hnone place hplace
  exact tryRead_of_not_found (by simpa using hmissing)

/-- No file stands before the nearest one, so a well-formed nearest file is the one that counts. -/
theorem wellFormed?_of_nearest {settings : Settings} (hnearest : nearest? v start = some place)
    (hread : tryRead v place = some settings) : wellFormed? v start = some settings := by
  obtain ⟨-, before, after, hplaces, hbefore⟩ := List.find?_eq_some_iff_append.mp hnearest
  have hmissing : before.findSome? (tryRead v) = none := by
    rw [List.findSome?_eq_none_iff]
    intro other hother
    exact tryRead_of_not_found (by simpa using hbefore other hother)
  rw [wellFormed?, hplaces, List.findSome?_append, hmissing, List.findSome?_cons, hread]
  rfl

/-- The nearest file decides alone, unless it is malformed and the nearest well-formed file further
up makes other settings than the defaults: then those hold.  Files are looked for in the directory
itself and in the nearest ones above it. -/
theorem discover_eq_ofNearest_iff (v : Volume) (start : String) :
    (discover v start = ofNearest v start ↔
      ∀ place, nearest? v start = some place → tryRead v place = none →
        ∀ settings, wellFormed? v start = some settings → settings = {}) ∧
    discover v start = (wellFormed? v start).getD {} ∧
    ∀ names, (∀ name ∈ names, IsSegment name) → "." ∉ names →
      canonicalPath v start = Path.absolute names →
      places v start = (names.inits.reverse.take searchDepth).map fun above =>
        Path.absolute (above ++ [fileName]) := by
  refine ⟨?_, discover_eq_wellFormed v start, ?_⟩
  · rw [discover_eq_wellFormed, ofNearest_eq]
    cases hnearest : nearest? v start with
    | none => simp [wellFormed?_of_nearest_none hnearest]
    | some place =>
        cases hread : tryRead v place with
        | none => cases wellFormed? v start <;> simp [hread]
        | some settings => simp [hread, wellFormed?_of_nearest hnearest hread]
  · intro names hnames hdot hcanonical
    have hfile : IsSegment fileName := by simp [IsSegment, fileName]
    rw [places, hcanonical, Path.ancestors_absolute hnames hdot, List.map_map]
    apply List.map_congr_left
    intro above habove
    have hbelow : above <+: names := by
      simpa using List.mem_of_mem_take habove
    exact Path.join_absolute (fun name hname => hnames name (hbelow.subset hname)) hfile

/-- A malformed file in a directory, below one that is well formed. -/
def malformedBelow : Volume :=
  { name := "/w"
    top := .directory [
      (".reposcope.toml", .file "[issues]\nstale_days = 5\n".toUTF8),
      ("sub", .directory [(".reposcope.toml", .file "[complexity\n".toUTF8)])] }

theorem malformedBelow_places :
    places malformedBelow "/w/sub" =
      ["/w/sub/.reposcope.toml", "/w/.reposcope.toml", "/.reposcope.toml"] := by
  have hcanonical : canonicalPath malformedBelow "/w/sub" = "/w/sub" := by cbv
  rw [places, hcanonical]
  decide +kernel

theorem malformedBelow_near :
    (malformedBelow.resolve "/w/sub/.reposcope.toml").toBool = true ∧
      tryRead malformedBelow "/w/sub/.reposcope.toml" = none := by
  have hstart : malformedBelow.start? "/w/sub/.reposcope.toml" =
      some ([], ["sub", ".reposcope.toml"]) := by decide +kernel
  have hnames : ∀ name ∈ ["sub", ".reposcope.toml"], NamesEntry name := by simp [NamesEntry]
  have hfile : malformedBelow.top.at? ["sub", ".reposcope.toml"] =
      some (.file "[complexity\n".toUTF8) := by
    simp [malformedBelow, FileTree.at?, FileTree.child?, List.lookup_cons]
  have htoml : Toml.ofText "[complexity\n".toList = none := by cbv
  constructor
  · rw [Volume.resolve_of_at? hstart hnames hfile (by simp)]
    rfl
  · rw [tryRead, Volume.readText_of_at? hstart hnames hfile]
    simp only [parse, htoml]
    rfl

theorem malformedBelow_above :
    tryRead malformedBelow "/w/.reposcope.toml" = some { issues := some { staleDays := 5 } } := by
  have hstart : malformedBelow.start? "/w/.reposcope.toml" = some ([], [".reposcope.toml"]) := by
    decide +kernel
  have hfile : malformedBelow.top.at? [".reposcope.toml"] =
      some (.file "[issues]\nstale_days = 5\n".toUTF8) := by
    simp [malformedBelow, FileTree.at?, FileTree.child?]
  have htoml : Toml.ofText "[issues]\nstale_days = 5\n".toList =
      some [("issues", .table .header [("stale_days", .int 5)])] := by cbv
  rw [tryRead, Volume.readText_of_at? hstart (by simp [NamesEntry]) hfile]
  simp only [parse, htoml]
  rfl

/-- A directory with a malformed file gets the settings of the directory above it. -/
theorem malformed_nearest_passed_over :
    ¬ ∀ (v : Volume) (start : String), discover v start = ofNearest v start := by
  intro h
  obtain ⟨hfound, hmalformed⟩ := malformedBelow_near
  have hnearest : nearest? malformedBelow "/w/sub" = some "/w/sub/.reposcope.toml" := by
    rw [nearest?, malformedBelow_places, List.find?_cons, hfound]
  have hwellFormed : wellFormed? malformedBelow "/w/sub" =
      some { issues := some { staleDays := 5 } } := by
    rw [wellFormed?, malformedBelow_places, List.findSome?_cons, hmalformed, List.findSome?_cons,
      malformedBelow_above]
  have heq := h malformedBelow "/w/sub"
  rw [discover_eq_wellFormed, ofNearest_eq, hwellFormed, hnearest, Option.bind_some,
    hmalformed] at heq
  exact absurd (congrArg (fun s => s.issueSettings.staleDays) heq) (by decide)

end Config
end RepoAudit
