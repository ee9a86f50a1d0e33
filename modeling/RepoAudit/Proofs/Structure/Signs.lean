import RepoAudit.Proofs.Repository.Troubles
import RepoAudit.Structure.Analysis
import Mathlib

/-!
# Signs of a layout

Every sign that a layout gives is given by single entries: a purpose by the name of a directory, a
part of the documentation by a file or a directory.  So the order of the entries does not matter,
and no entry takes away what another one gives.  Only the way to set a project up may be told by a
readme instead.
-/

namespace RepoAudit.Structure

/-- A flag that each step can only set, is set when it was or when some element sets it. -/
theorem foldl_flag {σ α : Type} {step : σ → α → σ} {sets : α → Bool} (flag : σ → Bool)
    (hstep : ∀ s a, flag (step s a) = (flag s || sets a)) (l : List α) (s : σ) :
    flag (l.foldl step s) = (flag s || l.any sets) := by
  induction l generalizing s with
  | nil => simp
  | cons a l ih => rw [List.foldl_cons, ih, hstep, List.any_cons, Bool.or_assoc]

theorem foldl_count {σ α : Type} {step : σ → α → σ} {counts : α → Bool} (count : σ → Nat)
    (hstep : ∀ s a, count (step s a) = count s + if counts a then 1 else 0) (l : List α) (s : σ) :
    count (l.foldl step s) = count s + l.countP counts := by
  induction l generalizing s with
  | nil => simp
  | cons a l ih =>
      rw [List.foldl_cons, ih, hstep, List.countP_cons]
      omega

/-! ## Organization -/

/-- What a directory can be for. -/
inductive Purpose where
  | tests
  | docs
  | sources
  | config
  | assets

/-- Words in the names of directories for the purpose. -/
def Purpose.words : Purpose → List String
  | tests => ["test", "spec"]
  | docs => ["doc"]
  | sources => ["src", "lib"]
  | config => ["config", "conf"]
  | assets => ["asset", "static", "public", "image"]

namespace Organization

def has (o : Organization) : Purpose → Bool
  | .tests => o.hasTests
  | .docs => o.hasDocs
  | .sources => o.hasSourceDir
  | .config => o.hasConfig
  | .assets => o.hasAssets

variable (o : Organization) (directory : Bool) (e : Walk.Entry)

theorem has_add (p : Purpose) :
    (o.add directory e).has p = (o.has p || (directory && (entryName e).containsAny p.words)) := by
  cases directory <;> cases p <;> simp [add, has, Purpose.words]

theorem totalFiles_add :
    (o.add directory e).totalFiles = o.totalFiles + if !directory then 1 else 0 := by
  cases directory <;> rfl

theorem totalDirectories_add :
    (o.add directory e).totalDirectories = o.totalDirectories + if directory then 1 else 0 := by
  cases directory <;> rfl

theorem maxDepth_add :
    (o.add directory e).maxDepth = if directory then max o.maxDepth (depth e) else o.maxDepth := by
  cases directory <;> rfl

end Organization

section Organization

variable (v : Volume) (scan : Scan)

/-- Some directory has a name for the purpose. -/
theorem has_organization (p : Purpose) :
    (organization v scan).has p = scan.entries.any fun e =>
      v.isDirectory (scan.pathOf e) && (entryName e).containsAny p.words := by
  have hnone : ({} : Organization).has p = false := by cases p <;> rfl
  have hfold := foldl_flag (fun o : Organization => o.has p)
    (fun o e => o.has_add (v.isDirectory (scan.pathOf e)) e p) scan.entries {}
  rwa [hnone, Bool.false_or] at hfold

theorem totalFiles_organization :
    (organization v scan).totalFiles =
      scan.entries.countP fun e => !v.isDirectory (scan.pathOf e) := by
  have hfold := foldl_count Organization.totalFiles
    (fun o e => o.totalFiles_add (v.isDirectory (scan.pathOf e)) e) scan.entries {}
  rwa [Nat.zero_add] at hfold

theorem totalDirectories_organization :
    (organization v scan).totalDirectories =
      scan.entries.countP fun e => v.isDirectory (scan.pathOf e) := by
  have hfold := foldl_count Organization.totalDirectories
    (fun o e => o.totalDirectories_add (v.isDirectory (scan.pathOf e)) e) scan.entries {}
  rwa [Nat.zero_add] at hfold

theorem maxDepth_foldl_le_iff (isDirectory : Walk.Entry → Bool) (entries : List Walk.Entry)
    (o : Organization) (n : Nat) :
    (entries.foldl (fun o e => o.add (isDirectory e) e) o).maxDepth ≤ n ↔
      o.maxDepth ≤ n ∧ ∀ e ∈ entries, isDirectory e = true → depth e ≤ n := by
  induction entries generalizing o with
  | nil => simp
  | cons e entries ih =>
      rw [List.foldl_cons, ih, Organization.maxDepth_add, List.forall_mem_cons]
      cases isDirectory e <;> simp [and_assoc]

/-- The depth is that of the deepest directory. -/
theorem maxDepth_organization_le_iff (n : Nat) :
    (organization v scan).maxDepth ≤ n ↔
      ∀ e ∈ scan.entries, v.isDirectory (scan.pathOf e) = true → depth e ≤ n := by
  rw [organization, maxDepth_foldl_le_iff]
  simp

end Organization

/-! ## Documentation -/

/-- A part of the documentation. -/
inductive Signal where
  | readme
  | apiDocs
  | contributing
  | architecture
  | setupInstructions
  | examples
  deriving DecidableEq

namespace Signal

def all : List Signal :=
  [readme, apiDocs, contributing, architecture, setupInstructions, examples]

def weight : Signal → Nat
  | readme | apiDocs => 20
  | contributing | architecture | setupInstructions | examples => 15

end Signal

namespace Documentation

variable (d d' : Documentation)

def has : Signal → Bool
  | .readme => d.readme
  | .apiDocs => d.apiDocs
  | .contributing => d.contributing
  | .architecture => d.architecture
  | .setupInstructions => d.setupInstructions
  | .examples => d.examples

/-- The score is the sum of the weights of what is there. -/
theorem score_eq : d.score = ((Signal.all.filter d.has).map Signal.weight).sum := by
  have hsum : ∀ l : List Signal, ((l.filter d.has).map Signal.weight).sum =
      (l.map fun s => if d.has s then s.weight else 0).sum := by
    intro l
    induction l with
    | nil => rfl
    | cons s l ih => by_cases hs : d.has s = true <;> simp [hs, ih]
  rw [hsum]
  change d.score = (if d.readme then 20 else 0) + ((if d.apiDocs then 20 else 0) +
    ((if d.contributing then 15 else 0) + ((if d.architecture then 15 else 0) +
      ((if d.setupInstructions then 15 else 0) + ((if d.examples then 15 else 0) + 0)))))
  simp only [score, Nat.add_assoc, Nat.add_zero]

/-- More documentation scores no less. -/
theorem score_mono (h : ∀ s, d.has s = true → d'.has s = true) : d.score ≤ d'.score := by
  rw [score_eq, score_eq]
  exact ((List.monotone_filter_right Signal.all h).map Signal.weight).sum_le_sum fun _ _ =>
    Nat.zero_le _

theorem score_le : d.score ≤ 100 := by
  have hsublist : (Signal.all.filter d.has).Sublist Signal.all := List.filter_sublist
  rw [score_eq]
  exact (hsublist.map Signal.weight).sum_le_sum fun _ _ => Nat.zero_le _

end Documentation

/-- A file of its own that tells how to set the project up. -/
def isSetupFile (e : Walk.Entry) : Bool :=
  ("install".toList.isPrefixOf (entryName e) || "setup".toList.isPrefixOf (entryName e)) &&
    isProse (entryName e)

/-- What an entry tells by its path. -/
def Signal.shownBy (directory : Bool) (e : Walk.Entry) : Signal → Bool
  | .readme => !directory && isReadme e
  | .apiDocs => !directory && (inDocs e && (lowered e.display).contains "api".toList ||
      (entryName e).containsAny ["openapi", "swagger"])
  | .contributing =>
      !directory && (e.names.length == 1 && "contributing".toList.isPrefixOf (entryName e))
  | .architecture => !directory && (entryName e).containsAny ["architecture", "design"]
  | .setupInstructions => !directory && isSetupFile e
  | .examples => directory && exampleDirs.contains (String.ofList (entryName e))

theorem Documentation.has_add (d : Documentation) (directory : Bool) (e : Walk.Entry)
    (s : Signal) : (d.add directory e).has s = (d.has s || s.shownBy directory e) := by
  cases directory <;> cases s <;>
    simp [add, has, Signal.shownBy, isSetupFile, Bool.or_assoc]

section Documentation

variable (v : Volume) (scan : Scan)

theorem has_foldl_add (isDirectory : Walk.Entry → Bool) (entries : List Walk.Entry) (s : Signal) :
    (entries.foldl (fun d e => d.add (isDirectory e) e) ({} : Documentation)).has s =
      entries.any fun e => s.shownBy (isDirectory e) e := by
  have hnone : ({} : Documentation).has s = false := by cases s <;> rfl
  have hfold := foldl_flag (fun d : Documentation => d.has s)
    (fun d e => d.has_add (isDirectory e) e s) entries {}
  rwa [hnone, Bool.false_or] at hfold

/-- The first of the readmes at the root. -/
def firstReadme? : Option Walk.Entry :=
  scan.entries.find? fun e => isReadme e && !v.isDirectory (scan.pathOf e)

/-- The first readme can be read and tells how to set the project up. -/
def readmeTellsSetup : Bool :=
  match firstReadme? v scan with
  | none => false
  | some e =>
      match v.readText (scan.pathOf e) with
      | .ok text => tellsSetup text
      | .error _ => false

theorem Documentation.has_told {d : Documentation} (hnot : d.setupInstructions = false)
    (told : Bool) (s : Signal) :
    ({ d with setupInstructions := told }).has s =
      (d.has s || (s == .setupInstructions && told)) := by
  cases s <;> simp [has, hnot]

/-- The signals are those that entries show by their paths, and what the readme tells. -/
theorem has_documentation (s : Signal) :
    (documentation v scan).1.has s =
      ((scan.entries.any fun e => s.shownBy (v.isDirectory (scan.pathOf e)) e) ||
        (s == .setupInstructions && readmeTellsSetup v scan)) := by
  rw [← has_foldl_add (fun e => v.isDirectory (scan.pathOf e)), documentation]
  generalize scan.entries.foldl (fun d e => d.add (v.isDirectory (scan.pathOf e)) e)
    ({} : Documentation) = d
  dsimp only
  split
  next htold =>
    by_cases hs : s = .setupInstructions
    · simp [hs, Documentation.has, htold]
    · simp [hs]
  next hnot =>
    rw [Bool.not_eq_true] at hnot
    rw [readmeTellsSetup]
    change (match firstReadme? v scan with
      | none => (d, [])
      | some e => _).1.has s = _
    cases firstReadme? v scan with
    | none => simp
    | some e =>
        dsimp only
        cases hread : v.readText (scan.pathOf e) with
        | ok text =>
            rw [readOptional_eq_some_iff.mpr hread]
            exact Documentation.has_told hnot (tellsSetup text) s
        | error error =>
            split
            next text hfound =>
              rw [readOptional_eq_some_iff.mp hfound] at hread
              cases hread
            all_goals simp

end Documentation

/-! ## More entries -/

/-- The second scan, from the same root, found all that the first one did. -/
structure Within (s s' : Scan) : Prop where
  root : s'.root = s.root
  entries : s.entries ⊆ s'.entries
  once : s.entries.Nodup

section More

variable {v : Volume} {s s' : Scan}

theorem Within.pathOf (h : Within s s') (e : Walk.Entry) : s'.pathOf e = s.pathOf e := by
  rw [Scan.pathOf, Scan.pathOf, h.root]

theorem Within.any (h : Within s s') {p : Walk.Entry → Bool} (hp : s.entries.any p = true) :
    s'.entries.any p = true := by
  obtain ⟨e, he, hpe⟩ := List.any_eq_true.mp hp
  exact List.any_eq_true.mpr ⟨e, h.entries he, hpe⟩

theorem Within.countP_le (h : Within s s') (p : Walk.Entry → Bool) :
    s.entries.countP p ≤ s'.entries.countP p :=
  (h.once.subperm h.entries).countP_le p

/-- No purpose is taken back, and no number gets smaller. -/
structure Organization.Le (o o' : Organization) : Prop where
  has : ∀ p, o.has p = true → o'.has p = true
  totalFiles : o.totalFiles ≤ o'.totalFiles
  totalDirectories : o.totalDirectories ≤ o'.totalDirectories
  maxDepth : o.maxDepth ≤ o'.maxDepth

theorem organization_mono (h : Within s s') : (organization v s).Le (organization v s') := by
  have hdirectory : ∀ e, v.isDirectory (s'.pathOf e) = v.isDirectory (s.pathOf e) := by
    intro e
    rw [h.pathOf]
  constructor
  case has =>
    intro p
    simp only [has_organization, hdirectory]
    exact h.any
  case totalFiles =>
    simp only [totalFiles_organization, hdirectory]
    exact h.countP_le _
  case totalDirectories =>
    simp only [totalDirectories_organization, hdirectory]
    exact h.countP_le _
  case maxDepth =>
    rw [maxDepth_organization_le_iff]
    intro e he hdir
    exact (maxDepth_organization_le_iff v s' _).mp le_rfl e (h.entries he) (hdirectory e ▸ hdir)

/-- With the same first readme no signal is taken back. -/
theorem documentation_mono (h : Within s s') (hreadme : firstReadme? v s' = firstReadme? v s)
    (signal : Signal) (hsignal : (documentation v s).1.has signal = true) :
    (documentation v s').1.has signal = true := by
  have htells : readmeTellsSetup v s' = readmeTellsSetup v s := by
    simp only [readmeTellsSetup, hreadme, h.pathOf]
  rw [has_documentation, Bool.or_eq_true] at hsignal ⊢
  simp only [htells, h.pathOf]
  exact hsignal.imp_left h.any

end More

end RepoAudit.Structure
