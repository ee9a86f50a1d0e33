import RepoAudit.Assessment
import RepoAudit.Proofs.Config.Accepted
import RepoAudit.Proofs.FileTree.Visits
import RepoAudit.Repository

/-!
# What stops an analysis and what does not

An analysis fails when it cannot get at the directory it is about.  With accepted settings nothing
else stops it: a file that cannot be read, or is not what it should be, is a warning in the result.
-/

namespace RepoAudit

variable {v : Volume} {path source : String} {w : Warning} {ρ σ : Type}

/-! ## Single files -/

/-- The file at the path is there and cannot be read. -/
def UnreadFile (v : Volume) (source path : String) (w : Warning) : Prop :=
  ∃ e, v.readText path = .error e ∧ e ≠ .system .notFound ∧
    w = { source, path := some path, message := e.message }

/-- The file at the path can be read and is not JSON. -/
def MalformedFile (v : Volume) (source path : String) (w : Warning) : Prop :=
  ∃ text fault, v.readText path = .ok text ∧ Json.ofText text.toList = .error fault ∧
    w = { source, path := some path, message := fault.message text.toList }

theorem readOptional_eq_error_iff :
    readOptional v source path = .error w ↔ UnreadFile v source path w := by
  rw [readOptional.eq_def, UnreadFile]
  split
  next text hread => simp [hread]
  next hread => simp [hread]
  next e hfound hread =>
    have hne : e ≠ .system .notFound := hfound
    simp [hread, hne, eq_comm]

theorem readOptional_eq_none_iff :
    readOptional v source path = .ok none ↔ v.readText path = .error (.system .notFound) := by
  rw [readOptional.eq_def]
  split
  next text hread => simp [hread]
  next hread => simp [hread]
  next e hfound hread =>
    have hne : e ≠ .system .notFound := hfound
    simp [hread, hne]

theorem readOptional_eq_some_iff {text : String} :
    readOptional v source path = .ok (some text) ↔ v.readText path = .ok text := by
  rw [readOptional.eq_def]
  split
  next text hread => simp [hread]
  next hread => simp [hread]
  next e hfound hread => simp [hread]

/-- Looking into a file that need not be there warns when it cannot be read, and of what is found in
its text. -/
theorem mem_optional_warnings {β : Type} {look : String → β × List Warning} {absent failed : β} :
    w ∈ (match readOptional v source path with
      | .ok (some text) => look text
      | .ok none => (absent, [])
      | .error w => (failed, [w])).2 ↔
      UnreadFile v source path w ∨ ∃ text, v.readText path = .ok text ∧ w ∈ (look text).2 := by
  have htext : ∀ text, readOptional v source path = .ok (some text) ↔
      v.readText path = .ok text := fun _ => readOptional_eq_some_iff
  simp only [← readOptional_eq_error_iff, ← htext]
  cases readOptional v source path with
  | error other => simp [eq_comm]
  | ok found => cases found <;> simp

theorem exists_text_iff_malformedFile (source : String) {warnings : String → List Warning}
    (hwarnings : ∀ text, w ∈ warnings text ↔ ∃ fault, Json.ofText text.toList = .error fault ∧
      w = { source, path := some path, message := fault.message text.toList }) :
    (∃ text, v.readText path = .ok text ∧ w ∈ warnings text) ↔ MalformedFile v source path w := by
  rw [MalformedFile]
  refine exists_congr fun text => ?_
  rw [exists_and_left, hwarnings]

/-! ## Walks -/

/-- What a walk and the files it selects come up against. -/
inductive SourceTrouble (v : Volume) (path : String) (walk : WalkSettings) (includeDirs : Bool)
    (source : String) (selected : Walk.Entry → Bool) (w : Warning) : Prop
  | onTheWay {plan : Walk.Plan} {names : List String}
      (hplan : Walk.Plan.ofSettings path walk includeDirs = .ok plan)
      (hevent : .problem names w ∈ plan.events v)
  | unread {plan : Walk.Plan} {e : Walk.Entry} {error : ReadError}
      (hplan : Walk.Plan.ofSettings path walk includeDirs = .ok plan)
      (hevent : .visit e ∈ plan.events v)
      (hfile : v.isFile (Walk.pathOf path e.names) = true)
      (hselected : selected e = true)
      (hread : v.readText (Walk.pathOf path e.names) = .error error)
      (hw : w = { source, path := some (Walk.pathOf path e.names), message := error.message })

variable {walk : WalkSettings} {includeDirs : Bool} {plan : Walk.Plan} {events : List Walk.Event}
  {selected : Walk.Entry → Bool}

theorem mem_scan_warnings : w ∈ (Scan.ofEvents path events).warnings ↔
    ∃ names, .problem names w ∈ events := by
  simp only [Scan.ofEvents, List.mem_filterMap]
  constructor
  · rintro ⟨event, hevent, hw⟩
    cases event with
    | visit e => cases hw
    | problem names other => exact ⟨names, Option.some.inj hw ▸ hevent⟩
  · rintro ⟨names, hevent⟩
    exact ⟨_, hevent, rfl⟩

theorem mem_readSources_warnings {scan : Scan} {entries : List Walk.Entry} :
    w ∈ (readSources v source scan entries).2 ↔
      ∃ e ∈ entries, ∃ error, v.readText (scan.pathOf e) = .error error ∧
        w = { source, path := some (scan.pathOf e), message := error.message } := by
  simp only [readSources, List.filterMap_map, List.mem_filterMap, Function.comp_def, readSource]
  refine exists_congr fun e => and_congr_right fun _ => ?_
  cases v.readText (scan.pathOf e) <;> simp [Except.mapError, eq_comm]

/-- The warnings of a walk over accepted settings. -/
theorem mem_scan_or_unread_iff (hplan : Walk.Plan.ofSettings path walk includeDirs = .ok plan) :
    w ∈ (Scan.ofEvents path (plan.events v)).warnings ++
        (readSources v source (Scan.ofEvents path (plan.events v))
          (((Scan.ofEvents path (plan.events v)).files v).filter selected)).2 ↔
      SourceTrouble v path walk includeDirs source selected w := by
  rw [List.mem_append, mem_scan_warnings, mem_readSources_warnings]
  constructor
  · rintro (⟨names, hevent⟩ | ⟨e, he, error, hread, hw⟩)
    · exact .onTheWay hplan hevent
    · rw [List.mem_filter, Scan.files, List.mem_filter, Walk.mem_scan_entries] at he
      exact .unread hplan he.1.1 he.1.2 he.2 hread hw
  · intro h
    cases h with
    | onTheWay hplan' hevent =>
        obtain rfl := Except.ok.inj (hplan.symm.trans hplan')
        exact .inl ⟨_, hevent⟩
    | unread hplan' hevent hfile hselected hread hw =>
        obtain rfl := Except.ok.inj (hplan.symm.trans hplan')
        refine .inr ⟨_, ?_, _, hread, hw⟩
        rw [List.mem_filter, Scan.files, List.mem_filter, Walk.mem_scan_entries]
        exact ⟨⟨hevent, hfile⟩, hselected⟩

/-! ## Accepted patterns -/

/-- The result is there exactly when the path leads to a directory, its warnings are the troubles,
and any failure is one to get at the directory. -/
structure SettledBy (v : Volume) (path : String) (troubles : Warning → Prop)
    (result : Except Failure (Assessment ρ)) : Prop where
  ok_iff : (∃ a, result = .ok a) ↔ v.isDirectory path = true
  failure : ∀ f, result = .error f →
    (∃ e, v.resolve path = .error e ∧ f = .unreadable path (.system e)) ∨
      (∃ found, v.resolve path = .ok found) ∧ f = .notARepository path
  warnings : ∀ a, result = .ok a → ∀ w, w ∈ a.warnings ↔ troubles w

theorem ensureRepository_eq_ok_iff :
    ensureRepository v path = .ok () ↔ v.isDirectory path = true := by
  rw [ensureRepository, Volume.isDirectory]
  cases v.resolve path with
  | error e => simp
  | ok found => simp

theorem ensureRepository_eq_error {f : Failure} (h : ensureRepository v path = .error f) :
    (∃ e, v.resolve path = .error e ∧ f = .unreadable path (.system e)) ∨
      (∃ found, v.resolve path = .ok found) ∧ f = .notARepository path := by
  rw [ensureRepository] at h
  split at h
  next e hresolve => exact .inl ⟨e, hresolve, (Except.error.inj h).symm⟩
  next found t hresolve =>
    split at h
    · cases h
    · exact .inr ⟨⟨_, hresolve⟩, (Except.error.inj h).symm⟩

/-- Once the directory is there, an analysis that goes through settles. -/
theorem SettledBy.of_ensure {troubles : Warning → Prop} {rest : Except Failure (Assessment ρ)}
    (hrest : v.isDirectory path = true →
      ∃ a, rest = .ok a ∧ ∀ w, w ∈ a.warnings ↔ troubles w) :
    SettledBy v path troubles (ensureRepository v path >>= fun _ => rest) := by
  cases hensure : ensureRepository v path with
  | error f =>
      have hnot : ¬ v.isDirectory path = true := fun h => by
        simp [ensureRepository_eq_ok_iff.mpr h] at hensure
      exact {
        ok_iff := ⟨fun ⟨_, h⟩ => (by cases h), fun h => absurd h hnot⟩
        failure := fun _ h => Except.error.inj h ▸ ensureRepository_eq_error hensure
        warnings := fun _ h => by cases h }
  | ok =>
      have hdirectory := ensureRepository_eq_ok_iff.mp hensure
      obtain ⟨a, rfl, hwarnings⟩ := hrest hdirectory
      exact {
        ok_iff := ⟨fun _ => hdirectory, fun _ => ⟨a, rfl⟩⟩
        failure := fun _ h => by cases h
        warnings := fun _ h => Except.ok.inj h ▸ hwarnings }

theorem SettledBy.map {troubles : Warning → Prop} {result : Except Failure (Assessment ρ)}
    (h : SettledBy v path troubles result) (f : ρ → σ) :
    SettledBy v path troubles (result.map (·.map f)) := by
  cases result with
  | error failure =>
      exact {
        ok_iff := ⟨fun ⟨_, h⟩ => (by cases h), fun hd => absurd (h.ok_iff.mpr hd) (by simp)⟩
        failure := fun _ hf => h.failure _ (by rw [← Except.error.inj hf])
        warnings := fun _ h => by cases h }
  | ok a =>
      exact {
        ok_iff := ⟨fun _ => h.ok_iff.mp ⟨a, rfl⟩, fun _ => ⟨_, rfl⟩⟩
        failure := fun _ h => by cases h
        warnings := fun _ ha => Except.ok.inj ha ▸ h.warnings a rfl }

/-- An analysis of what a walk finds settles. -/
theorem SettledBy.of_scan {troubles : Warning → Prop} {rest : Scan → Except Failure (Assessment ρ)}
    (hplan : Walk.Plan.ofSettings path walk includeDirs = .ok plan)
    (hrest : ∃ a, rest (Scan.ofEvents path (plan.events v)) = .ok a ∧
      ∀ w, w ∈ a.warnings ↔ troubles w) :
    SettledBy v path troubles (scanRepository v path walk includeDirs >>= rest) := by
  have hscan : scanRepository v path walk includeDirs >>= rest =
      ensureRepository v path >>= fun _ => rest (Scan.ofEvents path (plan.events v)) := by
    rw [scanRepository, hplan]
    cases ensureRepository v path <;> rfl
  rw [hscan]
  exact .of_ensure fun _ => hrest

end RepoAudit
