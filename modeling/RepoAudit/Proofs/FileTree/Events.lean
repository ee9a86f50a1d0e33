import RepoAudit.FileTree.Walk
import RepoAudit.Proofs.FileTree.Shape
import Mathlib.Data.List.Lex
import Mathlib.Tactic

/-!
# The events of a walk

The events of a directory are those of its entries one after the other, and an induction along the
walk goes from what an opened directory holds to the directory.  With it this file shows where the
events of an entry lie, in which order they come, and which directories were passed on the way.
-/

namespace RepoAudit.Walk

variable {v : Volume} {plan : Plan} {opened : List Open} {here real : Location}
variable {names : List String} {t : FileTree} {entries : List (String × FileTree)}

theorem directoryEvents_eq_flatMap (v : Volume) (plan : Plan) (opened : List Open)
    (here : Location) (names : List String) (entries : List (String × FileTree)) :
    directoryEvents v plan opened here names entries =
      entries.flatMap fun entry =>
        entryEvents v plan opened (here ++ [entry.1]) (names ++ [entry.1]) entry.2 := by
  induction entries with
  | nil => rw [directoryEvents, List.flatMap_nil]
  | cons entry entries ih =>
      obtain ⟨name, t⟩ := entry
      rw [directoryEvents, ih, List.flatMap_cons]

/-- The visit of an opened directory, when directories are wanted. -/
def Plan.ownVisit (plan : Plan) (names : List String) : List Event :=
  if plan.includeDirs then [.visit ⟨names, true⟩] else []

theorem entryEvents_of_pruned (hmeet : plan.meet v opened here names t = .pruned) :
    entryEvents v plan opened here names t = [] := by
  rw [entryEvents]
  split <;> simp_all

theorem entryEvents_of_visited (hmeet : plan.meet v opened here names t = .visited) :
    entryEvents v plan opened here names t = [.visit ⟨names, false⟩] := by
  rw [entryEvents]
  split <;> simp_all

theorem entryEvents_of_failed {warning : Warning}
    (hmeet : plan.meet v opened here names t = .failed warning) :
    entryEvents v plan opened here names t = [.problem names warning] := by
  rw [entryEvents]
  split <;> simp_all

theorem entryEvents_of_entered (hmeet : plan.meet v opened here names t = .entered real entries) :
    entryEvents v plan opened here names t =
      plan.ownVisit names ++
        directoryEvents v plan ((real, pathOf plan.root names) :: opened) real names entries := by
  rw [entryEvents]
  split <;> simp_all [Plan.ownVisit]

/-- What holds of an entry when it holds of all that the directory behind it contains, holds of
every entry. -/
@[elab_as_elim]
theorem entry_induction (v : Volume) (plan : Plan)
    {motive : List Open → Location → List String → FileTree → Prop}
    (step : ∀ opened here names t,
      (∀ real entries, plan.meet v opened here names t = .entered real entries →
        ∀ entry ∈ entries,
          motive ((real, pathOf plan.root names) :: opened) (real ++ [entry.1])
            (names ++ [entry.1]) entry.2) →
      motive opened here names t)
    (opened : List Open) (here : Location) (names : List String) (t : FileTree) :
    motive opened here names t := by
  apply step
  intro real entries hmeet entry hentry
  exact entry_induction v plan step _ _ _ _
  termination_by (unopened v opened, sizeOf t)
  decreasing_by
    have hsize : sizeOf entry.2 < sizeOf entries := by
      have hmem := List.sizeOf_lt_of_mem hentry
      have hpair : sizeOf entry = 1 + sizeOf entry.1 + sizeOf entry.2 := by
        obtain ⟨name, sub⟩ := entry
        rfl
      omega
    rcases (Prod.lex_def.mp (Plan.entered_decreasing hmeet)) with hlt | ⟨heq, hlt⟩
    · exact .left _ _ hlt
    · simp only at heq
      rw [heq]
      exact .right _ (hsize.trans hlt)

theorem mem_directoryEvents {e : Event} :
    e ∈ directoryEvents v plan opened here names entries ↔
      ∃ entry ∈ entries,
        e ∈ entryEvents v plan opened (here ++ [entry.1]) (names ++ [entry.1]) entry.2 := by
  rw [directoryEvents_eq_flatMap, List.mem_flatMap]

theorem Plan.mem_ownVisit {e : Event} (he : e ∈ plan.ownVisit names) :
    plan.includeDirs ∧ e = .visit ⟨names, true⟩ := by
  unfold ownVisit at he
  split at he
  next hdirs => exact ⟨hdirs, by simpa using he⟩
  next => simp at he

/-- What the events of an entry are, by what became of it. -/
theorem mem_entryEvents {e : Event} :
    e ∈ entryEvents v plan opened here names t ↔
      (plan.meet v opened here names t = .visited ∧ e = .visit ⟨names, false⟩) ∨
      (∃ warning, plan.meet v opened here names t = .failed warning ∧
        e = .problem names warning) ∨
      ∃ real entries, plan.meet v opened here names t = .entered real entries ∧
        (e ∈ plan.ownVisit names ∨
          e ∈ directoryEvents v plan ((real, pathOf plan.root names) :: opened) real names
            entries) := by
  cases hmeet : plan.meet v opened here names t with
  | pruned => simp [entryEvents_of_pruned hmeet]
  | visited => simp [entryEvents_of_visited hmeet]
  | failed warning => simp [entryEvents_of_failed hmeet]
  | entered real entries => simp [entryEvents_of_entered hmeet]

/-! ## Where events lie -/

/-- An event of an entry is about the entry or about something below it. -/
theorem prefix_of_mem_entryEvents {e : Event}
    (he : e ∈ entryEvents v plan opened here names t) : names <+: e.names := by
  induction opened, here, names, t using entry_induction v plan with
  | step opened here names t ih =>
      rcases mem_entryEvents.mp he with ⟨_, rfl⟩ | ⟨warning, _, rfl⟩ | ⟨real, entries, hmeet, he⟩
      · exact List.prefix_rfl
      · exact List.prefix_rfl
      · rcases he with hown | hbelow
        · obtain ⟨_, rfl⟩ := Plan.mem_ownVisit hown
          exact List.prefix_rfl
        · obtain ⟨entry, hentry, he⟩ := mem_directoryEvents.mp hbelow
          exact (List.prefix_append _ _).trans (ih real entries hmeet entry hentry he)

/-- An event of an opened directory is about something below the directory. -/
theorem prefix_of_mem_directoryEvents {e : Event}
    (he : e ∈ directoryEvents v plan opened here names entries) :
    ∃ entry ∈ entries, names ++ [entry.1] <+: e.names := by
  obtain ⟨entry, hentry, he⟩ := mem_directoryEvents.mp he
  exact ⟨entry, hentry, prefix_of_mem_entryEvents he⟩

/-- What stands behind an opened directory is well-formed when the volume is. -/
theorem wellFormed_of_entered (hv : v.top.WellFormed) (ht : t.WellFormed)
    (hmeet : plan.meet v opened here names t = .entered real entries) :
    (FileTree.directory entries).WellFormed := by
  obtain ⟨_, ⟨rfl, _⟩ | ⟨_, _, hresolve, _⟩⟩ := Plan.entered_cases hmeet
  · exact ht
  · exact hv.at? (Volume.at?_of_resolve hresolve)

theorem segments_of_mem_entryEvents (hv : v.top.WellFormed) (ht : t.WellFormed)
    (hnames : ∀ name ∈ names, IsSegment name) {e : Event}
    (he : e ∈ entryEvents v plan opened here names t) : ∀ name ∈ e.names, IsSegment name := by
  induction opened, here, names, t using entry_induction v plan with
  | step opened here names t ih =>
      rcases mem_entryEvents.mp he with ⟨_, rfl⟩ | ⟨warning, _, rfl⟩ | ⟨real, entries, hmeet, he⟩
      · exact hnames
      · exact hnames
      · rcases he with hown | hbelow
        · obtain ⟨_, rfl⟩ := Plan.mem_ownVisit hown
          exact hnames
        · obtain ⟨entry, hentry, he⟩ := mem_directoryEvents.mp hbelow
          cases wellFormed_of_entered hv ht hmeet with
          | directory sorted segments below =>
              refine ih real entries hmeet entry hentry (below entry hentry) ?_ he
              intro name hname
              rcases List.mem_append.mp hname with hold | hnew
              · exact hnames name hold
              · obtain rfl : name = entry.1 := by simpa using hnew
                exact segments entry hentry

/-! ## The order of events -/

/-- Component by component in the order of their bytes, and a directory before what it holds. -/
def PathBefore (a b : List String) : Prop :=
  List.Lex (fun x y => nameBytes x < nameBytes y) a b

theorem PathBefore.not_below {a b : List String} (hbefore : PathBefore a b) : ¬ b <+: a := by
  rintro ⟨rest, rfl⟩
  induction b with
  | nil => cases hbefore
  | cons name b ih =>
      cases hbefore with
      | rel hlt => exact List.lt_irrefl _ hlt
      | cons htail => exact ih htail

theorem PathBefore.asymm {a b : List String} (hbefore : PathBefore a b) : ¬ PathBefore b a := by
  have hnames : Std.Asymm fun x y : String => nameBytes x < nameBytes y :=
    ⟨fun _ _ h => List.lt_asymm h⟩
  exact (List.Lex.asymm _).asymm _ _ hbefore

theorem PathBefore.of_append (names : List String) (name : String) (rest : List String) :
    PathBefore names (names ++ name :: rest) := by
  simpa [PathBefore] using List.Lex.append_left _ List.Lex.nil names

theorem PathBefore.of_below {names below : List String} {name : String}
    (hlead : names ++ [name] <+: below) : PathBefore names below := by
  obtain ⟨rest, rfl⟩ := hlead
  simpa using PathBefore.of_append names name rest

theorem PathBefore.of_siblings {names a b : List String} {x y : String} (hlt : x < y)
    (ha : names ++ [x] <+: a) (hb : names ++ [y] <+: b) : PathBefore a b := by
  obtain ⟨resta, rfl⟩ := ha
  obtain ⟨restb, rfl⟩ := hb
  have hhead : PathBefore (x :: resta) (y :: restb) := .rel (nameBytes_lt_iff.mpr hlt)
  simpa [PathBefore] using List.Lex.append_left _ hhead names

theorem directoryEvents_sorted
    (hsorted : entries.Pairwise fun a b => a.1 < b.1)
    (hbelow : ∀ entry ∈ entries,
      (entryEvents v plan opened (here ++ [entry.1]) (names ++ [entry.1]) entry.2).Pairwise
        fun a b => PathBefore a.names b.names) :
    (directoryEvents v plan opened here names entries).Pairwise
      fun a b => PathBefore a.names b.names := by
  rw [directoryEvents_eq_flatMap, List.pairwise_flatMap]
  refine ⟨hbelow, hsorted.imp ?_⟩
  intro first second hlt a ha b hb
  exact .of_siblings hlt (prefix_of_mem_entryEvents ha) (prefix_of_mem_entryEvents hb)

/-- The events of an entry come in the order of their paths, so no two are about one path. -/
theorem entryEvents_sorted (hv : v.top.WellFormed) (ht : t.WellFormed) :
    (entryEvents v plan opened here names t).Pairwise
      fun a b => PathBefore a.names b.names := by
  induction opened, here, names, t using entry_induction v plan with
  | step opened here names t ih =>
      cases hmeet : plan.meet v opened here names t with
      | pruned => simp [entryEvents_of_pruned hmeet]
      | visited => simp [entryEvents_of_visited hmeet]
      | failed warning => simp [entryEvents_of_failed hmeet]
      | entered real entries =>
          rw [entryEvents_of_entered hmeet, List.pairwise_append]
          refine ⟨?_, ?_, ?_⟩
          · unfold Plan.ownVisit
            split <;> simp
          · cases wellFormed_of_entered hv ht hmeet with
            | directory sorted segments below =>
                exact directoryEvents_sorted sorted fun entry hentry =>
                  ih real entries hmeet entry hentry (below entry hentry)
          · intro own hown e he
            obtain ⟨_, rfl⟩ := Plan.mem_ownVisit hown
            obtain ⟨entry, _, hlead⟩ := prefix_of_mem_directoryEvents he
            exact .of_below hlead

/-! ## What was passed on the way -/

/-- Every directory between an entry and an event of it was opened, so none is left out. -/
theorem not_prunes_of_mem_entryEvents {e : Event}
    (he : e ∈ entryEvents v plan opened here names t) {above : List String}
    (hfrom : names <+: above) (hto : above <+: e.names) (hproper : above ≠ e.names) :
    plan.prunes above true = false := by
  induction opened, here, names, t using entry_induction v plan with
  | step opened here names t ih =>
      have hown : e.names = names → plan.prunes above true = false := by
        intro heq
        rw [heq] at hto hproper
        exact absurd (hto.eq_of_length (le_antisymm hto.length_le hfrom.length_le)) hproper
      rcases mem_entryEvents.mp he with ⟨_, rfl⟩ | ⟨warning, _, rfl⟩ | ⟨real, entries, hmeet, he⟩
      · exact hown rfl
      · exact hown rfl
      · rcases he with hvisit | hbelow
        · obtain ⟨_, rfl⟩ := Plan.mem_ownVisit hvisit
          exact hown rfl
        · obtain ⟨entry, hentry, he⟩ := mem_directoryEvents.mp hbelow
          by_cases heq : above = names
          · rw [heq]
            exact (Plan.entered_cases hmeet).1
          · have hlength : names.length < above.length := by
              rcases Nat.lt_or_ge names.length above.length with hlt | hge
              · exact hlt
              · exact absurd (hfrom.eq_of_length (le_antisymm hfrom.length_le hge)).symm heq
            have hnext : names ++ [entry.1] <+: above :=
              List.prefix_of_prefix_length_le (prefix_of_mem_entryEvents he) hto (by simpa)
            exact ih real entries hmeet entry hentry he hnext

end RepoAudit.Walk
