import RepoAudit.Proofs.Tally
import RepoAudit.Proofs.Coverage.Sections

/-!
# Line totals and the coverage of a pull request

Whatever the order of the records, each file is left with the totals of its sections, and the lines
outside of sections are left out.  A pull request of which every file ends at most one path of the
report is covered as far as the lines of its files are.  A report is read as a whole or not at all.
-/

namespace RepoAudit.Coverage

/-- At most one file of the report has a path that ends with the one of the changed file. -/
def MatchesOnce (records : List Record) (f : ChangedFile) : Prop :=
  ∀ file ∈ reportedFiles records, ∀ other ∈ reportedFiles records,
    components f.filename <:+ file → components f.filename <:+ other → file = other

/-- The lines in the sections of the files that match the changed ones. -/
def changedLines (records : List Record) (pull : PullRequest) : List (Nat × Nat) :=
  pull.files.flatMap fun f => linesIn (components f.filename).isSuffixOf records

/-- The share of lines that are hit in percent. -/
def Tally.percent (t : Tally) : Float :=
  round1 (t.hit.toFloat / t.found.toFloat * 100)

/-- A line of a report is read as a record. -/
def Reads (t : Text) (r : Record) : Prop :=
  Record.ofLine (stripLineEnd t) = .ok r

variable {records : List Record} {lines : List Text}

/-! ## Stray lines -/

theorem step_line_of_closed {p : Progress} (number count : Nat) (hclosed : p.current = none) :
    p.step (.line number count) = p := by
  unfold Progress.step
  rw [hclosed]

theorem collect_stray {before : List Record} (number count : Nat) (after : List Record)
    (hclosed : openFile before = none) :
    collect (before ++ .line number count :: after) = collect (before ++ after) := by
  unfold collect
  rw [List.foldl_append, List.foldl_append, List.foldl_cons, step_line_of_closed]
  rw [(describes_foldl before).current, hclosed]

/-! ## The files of a pull request -/

theorem find?_eq (tallies : Tallies) (name : String) : tallies.find? name =
    (List.find? (fun entry => (components name).isSuffixOf entry.1) tallies).map Prod.snd := by
  rfl

theorem find?_collect {f : ChangedFile} (honce : MatchesOnce records f) :
    ((collect records).find? f.filename).getD {} =
      .ofLines (linesIn (components f.filename).isSuffixOf records) := by
  rw [find?_eq]
  cases hfind : List.find? (fun entry => (components f.filename).isSuffixOf entry.1)
      (collect records) with
  | none =>
      have hnone : linesIn (components f.filename).isSuffixOf records = [] := by
        apply linesIn_eq_nil
        intro file hfile
        have hstored : (collect records).lookup file =
            some (.ofLines (linesIn (· == file) records)) := by
          rw [lookup_collect, tally?, if_pos hfile]
        obtain ⟨before, after, hentries, -⟩ := List.lookup_eq_some_iff.mp hstored
        have hentry : (file, .ofLines (linesIn (· == file) records)) ∈ collect records := by
          rw [hentries]
          exact List.mem_append_right _ (List.mem_cons_self ..)
        exact Bool.eq_false_iff.mpr (List.find?_eq_none.mp hfind _ hentry)
      rw [hnone]
      rfl
  | some entry =>
      obtain ⟨file, t⟩ := entry
      have hends : components f.filename <:+ file := by
        have hholds := List.find?_some hfind
        exact List.isSuffixOf_iff_suffix.mp hholds
      have hstored := tally?_of_mem_collect (List.mem_of_find?_eq_some hfind)
      rw [tally?, Option.ite_none_right_eq_some] at hstored
      obtain ⟨hfile, htally⟩ := hstored
      have halone : linesIn (components f.filename).isSuffixOf records =
          linesIn (· == file) records := by
        apply linesIn_congr
        intro other hother
        rw [Bool.eq_iff_iff, List.isSuffixOf_iff_suffix, beq_iff_eq]
        constructor
        · intro hends'
          exact honce other hother file hfile hends' hends
        · rintro rfl
          exact hends
      rw [halone, ← Option.some.inj htally]
      rfl

theorem sumOf_known {known : ChangedFile → Option Tally} {total : Tally → Nat}
    (hzero : total {} = 0) (files : List ChangedFile) :
    sumOf ((files.filterMap known).map total) =
      sumOf (files.map fun f => total ((known f).getD {})) := by
  induction files with
  | nil => rfl
  | cons f files ih =>
      rw [List.filterMap_cons, List.map_cons]
      cases hknown : known f with
      | none =>
          rw [Option.getD_none, hzero, ih]
          exact (Nat.zero_add _).symm
      | some t => exact congrArg (total t + ·) ih

theorem sumOf_matched {pull : PullRequest} (total : Tally → Nat) (hzero : total {} = 0)
    (honce : ∀ f ∈ pull.files, MatchesOnce records f) :
    sumOf ((pull.files.filterMap fun f => (collect records).find? f.filename).map total) =
      sumOf (pull.files.map fun f =>
        total (.ofLines (linesIn (components f.filename).isSuffixOf records))) := by
  rw [sumOf_known hzero]
  congr 1
  apply List.map_congr_left
  intro f hf
  rw [find?_collect (honce f hf)]

theorem coverage_collect {pull : PullRequest} (honce : ∀ f ∈ pull.files, MatchesOnce records f) :
    (Source.report (collect records)).coverage pull =
      if (changedLines records pull).length = 0 then none
      else some (Tally.ofLines (changedLines records pull)).percent := by
  have hfound : (changedLines records pull).length = sumOf ((pull.files.filterMap fun f =>
      (collect records).find? f.filename).map Tally.found) := by
    rw [sumOf_matched Tally.found rfl honce]
    exact List.length_flatMap
  have hhit : (Tally.ofLines (changedLines records pull)).hit = sumOf ((pull.files.filterMap fun f =>
      (collect records).find? f.filename).map Tally.hit) := by
    rw [sumOf_matched Tally.hit rfl honce]
    exact List.countP_flatMap
  unfold Source.coverage ofFiles Tally.percent
  dsimp only
  rw [← hfound, ← hhit]
  rfl

/-! ## Reading a report -/

theorem readRecords_ok (h : List.Forall₂ Reads lines records) (line : Nat) :
    readRecords line lines = .ok records := by
  induction h generalizing line with
  | nil => rfl
  | cons hread _ ih =>
      rw [readRecords, hread, ih]
      rfl

theorem readRecords_error {above below : List Text} {t : Text} {e : RecordError}
    (habove : ∀ a ∈ above, ∃ r, Reads a r) (ht : Record.ofLine (stripLineEnd t) = .error e)
    (line : Nat) :
    readRecords line (above ++ t :: below) = .error (.record (line + above.length) e) := by
  induction above generalizing line with
  | nil =>
      rw [List.nil_append, readRecords, ht]
      rfl
  | cons a above ih =>
      rw [List.forall_mem_cons] at habove
      obtain ⟨⟨r, hread⟩, habove⟩ := habove
      rw [List.cons_append, readRecords, hread, ih habove, List.length_cons]
      have hplace : line + 1 + above.length = line + (above.length + 1) := by omega
      rw [hplace]
      rfl

theorem reads_or_malformed (lines : List Text) :
    (∃ records, List.Forall₂ Reads lines records) ∨
      ∃ above t below e, lines = above ++ t :: below ∧ (∀ a ∈ above, ∃ r, Reads a r) ∧
        Record.ofLine (stripLineEnd t) = .error e := by
  induction lines with
  | nil => exact Or.inl ⟨[], .nil⟩
  | cons t lines ih =>
      cases hread : Record.ofLine (stripLineEnd t) with
      | error e => exact Or.inr ⟨[], t, lines, e, rfl, by simp, hread⟩
      | ok r =>
          rcases ih with ⟨records, hrecords⟩ | ⟨above, t', below, e, rfl, habove, ht'⟩
          · exact Or.inl ⟨r :: records, .cons hread hrecords⟩
          · exact Or.inr
              ⟨t :: above, t', below, e, rfl, List.forall_mem_cons.mpr ⟨⟨r, hread⟩, habove⟩, ht'⟩

theorem ofText_cases (report : Text) :
    (∃ records, List.Forall₂ Reads report.lines records ∧ ofText report = .ok (collect records)) ∨
      ∃ above t below e, report.lines = above ++ t :: below ∧ (∀ a ∈ above, ∃ r, Reads a r) ∧
        Record.ofLine (stripLineEnd t) = .error e ∧
        ofText report = .error (.record (above.length + 1) e) := by
  unfold ofText
  rcases reads_or_malformed report.lines with
    ⟨records, hrecords⟩ | ⟨above, t, below, e, hlines, habove, ht⟩
  · left
    refine ⟨records, hrecords, ?_⟩
    rw [readRecords_ok hrecords]
    rfl
  · right
    refine ⟨above, t, below, e, hlines, habove, ht, ?_⟩
    rw [hlines, readRecords_error habove ht, Nat.add_comm 1]
    rfl

/-- Lines count for the file whose section they stand in and nowhere else, a pull request is covered
as far as the lines of its files are, and a report with a malformed record gives the first one as its
error. -/
theorem collect_counts_sections :
    (∀ records : List Record,
      (∀ file, (collect records).lookup file =
        if file ∈ reportedFiles records then some (.ofLines (linesIn (· == file) records))
        else none) ∧
      (∀ entry ∈ collect records, entry.2.hit ≤ entry.2.found) ∧
      (∀ before number count after, records = before ++ .line number count :: after →
        openFile before = none → collect records = collect (before ++ after)) ∧
      ∀ pull : PullRequest, (∀ f ∈ pull.files, MatchesOnce records f) →
        ((Source.report (collect records)).coverage pull = none ↔ changedLines records pull = []) ∧
        (changedLines records pull ≠ [] → (Source.report (collect records)).coverage pull =
          some (Tally.ofLines (changedLines records pull)).percent)) ∧
    ∀ report : Text,
      (∃ records, List.Forall₂ Reads report.lines records ∧ ofText report = .ok (collect records)) ∨
        ∃ above line below e, report.lines = above ++ line :: below ∧
          (∀ a ∈ above, ∃ r, Reads a r) ∧ Record.ofLine (stripLineEnd line) = .error e ∧
          ofText report = .error (.record (above.length + 1) e) := by
  refine ⟨fun records => ⟨lookup_collect records, ?_, ?_, ?_⟩, ofText_cases⟩
  · rintro ⟨file, t⟩ hentry
    have htally := tally?_of_mem_collect hentry
    rw [tally?, Option.ite_none_right_eq_some] at htally
    rw [← Option.some.inj htally.2]
    exact Tally.hit_le_found_ofLines _
  · rintro before number count after rfl hclosed
    exact collect_stray number count after hclosed
  · intro pull honce
    rw [coverage_collect honce]
    constructor
    · simp
    · intro hlines
      exact if_neg (by simpa using hlines)

/-- A section that is not closed before the next one, and a line between sections. -/
def openAndStray : List Record :=
  [.line 7 1, .source "/ci/src/app.js", .line 1 1, .line 2 0, .source "/ci/src/other.js", .line 1 0]

def appPull : PullRequest :=
  { files := [{ filename := "src/app.js" }, { filename := "src/new.js" }] }

theorem openAndStray_covers :
    (∀ f ∈ appPull.files, MatchesOnce openAndStray f) ∧
      collect openAndStray = collect openAndStray.tail ∧
      (Source.report (collect openAndStray)).coverage appPull = some (Tally.percent ⟨2, 1⟩) := by
  have honce : ∀ f ∈ appPull.files, MatchesOnce openAndStray f := by
    unfold MatchesOnce
    decide +kernel
  have hlines : changedLines openAndStray appPull = [(1, 1), (2, 0)] := by decide +kernel
  obtain ⟨-, -, hstray, hcoverage⟩ := collect_counts_sections.1 openAndStray
  refine ⟨honce, hstray [] 7 1 openAndStray.tail rfl rfl, ?_⟩
  rw [(hcoverage appPull honce).2 (by simp [hlines]), hlines]
  rfl

end RepoAudit.Coverage
