import RepoAudit.Coverage.Report
import Mathlib.Tactic

/-!
# The sections of a coverage report

A source record opens the section of a file, whether or not another one is open, and an end record
closes whichever is.  So a line record belongs to the file that the last source or end record before
it names, if that is a source record.  The tallies that are collected count the line records of each
file over all of its sections.
-/

namespace RepoAudit.Coverage

/-- The file whose section a record opens, nothing where it only closes one. -/
def Record.opens? : Record → Option (Option (List String))
  | .source path => some (some (components path))
  | .sectionEnd => some none
  | .line _ _ | .other => none

/-- The file whose section is open behind some records. -/
def openFile (records : List Record) : Option (List String) :=
  (records.reverse.findSome? Record.opens?).join

def Record.file? : Record → Option (List String)
  | .source path => some (components path)
  | .line _ _ | .sectionEnd | .other => none

def reportedFiles (records : List Record) : List (List String) :=
  records.filterMap Record.file?

/-- The line record at a place, with its number and its count, when it stands in the section of a
file that is asked for. -/
def lineAt? (asked : List String → Bool) (records : List Record) (place : Nat) :
    Option (Nat × Nat) :=
  match records[place]? with
  | some (.line number count) =>
      if (openFile (records.take place)).any asked then some (number, count) else none
  | _ => none

def linesIn (asked : List String → Bool) (records : List Record) : List (Nat × Nat) :=
  (List.range records.length).filterMap (lineAt? asked records)

/-- All of the lines, and those with a positive count. -/
def Tally.ofLines (lines : List (Nat × Nat)) : Tally :=
  ⟨lines.length, lines.countP fun line => 0 < line.2⟩

variable {asked : List String → Bool} {records : List Record} {file path : List String}
variable {tallies : Tallies}

/-! ## One more record -/

theorem openFile_concat (records : List Record) (r : Record) :
    openFile (records ++ [r]) = r.opens?.getD (openFile records) := by
  unfold openFile
  rw [List.reverse_append, List.reverse_singleton, List.singleton_append, List.findSome?_cons]
  cases r.opens? <;> rfl

theorem reportedFiles_concat (records : List Record) (r : Record) :
    reportedFiles (records ++ [r]) = reportedFiles records ++ r.file?.toList := by
  unfold reportedFiles
  rw [List.filterMap_append]
  cases h : r.file? <;> simp [h]

theorem lineAt?_concat_of_lt (asked : List String → Bool) (r : Record) {place : Nat}
    (hplace : place < records.length) :
    lineAt? asked (records ++ [r]) place = lineAt? asked records place := by
  unfold lineAt?
  rw [List.getElem?_append_left hplace, List.take_append_of_le_length hplace.le]

theorem linesIn_concat (asked : List String → Bool) (records : List Record) (r : Record) :
    linesIn asked (records ++ [r]) =
      linesIn asked records ++ (lineAt? asked (records ++ [r]) records.length).toList := by
  have hearlier : (List.range records.length).filterMap (lineAt? asked (records ++ [r])) =
      linesIn asked records := by
    apply List.filterMap_congr
    intro place hplace
    exact lineAt?_concat_of_lt asked r (List.mem_range.mp hplace)
  unfold linesIn at hearlier ⊢
  rw [List.length_append, List.length_singleton, List.range_succ, List.filterMap_append, hearlier]
  cases h : lineAt? asked (records ++ [r]) records.length <;> simp [h]

theorem linesIn_concat_line (asked : List String → Bool) (records : List Record)
    (number count : Nat) :
    linesIn asked (records ++ [.line number count]) =
      linesIn asked records ++ if (openFile records).any asked then [(number, count)] else [] := by
  rw [linesIn_concat]
  unfold lineAt?
  rw [List.getElem?_concat_length, List.take_left]
  by_cases hopen : (openFile records).any asked <;> simp [hopen]

theorem linesIn_concat_of_mark (asked : List String → Bool) (records : List Record) {r : Record}
    (hr : ∀ number count, r ≠ .line number count) :
    linesIn asked (records ++ [r]) = linesIn asked records := by
  rw [linesIn_concat]
  unfold lineAt?
  rw [List.getElem?_concat_length]
  cases r with
  | line number count => exact absurd rfl (hr number count)
  | _ => exact List.append_nil _

theorem mem_reportedFiles_of_openFile (h : openFile records = some file) :
    file ∈ reportedFiles records := by
  induction records using List.reverseRecOn with
  | nil => cases h
  | append_singleton records r ih =>
      rw [openFile_concat] at h
      rw [reportedFiles_concat, List.mem_append]
      cases r with
      | source path =>
          right
          cases h
          exact List.mem_singleton_self _
      | sectionEnd => cases h
      | line number count => exact Or.inl (ih h)
      | other => exact Or.inl (ih h)

theorem mem_reportedFiles_of_openFile_take {place : Nat}
    (h : openFile (records.take place) = some file) : file ∈ reportedFiles records := by
  apply List.Sublist.subset _ (mem_reportedFiles_of_openFile h)
  exact (List.take_sublist place records).filterMap _

/-- Only the files that are reported are asked for. -/
theorem linesIn_congr {asked' : List String → Bool}
    (h : ∀ file ∈ reportedFiles records, asked file = asked' file) :
    linesIn asked records = linesIn asked' records := by
  apply List.filterMap_congr
  intro place _
  have hany : (openFile (records.take place)).any asked =
      (openFile (records.take place)).any asked' := by
    cases hopen : openFile (records.take place) with
    | none => rfl
    | some file => exact h file (mem_reportedFiles_of_openFile_take hopen)
  unfold lineAt?
  rw [hany]

theorem linesIn_eq_nil (h : ∀ file ∈ reportedFiles records, asked file = false) :
    linesIn asked records = [] := by
  rw [linesIn_congr h]
  apply List.filterMap_eq_nil_iff.mpr
  intro place _
  unfold lineAt?
  rw [Option.any_false]
  split <;> rfl

theorem Tally.add_ofLines (lines : List (Nat × Nat)) (number count : Nat) :
    (Tally.ofLines lines).add count = Tally.ofLines (lines ++ [(number, count)]) := by
  unfold Tally.ofLines Tally.add
  rw [List.length_append, List.countP_append, List.countP_singleton]
  by_cases hcount : 0 < count <;> simp [hcount]

theorem Tally.hit_le_found_ofLines (lines : List (Nat × Nat)) :
    (Tally.ofLines lines).hit ≤ (Tally.ofLines lines).found :=
  List.countP_le_length

/-! ## Tallies -/

theorem lookup_update (tallies : Tallies) (path file : List String) (f : Tally → Tally) :
    (tallies.update path f).lookup file =
      if file = path then some (f ((tallies.lookup path).getD {})) else tallies.lookup file := by
  induction tallies with
  | nil =>
      unfold Tallies.update
      by_cases hfile : file = path
      · subst hfile
        rw [List.lookup_cons_self, if_pos rfl, List.lookup_nil, Option.getD_none]
      · rw [List.lookup_cons, beq_eq_false_iff_ne.mpr hfile, if_neg hfile]
  | cons entry rest ih =>
      obtain ⟨other, t⟩ := entry
      have hskip : ∀ {key : List String} {t' : Tally} {more : Tallies}, key ≠ other →
          List.lookup key ((other, t') :: more) = List.lookup key more := by
        intro key t' more hkey
        rw [List.lookup_cons, beq_eq_false_iff_ne.mpr hkey]
      unfold Tallies.update
      by_cases hother : other = path
      · subst hother
        rw [if_pos (beq_self_eq_true other), List.lookup_cons_self, Option.getD_some]
        by_cases hfile : file = other
        · rw [hfile, List.lookup_cons_self, if_pos rfl]
        · rw [hskip hfile, hskip hfile, if_neg hfile]
      · rw [if_neg (by simpa using hother), hskip (Ne.symm hother)]
        by_cases hfile : file = other
        · subst hfile
          rw [List.lookup_cons_self, if_neg hother, List.lookup_cons_self]
        · rw [hskip hfile, hskip hfile, ih]

theorem mem_keys_update {f : Tally → Tally} :
    file ∈ (tallies.update path f).map Prod.fst ↔ file = path ∨ file ∈ tallies.map Prod.fst := by
  induction tallies with
  | nil => simp [Tallies.update]
  | cons entry rest ih =>
      obtain ⟨other, t⟩ := entry
      unfold Tallies.update
      by_cases hother : other = path
      · simp [hother]
      · rw [if_neg (by simpa using hother), List.map_cons, List.mem_cons, ih, List.map_cons,
          List.mem_cons]
        tauto

theorem nodup_keys_update {f : Tally → Tally} (h : (tallies.map Prod.fst).Nodup) :
    ((tallies.update path f).map Prod.fst).Nodup := by
  induction tallies with
  | nil => simp [Tallies.update]
  | cons entry rest ih =>
      obtain ⟨other, t⟩ := entry
      unfold Tallies.update
      by_cases hother : other = path
      · simpa [hother] using h
      · rw [List.map_cons, List.nodup_cons] at h
        rw [if_neg (by simpa using hother), List.map_cons, List.nodup_cons, mem_keys_update, not_or]
        exact ⟨⟨hother, h.1⟩, ih h.2⟩

theorem lookup_of_mem_of_nodup {t : Tally} (honce : (tallies.map Prod.fst).Nodup)
    (hmem : (file, t) ∈ tallies) : tallies.lookup file = some t := by
  induction tallies with
  | nil => cases hmem
  | cons entry rest ih =>
      obtain ⟨other, first⟩ := entry
      rw [List.map_cons, List.nodup_cons] at honce
      rcases List.mem_cons.mp hmem with heq | hrest
      · obtain ⟨rfl, rfl⟩ := Prod.mk.inj heq
        exact List.lookup_cons_self
      · have hne : file ≠ other := by
          rintro rfl
          exact honce.1 (List.mem_map.mpr ⟨_, hrest, rfl⟩)
        rw [List.lookup_cons, beq_eq_false_iff_ne.mpr hne]
        exact ih honce.2 hrest

/-! ## Collecting -/

/-- What the records say about a file, when they report it. -/
def tally? (records : List Record) (file : List String) : Option Tally :=
  if file ∈ reportedFiles records then some (.ofLines (linesIn (· == file) records)) else none

/-- A file that is not reported has no lines. -/
theorem getD_tally? (records : List Record) (file : List String) :
    (tally? records file).getD {} = .ofLines (linesIn (· == file) records) := by
  unfold tally?
  by_cases hknown : file ∈ reportedFiles records
  · rw [if_pos hknown, Option.getD_some]
  · have hnone : linesIn (· == file) records = [] := by
      apply linesIn_eq_nil
      intro other hother
      rw [beq_eq_false_iff_ne]
      rintro rfl
      exact hknown hother
    rw [if_neg hknown, Option.getD_none, hnone]
    rfl

theorem tally?_concat_source (records : List Record) (path : String) (file : List String) :
    tally? (records ++ [.source path]) file =
      if file = components path then some (.ofLines (linesIn (· == components path) records))
      else tally? records file := by
  unfold tally?
  rw [linesIn_concat_of_mark _ _ (by rintro _ _ ⟨⟩), reportedFiles_concat]
  by_cases hfile : file = components path
  · have hknown : file ∈ reportedFiles records ++ (Record.source path).file?.toList :=
      List.mem_append_right _ (List.mem_singleton.mpr hfile)
    rw [if_pos hfile, if_pos hknown, hfile]
  · rw [if_neg hfile]
    apply if_congr _ rfl rfl
    rw [List.mem_append, or_iff_left_iff_imp]
    intro hmem
    exact absurd (List.mem_singleton.mp hmem) hfile

theorem tally?_concat_line (records : List Record) (number count : Nat) (file : List String) :
    tally? (records ++ [.line number count]) file =
      if openFile records = some file then
        some ((Tally.ofLines (linesIn (· == file) records)).add count)
      else tally? records file := by
  unfold tally?
  rw [linesIn_concat_line, reportedFiles_concat, show (Record.line number count).file? = none from rfl,
    Option.toList_none, List.append_nil]
  by_cases hopen : openFile records = some file
  · rw [if_pos hopen, if_pos (mem_reportedFiles_of_openFile hopen), hopen, Option.any_some,
      beq_self_eq_true, if_pos rfl, Tally.add_ofLines]
  · have hother : ¬ (openFile records).any (· == file) = true := by
      intro hany
      obtain ⟨other, hopen', heq⟩ := (Option.any_eq_true _ _).mp hany
      rw [eq_of_beq heq] at hopen'
      exact hopen hopen'
    rw [if_neg hopen, if_neg hother, List.append_nil]

theorem tally?_concat_of_silent {r : Record} (records : List Record) (file : List String)
    (hfile : r.file? = none) (hline : ∀ number count, r ≠ .line number count) :
    tally? (records ++ [r]) file = tally? records file := by
  unfold tally?
  rw [linesIn_concat_of_mark _ _ hline, reportedFiles_concat, hfile, Option.toList_none,
    List.append_nil]

/-- What is known behind some records. -/
structure Progress.Describes (p : Progress) (records : List Record) : Prop where
  current : p.current = openFile records
  stored : ∀ file, p.tallies.lookup file = tally? records file
  once : (p.tallies.map Prod.fst).Nodup

namespace Progress.Describes

variable {p : Progress}

theorem start : Describes {} [] := by
  constructor
  · rfl
  · intro file
    rfl
  · exact List.nodup_nil

theorem source (h : p.Describes records) (path : String) :
    (p.step (.source path)).Describes (records ++ [.source path]) := by
  constructor
  case current => exact (openFile_concat records (.source path)).symm
  case stored =>
    intro file
    change (p.tallies.update (components path) id).lookup file = _
    rw [lookup_update, h.stored, h.stored, getD_tally?, tally?_concat_source]
    rfl
  case once => exact nodup_keys_update h.once

theorem line (h : p.Describes records) (number count : Nat) :
    (p.step (.line number count)).Describes (records ++ [.line number count]) := by
  have hcurrent : openFile (records ++ [.line number count]) = p.current := by
    rw [openFile_concat, h.current]
    rfl
  unfold Progress.step
  cases hopen : p.current with
  | none =>
      constructor
      case current => rw [hcurrent]
      case stored =>
        intro file
        rw [h.stored, tally?_concat_line, ← h.current, hopen, if_neg (by rintro ⟨⟩)]
      case once => exact h.once
  | some parts =>
      constructor
      case current => rw [hcurrent, hopen]
      case stored =>
        intro file
        change (p.tallies.update parts (·.add count)).lookup file = _
        rw [lookup_update, h.stored, h.stored, getD_tally?, tally?_concat_line, ← h.current, hopen]
        by_cases hfile : file = parts
        · subst hfile
          rw [if_pos rfl, if_pos rfl]
        · rw [if_neg hfile, if_neg (fun heq => hfile (Option.some.inj heq).symm)]
      case once => exact nodup_keys_update h.once

theorem step (h : p.Describes records) (r : Record) : (p.step r).Describes (records ++ [r]) := by
  cases r with
  | source path => exact h.source path
  | line number count => exact h.line number count
  | sectionEnd =>
      constructor
      case current => exact (openFile_concat records .sectionEnd).symm
      case stored =>
        intro file
        rw [tally?_concat_of_silent records file rfl (by rintro _ _ ⟨⟩)]
        exact h.stored file
      case once => exact h.once
  | other =>
      constructor
      case current => exact h.current.trans (openFile_concat records .other).symm
      case stored =>
        intro file
        rw [tally?_concat_of_silent records file rfl (by rintro _ _ ⟨⟩)]
        exact h.stored file
      case once => exact h.once

end Progress.Describes

theorem describes_foldl (records : List Record) :
    (records.foldl Progress.step {}).Describes records := by
  induction records using List.reverseRecOn with
  | nil => exact .start
  | append_singleton records r ih =>
      rw [List.foldl_append, List.foldl_cons, List.foldl_nil]
      exact ih.step r

theorem lookup_collect (records : List Record) (file : List String) :
    (collect records).lookup file = tally? records file :=
  (describes_foldl records).stored file

theorem tally?_of_mem_collect {t : Tally} (h : (file, t) ∈ collect records) :
    tally? records file = some t := by
  rw [← lookup_collect]
  exact lookup_of_mem_of_nodup (describes_foldl records).once h

end RepoAudit.Coverage
