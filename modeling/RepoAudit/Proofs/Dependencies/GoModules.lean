import RepoAudit.Dependencies.Manifest
import RepoAudit.Proofs.Text.Lines
import RepoAudit.Proofs.Text.Search
import RepoAudit.Proofs.Text.Words

/-!
# The requirements of a Go module

A module file consists of lines that state one requirement, of blocks of such lines between
parentheses, and of lines about anything else.  This is the grammar, and what is required in it.
Reading the text of any such file gives exactly the requirements, in their order: a block is left
where it ends, and a comment is never taken for a requirement.
-/

namespace RepoAudit.Manifest

/-- Blanks that do not end the line. -/
structure Gap where
  text : Text
  isBlank_text : ∀ c ∈ text, isBlank c = true
  inLine : '\n' ∉ text

/-- Blanks and perhaps a comment: a line that states nothing, or the end of one that does. -/
structure Aside where
  gap : Gap
  comment : Text
  marked : comment = [] ∨ "//".toList <+: comment
  inLine : '\n' ∉ comment

def Aside.text (a : Aside) : Text :=
  a.gap.text ++ a.comment

structure IsModuleToken (t : Text) : Prop where
  ne_nil : t ≠ []
  plain : ∀ c ∈ t, isBlank c = false
  uncommented : ¬ "//".toList <:+: t

/-- A name and a version.  A version with a slash at its end does not run into a comment. -/
structure ModuleEntry where
  name : Text
  gap : Gap
  version : Text
  ending : Aside
  isToken_name : IsModuleToken name
  head_name : ∀ c ∈ name.head?, c ≠ '(' ∧ c ≠ ')'
  gap_ne_nil : gap.text ≠ []
  isToken_version : IsModuleToken version
  apart : version.getLast? = some '/' → ending.text.head? ≠ some '/'

namespace ModuleEntry

def text (e : ModuleEntry) : Text :=
  e.name ++ (e.gap.text ++ (e.version ++ e.ending.text))

def dependency (e : ModuleEntry) : Dependency :=
  { name := String.ofList e.name, version := String.ofList e.version, ecosystem := .go
    indirect := decide ("// indirect".toList <:+: e.ending.comment) }

end ModuleEntry

inductive BlockLine where
  | aside (a : Aside)
  | entry (indent : Gap) (e : ModuleEntry)

namespace BlockLine

def text : BlockLine → Text
  | aside a => a.text
  | entry indent e => indent.text ++ e.text

def required : BlockLine → List Dependency
  | aside _ => []
  | entry _ e => [e.dependency]

end BlockLine

inductive ModuleItem where
  /-- A blank line, a comment, or a line of another directive. -/
  | other (line : Text) (inLine : '\n' ∉ line) (unlike : ¬ "require".toList <+: line.trim)
  | single (indent gap : Gap) (e : ModuleEntry) (gap_ne_nil : gap.text ≠ [])
  | block (indent gap : Gap) (opening : Aside) (body : List BlockLine) (outdent : Gap)
      (closing : Aside)

namespace ModuleItem

def lines : ModuleItem → List Text
  | other line _ _ => [line]
  | single indent gap e _ => [indent.text ++ ("require".toList ++ (gap.text ++ e.text))]
  | block indent gap opening body outdent closing =>
      (indent.text ++ ("require".toList ++ (gap.text ++ '(' :: opening.text))) ::
        (body.map BlockLine.text ++ [outdent.text ++ ')' :: closing.text])

def required : ModuleItem → List Dependency
  | other _ _ _ => []
  | single _ _ e _ => [e.dependency]
  | block _ _ _ body _ _ => body.flatMap BlockLine.required

/-- The text of a file; the line feed after its last line may be missing. -/
def text (items : List ModuleItem) (terminated : Bool) : Text :=
  if terminated then Text.unlines (items.flatMap lines)
  else Text.join ['\n'] (items.flatMap lines)

end ModuleItem

/-! ## One entry -/

theorem slash_not_mem_gap {gap : Text} (hgap : ∀ c ∈ gap, isBlank c = true) : '/' ∉ gap := by
  intro hmem
  exact absurd (hgap '/' hmem) (by decide)

theorem passes_gap {gap : Text} (hgap : ∀ c ∈ gap, isBlank c = true) (rest : Text) :
    Text.Passes "//".toList gap rest :=
  .of_not_mem (slash_not_mem_gap hgap)

theorem passes_token {t rest : Text} (ht : IsModuleToken t)
    (hrest : t.getLast? = some '/' → rest.head? ≠ some '/') :
    Text.Passes "//".toList t rest := by
  apply Text.Passes.of_not_infix ht.uncommented
  rintro tail beyond ⟨lead, hlead⟩ htail hbeyond ⟨after, hafter⟩ hmark
  -- Of the two slashes one ends the token and the other begins the rest.
  obtain ⟨c, tail, rfl⟩ := List.exists_cons_of_ne_nil htail
  obtain ⟨d, beyond, rfl⟩ := List.exists_cons_of_ne_nil hbeyond
  have hchars : tail = [] ∧ c = '/' ∧ d = '/' := by
    change ['/', '/'] = c :: (tail ++ d :: beyond) at hmark
    cases tail with
    | nil =>
        rw [List.nil_append, List.cons.injEq, List.cons.injEq] at hmark
        exact ⟨rfl, hmark.1.symm, hmark.2.1.symm⟩
    | cons e tail => simp at hmark
  obtain ⟨rfl, rfl, rfl⟩ := hchars
  apply hrest
  · rw [← hlead, List.getLast?_concat]
  · rw [← hafter]
    rfl

/-- An entry up to its comment. -/
def uncommented (t : Text) : Text :=
  ((Text.cutAt? "//".toList t).map Prod.fst).getD t

theorem goRequirement?_eq (t : Text) :
    goRequirement? t =
      match Text.words (uncommented t) with
      | name :: version :: _ =>
          some {
            name := String.ofList name, version := String.ofList version, ecosystem := .go
            indirect := t.contains "// indirect".toList }
      | _ => none := by
  rfl

theorem goRequirement?_congr {t u : Text}
    (hwords : Text.words (uncommented t) = Text.words (uncommented u))
    (hindirect : "// indirect".toList <:+: t ↔ "// indirect".toList <:+: u) :
    goRequirement? t = goRequirement? u := by
  have hcontains : t.contains "// indirect".toList = u.contains "// indirect".toList := by
    rw [Bool.eq_iff_iff, Text.contains_iff, Text.contains_iff]
    exact hindirect
  rw [goRequirement?_eq, goRequirement?_eq, hwords, hcontains]

theorem uncommented_append {lead rest : Text} (h : Text.Passes "//".toList lead rest) :
    uncommented (lead ++ rest) = lead ++ uncommented rest := by
  unfold uncommented
  rw [h.cutAt?_append]
  cases Text.cutAt? "//".toList rest <;> rfl

theorem goRequirement?_blank_append {gap : Text} (hgap : ∀ c ∈ gap, isBlank c = true) (t : Text) :
    goRequirement? (gap ++ t) = goRequirement? t := by
  have hpasses := passes_gap hgap t
  apply goRequirement?_congr
  · rw [uncommented_append hpasses, Text.words_blank_append hgap]
  · exact (hpasses.longer (by decide)).infix_append_iff

theorem goRequirement?_append_blank {gap : Text} (hgap : ∀ c ∈ gap, isBlank c = true) (t : Text) :
    goRequirement? (t ++ gap) = goRequirement? t := by
  have hslash : ∀ c ∈ gap, c ∉ "//".toList := by
    intro c hc hmem
    obtain rfl : c = '/' := by simpa using hmem
    exact slash_not_mem_gap hgap hc
  have hletter : 't' ∉ gap := by
    intro hmem
    exact absurd (hgap 't' hmem) (by decide)
  apply goRequirement?_congr
  · unfold uncommented
    rw [Text.cutAt?_append_right (by decide) hslash]
    cases Text.cutAt? "//".toList t with
    | none => exact Text.words_append_blank hgap t
    | some cut => rfl
  · exact Text.infix_append_right_iff ⟨'t', rfl, hletter⟩ t

theorem goRequirement?_trim (t : Text) : goRequirement? t.trim = goRequirement? t := by
  obtain ⟨lead, trail, hlead, htrail, ht⟩ := Text.exists_eq_trim t
  calc
    goRequirement? t.trim = goRequirement? (lead ++ (t.trim ++ trail)) := by
      rw [goRequirement?_blank_append hlead, goRequirement?_append_blank htrail]
    _ = goRequirement? t := by rw [← ht]

theorem Aside.goRequirement?_text (a : Aside) : goRequirement? a.text = none := by
  have hblank : ∀ c ∈ uncommented a.text, isBlank c = true := by
    rw [Aside.text, uncommented_append (passes_gap a.gap.isBlank_text _)]
    rcases a.marked with hnone | ⟨rest, hrest⟩
    · rw [hnone]
      unfold uncommented
      rw [Text.cutAt?_nil (by decide)]
      simpa using a.gap.isBlank_text
    · unfold uncommented
      rw [← hrest, Text.cutAt?_mark_append]
      simpa using a.gap.isBlank_text
  rw [goRequirement?_eq, Text.words_of_blank hblank]

namespace ModuleEntry

variable (e : ModuleEntry)

/-- What comes before the comment of an entry. -/
def stated : Text :=
  e.name ++ (e.gap.text ++ (e.version ++ e.ending.gap.text))

theorem text_eq : e.text = e.stated ++ e.ending.comment := by
  simp only [text, stated, Aside.text, List.append_assoc]

theorem passes_stated : Text.Passes "//".toList e.stated e.ending.comment := by
  have hgap : ∀ c ∈ (e.gap.text ++ (e.version ++ e.ending.gap.text) ++ e.ending.comment).head?,
      c ≠ '/' := by
    obtain ⟨c, more, hmore⟩ := List.exists_cons_of_ne_nil e.gap_ne_nil
    rw [hmore]
    rintro d ⟨⟩ rfl
    exact slash_not_mem_gap e.gap.isBlank_text (hmore ▸ List.mem_cons_self ..)
  unfold stated
  apply Text.Passes.append
  · exact passes_token e.isToken_name fun _ hhead => hgap '/' hhead rfl
  apply Text.Passes.append
  · exact passes_gap e.gap.isBlank_text _
  apply Text.Passes.append
  · exact passes_token e.isToken_version e.apart
  · exact passes_gap e.ending.gap.isBlank_text _

theorem words_stated : Text.words e.stated = [e.name, e.version] := by
  have hgap : ∀ c ∈ (e.gap.text ++ (e.version ++ e.ending.gap.text)).head?, isBlank c = true := by
    obtain ⟨c, more, hmore⟩ := List.exists_cons_of_ne_nil e.gap_ne_nil
    rw [hmore]
    rintro d ⟨⟩
    exact e.gap.isBlank_text c (hmore ▸ List.mem_cons_self ..)
  have hending : ∀ c ∈ e.ending.gap.text.head?, isBlank c = true :=
    fun c hc => e.ending.gap.isBlank_text c (List.mem_of_mem_head? hc)
  unfold stated
  rw [Text.words_append e.isToken_name.ne_nil e.isToken_name.plain hgap,
    Text.words_blank_append e.gap.isBlank_text,
    Text.words_append e.isToken_version.ne_nil e.isToken_version.plain hending,
    Text.words_of_blank e.ending.gap.isBlank_text]

theorem uncommented_text : uncommented e.text = e.stated := by
  rw [e.text_eq, uncommented_append e.passes_stated]
  rcases e.ending.marked with hnone | ⟨rest, hrest⟩
  · rw [hnone]
    unfold uncommented
    rw [Text.cutAt?_nil (by decide)]
    exact List.append_nil _
  · unfold uncommented
    rw [← hrest, Text.cutAt?_mark_append]
    exact List.append_nil _

theorem goRequirement?_text : goRequirement? e.text = some e.dependency := by
  have hindirect : e.text.contains "// indirect".toList =
      decide ("// indirect".toList <:+: e.ending.comment) := by
    rw [Bool.eq_iff_iff, Text.contains_iff, decide_eq_true_eq, e.text_eq]
    exact (e.passes_stated.longer (by decide)).infix_append_iff
  rw [goRequirement?_eq, e.uncommented_text, e.words_stated, hindirect]
  rfl

end ModuleEntry

/-! ## Lines -/

/-- Blanks at the ends of a line do not matter. -/
theorem goRequirements_of_trim_eq {lines others : List Text}
    (h : lines.map Text.trim = others.map Text.trim) (inBlock : Bool) :
    goRequirements inBlock lines = goRequirements inBlock others := by
  induction lines generalizing others inBlock with
  | nil =>
      rw [List.map_nil, eq_comm, List.map_eq_nil_iff] at h
      rw [h]
  | cons line lines ih =>
      cases others with
      | nil => cases h
      | cons other others =>
          rw [List.map_cons, List.map_cons, List.cons.injEq] at h
          cases inBlock with
          | true => simp only [goRequirements, h.1, ih h.2]
          | false => simp only [goRequirements, h.1, ih h.2]

theorem goRequirements_concat_nil (lines : List Text) (inBlock : Bool) :
    goRequirements inBlock (lines ++ [[]]) = goRequirements inBlock lines := by
  induction lines generalizing inBlock with
  | nil => cases inBlock <;> rfl
  | cons line lines ih =>
      cases inBlock with
      | true => simp only [List.cons_append, goRequirements, ih]
      | false => simp only [List.cons_append, goRequirements, ih]

/-- A file is read by its lines, whether or not the last one is ended. -/
theorem parseGoMod_of_lines {lines : List Text} (hlines : ∀ line ∈ lines, '\n' ∉ line) :
    parseGoMod (Text.unlines lines) = goRequirements false lines ∧
      parseGoMod (Text.join ['\n'] lines) = goRequirements false lines := by
  have hdropped : ∀ pieces : List Text,
      (pieces.map Text.dropReturn).map Text.trim = pieces.map Text.trim := by
    intro pieces
    rw [List.map_map]
    exact List.map_congr_left fun line _ => Text.trim_dropReturn line
  constructor
  · have hread := Text.lines_unlines_append hlines []
    rw [List.append_nil, Text.lines_nil, List.append_nil] at hread
    rw [parseGoMod, hread]
    exact goRequirements_of_trim_eq (hdropped lines) false
  · rcases List.eq_nil_or_concat' lines with rfl | ⟨init, last, rfl⟩
    · rfl
    · rw [List.forall_mem_append, List.forall_mem_singleton] at hlines
      rw [parseGoMod, Text.join_lineFeed_concat, Text.lines_unlines_append hlines.1]
      by_cases hnil : last = []
      · rw [hnil, Text.lines_nil, List.append_nil, goRequirements_concat_nil]
        exact goRequirements_of_trim_eq (hdropped init) false
      · rw [Text.lines_of_not_mem hlines.2 hnil]
        apply goRequirements_of_trim_eq
        rw [List.map_append, List.map_append, hdropped]

theorem head?_trim_blank_append {gap : Text} (hgap : ∀ c ∈ gap, isBlank c = true) {c : Char}
    (hc : isBlank c = false) (rest : Text) : (gap ++ c :: rest).trim.head? = some c := by
  have hhead : ∀ d ∈ [c].head?, isBlank d = false := by
    rintro d ⟨⟩
    exact hc
  have htrim : Text.trim (c :: rest) = [c] ++ Text.trimEnd rest :=
    Text.trim_append hhead ⟨c, rfl, hc⟩ rest
  rw [Text.trim_blank_append hgap, htrim]
  rfl

theorem Aside.head?_trim (a : Aside) : a.text.trim.head? ≠ some ')' := by
  rw [Aside.text]
  rcases a.marked with hnone | ⟨rest, hrest⟩
  · have hblank := Text.trim_blank_append a.gap.isBlank_text []
    rw [hnone, hblank]
    decide
  · have hhead := head?_trim_blank_append a.gap.isBlank_text (c := '/') (by decide) ('/' :: rest)
    rw [← hrest]
    change (a.gap.text ++ '/' :: '/' :: rest).trim.head? ≠ some ')'
    rw [hhead]
    decide

theorem ModuleEntry.head?_trim (e : ModuleEntry) {gap : Text} (hgap : ∀ c ∈ gap, isBlank c = true) :
    (gap ++ e.text).trim.head? = e.name.head? := by
  obtain ⟨c, more, hname⟩ := List.exists_cons_of_ne_nil e.isToken_name.ne_nil
  have hc : isBlank c = false := e.isToken_name.plain c (hname ▸ List.mem_cons_self ..)
  unfold text
  rw [hname, List.cons_append, head?_trim_blank_append hgap hc]
  rfl

/-- In a block a line states its requirement and the block goes on. -/
theorem goRequirements_blockLine (l : BlockLine) (lines : List Text) :
    goRequirements true (l.text :: lines) = l.required ++ goRequirements true lines := by
  rw [goRequirements]
  cases l with
  | aside a =>
      have hopen : (a.text.trim.head? == some ')') = false := by simpa using a.head?_trim
      simp only [BlockLine.text, BlockLine.required, hopen]
      rw [goRequirement?_trim, a.goRequirement?_text]
      rfl
  | entry indent e =>
      have hopen : ((indent.text ++ e.text).trim.head? == some ')') = false := by
        rw [e.head?_trim indent.isBlank_text, beq_eq_false_iff_ne]
        intro hhead
        exact (e.head_name ')' hhead).2 rfl
      simp only [BlockLine.text, BlockLine.required, hopen]
      rw [goRequirement?_trim, goRequirement?_blank_append indent.isBlank_text,
        e.goRequirement?_text]
      rfl

theorem goRequirements_body (body : List BlockLine) (lines : List Text) :
    goRequirements true (body.map BlockLine.text ++ lines) =
      body.flatMap BlockLine.required ++ goRequirements true lines := by
  induction body with
  | nil => rfl
  | cons l body ih =>
      rw [List.map_cons, List.cons_append, goRequirements_blockLine, ih, List.flatMap_cons,
        List.append_assoc]

theorem goRequirements_closing (outdent : Gap) (closing : Text) (lines : List Text) :
    goRequirements true ((outdent.text ++ ')' :: closing) :: lines) = goRequirements false lines := by
  have hhead := head?_trim_blank_append outdent.isBlank_text (c := ')') (by decide) closing
  rw [goRequirements, hhead]
  rfl

/-- Behind the directive stands a requirement, or the parenthesis that opens a block. -/
theorem goRequirements_require (indent : Gap) (t : Text) (lines : List Text) :
    goRequirements false ((indent.text ++ ("require".toList ++ t)) :: lines) =
      if t.trim.head? == some '(' then goRequirements true lines
      else (goRequirement? t).toList ++ goRequirements false lines := by
  have htrim : (indent.text ++ ("require".toList ++ t)).trim = "require".toList ++ t.trimEnd := by
    rw [Text.trim_blank_append indent.isBlank_text]
    exact Text.trim_append (by rintro c ⟨⟩; rfl) ⟨'e', by decide, by decide⟩ t
  have hdrop : Text.dropPrefix? ("require".toList ++ t.trimEnd) "require".toList =
      some t.trimEnd := by
    have hprefix : "require".toList.isPrefixOf ("require".toList ++ t.trimEnd) = true :=
      List.isPrefixOf_iff_prefix.mpr (List.prefix_append _ _)
    rw [Text.dropPrefix?, if_pos hprefix, List.drop_left]
  rw [goRequirements, htrim, hdrop]
  simp only [Text.trim_trimEnd, goRequirement?_trim]

theorem goRequirements_other {line : Text} (hline : ¬ "require".toList <+: line.trim)
    (lines : List Text) : goRequirements false (line :: lines) = goRequirements false lines := by
  have hdrop : Text.dropPrefix? line.trim "require".toList = none :=
    if_neg fun h => hline (List.isPrefixOf_iff_prefix.mp h)
  rw [goRequirements, hdrop]

/-- Every item is read on its own: a block is left before the lines that follow it. -/
theorem goRequirements_item (item : ModuleItem) (lines : List Text) :
    goRequirements false (item.lines ++ lines) = item.required ++ goRequirements false lines := by
  cases item with
  | other line inLine unlike => exact goRequirements_other unlike lines
  | single indent gap e gap_ne_nil =>
      have hsingle : ((gap.text ++ e.text).trim.head? == some '(') = false := by
        rw [e.head?_trim gap.isBlank_text, beq_eq_false_iff_ne]
        intro hhead
        exact (e.head_name '(' hhead).1 rfl
      simp only [ModuleItem.lines, ModuleItem.required, List.singleton_append]
      rw [goRequirements_require, hsingle, goRequirement?_blank_append gap.isBlank_text,
        e.goRequirement?_text]
      rfl
  | block indent gap opening body outdent closing =>
      have hblock := head?_trim_blank_append gap.isBlank_text (c := '(') (by decide) opening.text
      simp only [ModuleItem.lines, ModuleItem.required, List.cons_append, List.append_assoc,
        List.nil_append]
      rw [goRequirements_require, hblock, goRequirements_body, goRequirements_closing]
      rfl

/-! ## Files -/

theorem Aside.not_mem_text (a : Aside) : '\n' ∉ a.text := by
  rw [Aside.text, List.mem_append, not_or]
  exact ⟨a.gap.inLine, a.inLine⟩

theorem IsModuleToken.not_mem {t : Text} (ht : IsModuleToken t) : '\n' ∉ t := by
  intro hmem
  exact absurd (ht.plain '\n' hmem) (by decide)

theorem ModuleEntry.not_mem_text (e : ModuleEntry) : '\n' ∉ e.text := by
  simp only [text, List.mem_append, not_or]
  exact ⟨e.isToken_name.not_mem, e.gap.inLine, e.isToken_version.not_mem, e.ending.not_mem_text⟩

theorem BlockLine.not_mem_text (l : BlockLine) : '\n' ∉ l.text := by
  cases l with
  | aside a => exact a.not_mem_text
  | entry indent e =>
      simp only [text, List.mem_append, not_or]
      exact ⟨indent.inLine, e.not_mem_text⟩

theorem ModuleItem.not_mem_line (item : ModuleItem) : ∀ line ∈ item.lines, '\n' ∉ line := by
  have hrequire : '\n' ∉ "require".toList := by decide
  cases item with
  | other line inLine unlike => exact List.forall_mem_singleton.mpr inLine
  | single indent gap e gap_ne_nil =>
      have hentry := List.not_mem_append gap.inLine e.not_mem_text
      exact List.forall_mem_singleton.mpr
        (List.not_mem_append indent.inLine (List.not_mem_append hrequire hentry))
  | block indent gap opening body outdent closing =>
      have hopening := List.not_mem_append gap.inLine
        (List.not_mem_cons_of_ne_of_not_mem (show '\n' ≠ '(' by decide) opening.not_mem_text)
      have hclosing := List.not_mem_append outdent.inLine
        (List.not_mem_cons_of_ne_of_not_mem (show '\n' ≠ ')' by decide) closing.not_mem_text)
      unfold lines
      rw [List.forall_mem_cons, List.forall_mem_append, List.forall_mem_map,
        List.forall_mem_singleton]
      exact ⟨List.not_mem_append indent.inLine (List.not_mem_append hrequire hopening),
        fun l _ => l.not_mem_text, hclosing⟩

/-- The requirements of a file are read one after the other, those in blocks and those on lines of
their own, and nothing else is. -/
theorem parseGoMod_text (items : List ModuleItem) (terminated : Bool) :
    parseGoMod (ModuleItem.text items terminated) = items.flatMap ModuleItem.required := by
  have hlines : ∀ line ∈ items.flatMap ModuleItem.lines, '\n' ∉ line := by
    intro line hline
    obtain ⟨item, -, hmem⟩ := List.mem_flatMap.mp hline
    exact item.not_mem_line line hmem
  have hread : goRequirements false (items.flatMap ModuleItem.lines) =
      items.flatMap ModuleItem.required := by
    clear hlines
    induction items with
    | nil => rfl
    | cons item items ih => rw [List.flatMap_cons, goRequirements_item, ih, List.flatMap_cons]
  rw [← hread]
  cases terminated with
  | true => exact (parseGoMod_of_lines hlines).1
  | false => exact (parseGoMod_of_lines hlines).2

/-- Blanks that are given. -/
def Gap.of (t : Text) (h : t.all (fun c => isBlank c && c != '\n') = true) : Gap where
  text := t
  isBlank_text := fun c hc => (Bool.and_eq_true_iff.mp (List.all_eq_true.mp h c hc)).1
  inLine := fun hmem => absurd (List.all_eq_true.mp h '\n' hmem) (by decide)

theorem isModuleToken_of_all {t : Text} (hplain : t.all (fun c => !isBlank c) = true) (hne : t ≠ [])
    (huncommented : ¬ "//".toList <:+: t) : IsModuleToken t :=
  ⟨hne, fun c hc => by simpa using List.all_eq_true.mp hplain c hc, huncommented⟩

def yamlEntry : ModuleEntry where
  name := "gopkg.in/yaml.v3".toList
  gap := .of [' '] rfl
  version := "v3.0.1".toList
  ending := ⟨.of [' '] rfl, "// indirect".toList, by decide, by decide⟩
  isToken_name := isModuleToken_of_all (by decide) (by decide) (by decide)
  head_name := by rintro c ⟨⟩; decide
  gap_ne_nil := by decide
  isToken_version := isModuleToken_of_all (by decide) (by decide) (by decide)
  apart := by decide

def cobraEntry : ModuleEntry where
  name := "github.com/spf13/cobra".toList
  gap := .of [' ', ' '] rfl
  version := "v1.8.0".toList
  ending := ⟨.of [' '] rfl, "// direct\r".toList, by decide, by decide⟩
  isToken_name := isModuleToken_of_all (by decide) (by decide) (by decide)
  head_name := by rintro c ⟨⟩; decide
  gap_ne_nil := by decide
  isToken_version := isModuleToken_of_all (by decide) (by decide) (by decide)
  apart := by decide

/-- A directive, a block with a comment for a line, a directive of another kind and a requirement on
a line of its own. -/
def yamlAndCobra : List ModuleItem :=
  [.other "module example.org/m".toList (by decide) (by decide),
   .block (.of [] rfl) (.of [' '] rfl) ⟨.of [] rfl, "// of others".toList, by decide, by decide⟩
    [.entry (.of ['\t'] rfl) yamlEntry,
     .aside ⟨.of ['\t'] rfl, "// require z v1".toList, by decide, by decide⟩]
    (.of [] rfl) ⟨.of [' '] rfl, "// require".toList, by decide, by decide⟩,
   .other "exclude a.b/c v1.0.0".toList (by decide) (by decide),
   .single (.of [' '] rfl) (.of [' '] rfl) cobraEntry (by decide)]

theorem yamlAndCobra_read :
    parseGoMod (ModuleItem.text yamlAndCobra false) =
      [{ name := "gopkg.in/yaml.v3", version := "v3.0.1", ecosystem := .go, indirect := true },
       { name := "github.com/spf13/cobra", version := "v1.8.0", ecosystem := .go }] :=
  (parseGoMod_text yamlAndCobra false).trans rfl

end RepoAudit.Manifest
