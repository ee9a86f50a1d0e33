import RepoAudit.Dependencies.Manifest
import RepoAudit.Proofs.Pattern.Scan
import RepoAudit.Proofs.Text.Words
import Mathlib

/-!
# Requirements listed in a setup script

A setup script lists its requirements as quoted texts between brackets.  As long as the texts have
neither quotes nor closing brackets in them, each is read as the requirement that it is.
-/

namespace RepoAudit.Manifest

open Pattern

/-- A requirement between two quote marks that it does not contain, with blanks around it. -/
structure QuotedRequirement where
  before : Text
  mark : Char
  text : Text
  after : Text
  blank_before : ∀ c ∈ before, isBlank c = true
  isMark : mark = '"' ∨ mark = '\''
  free : mark ∉ text
  blank_after : ∀ c ∈ after, isBlank c = true

/-- What stands before the requirements. -/
def listStart : Text :=
  "install_requires=[".toList

theorem listStart_eq : listStart = "install_requires".toList ++ ['=', '['] := by
  rfl

def bracketed (t : Text) : Text :=
  listStart ++ (t ++ [']'])

namespace QuotedRequirement

def written (r : QuotedRequirement) : Text :=
  r.before ++ r.mark :: (r.text ++ r.mark :: r.after)

/-- The requirements with commas between them. -/
def inside (rs : List QuotedRequirement) : Text :=
  [','].intercalate (rs.map written)

def listing (rs : List QuotedRequirement) : Text :=
  bracketed (inside rs)

/-- What the texts declare, each read on its own. -/
def declared (rs : List QuotedRequirement) : List Dependency :=
  (rs.filterMap fun r => parseRequirement r.text).map pipDependency

/-- Neither a quote mark nor a closing bracket stands in the text, and something does. -/
def isPlain (r : QuotedRequirement) : Bool :=
  !r.text.isEmpty && r.text.all fun c => noneOf "\"'" c && noneOf "]" c

end QuotedRequirement

open QuotedRequirement

variable {c d : Cursor} {p q : Progress} {before text rest lead : Text}

/-! ## Quoted texts -/

theorem noneOf_eq (members : String) (c : Char) : noneOf members c = !anyOf members c := by
  rfl

theorem takes_quoted : quoted.Takes ⟨c, []⟩ q ↔
    ∃ opening closing : Char, ∃ text : Text, anyOf "\"'" opening = true ∧
      (text ≠ [] ∧ ∀ c ∈ text, noneOf "\"'" c = true) ∧ anyOf "\"'" closing = true ∧
      ∃ d e, c.Reads [opening] d ∧ d.Reads text e ∧ e.Reads [closing] q.cursor ∧
        q.groups = [(1, d, e)] := by
  simp only [quoted, takes_sequence_cons, takes_sequence_nil, takes_group, takes_one, takes_many1]
  constructor
  · rintro ⟨p₁, ⟨opening, hopening, hopen, hgroups₁⟩, _,
      ⟨p₂, ⟨text, hne, htext, hreads, hgroups₂⟩, rfl⟩, _, ⟨closing, hclosing, hclose, hgroups⟩, rfl⟩
    refine ⟨opening, closing, text, hopening, ⟨hne, htext⟩, hclosing, p₁.cursor, p₂.cursor, hopen,
      hreads, hclose, ?_⟩
    rw [hgroups, hgroups₂, hgroups₁]
  · rintro ⟨opening, closing, text, hopening, ⟨hne, htext⟩, hclosing, d, e, hopen, hreads, hclose,
      hgroups⟩
    exact ⟨⟨d, []⟩, ⟨opening, hopening, hopen, rfl⟩, _, ⟨⟨e, []⟩, ⟨text, hne, htext, hreads, rfl⟩,
      rfl⟩, q, ⟨closing, hclosing, hclose, hgroups⟩, rfl⟩

theorem matchAt_quoted_of_noneOf {c : Char} (hc : noneOf "\"'" c = true) :
    quoted.matchAt ⟨before, c :: rest⟩ = none := by
  rw [← Option.not_isSome_iff_eq_none, isSome_matchAt]
  rintro ⟨q, htakes⟩
  obtain ⟨opening, -, -, hopening, -, -, d, -, hopen, -⟩ := takes_quoted.mp htakes
  obtain rfl : c = opening := List.head_eq_of_cons_eq hopen.rest
  rw [noneOf_eq, hopening] at hc
  cases hc

theorem matchAt_quoted {opening closing : Char} (hopening : anyOf "\"'" opening = true)
    (hne : text ≠ []) (htext : ∀ c ∈ text, noneOf "\"'" c = true)
    (hclosing : anyOf "\"'" closing = true) :
    ∃ m, quoted.matchAt ⟨before, (opening :: (text ++ [closing])) ++ rest⟩ = some m ∧
      Cursor.Reads ⟨before, (opening :: (text ++ [closing])) ++ rest⟩
        (opening :: (text ++ [closing])) m.stop ∧ m.group? 1 = some text := by
  obtain ⟨stop, hreads⟩ : ∃ stop, Cursor.Reads ⟨before, (opening :: (text ++ [closing])) ++ rest⟩
      ([opening] ++ (text ++ [closing])) stop := ⟨⟨_, rest⟩, rfl, rfl⟩
  obtain ⟨d, hopen, hrest⟩ := Cursor.Reads.append_iff.mp hreads
  obtain ⟨e, hinner, hclose⟩ := Cursor.Reads.append_iff.mp hrest
  refine ⟨_, matchAt_of_takes (q := ⟨stop, [(1, d, e)]⟩) (takes_quoted.mpr ⟨opening, closing, text,
    hopening, ⟨hne, htext⟩, hclosing, d, e, hopen, hinner, hclose, rfl⟩) ?_, hreads, ?_⟩
  · rintro ⟨stop', groups⟩ htakes
    obtain ⟨opening', closing', text', hopening', ⟨hne', htext'⟩, hclosing', d', e', hopen',
      hinner', hclose', hgroups⟩ := takes_quoted.mp htakes
    obtain rfl : opening = opening' := List.head_eq_of_cons_eq hopen'.rest
    obtain rfl := hopen.unique hopen'
    -- The text ends where the first quote mark follows, whichever of the two it is.
    have hmarks : ∀ {mark : Char} {t : Text}, anyOf "\"'" mark = true →
        ∀ c ∈ (mark :: t).head?, noneOf "\"'" c = false := by
      rintro mark t hmark c ⟨⟩
      rw [noneOf_eq, hmark]
      rfl
    have hsame : text ++ closing :: stop.rest = text' ++ closing' :: stop'.rest := by
      rw [← List.singleton_append, ← hclose.rest, ← hinner.rest, hinner'.rest, hclose'.rest]
      rfl
    obtain ⟨rfl, hafter⟩ := Text.append_unique htext htext' (hmarks hclosing) (hmarks hclosing') hsame
    obtain rfl := hinner.unique hinner'
    obtain rfl : closing = closing' := List.head_eq_of_cons_eq hafter
    obtain rfl := hclose.unique hclose'
    exact congrArg (Progress.mk stop) hgroups
  · simp [Match.group?, hinner.upTo]

/-- What a scan for quoted texts reads on from a place. -/
def quotedFrom (before rest : Text) : List Text :=
  (quoted.scan 0 before rest).filterMap (·.group? 1)

theorem quotedFrom_nil : quotedFrom before [] = [] := by
  rw [quotedFrom, scan_of_short (by decide)]
  rfl

theorem quotedFrom_passed (hlead : ∀ c ∈ lead, noneOf "\"'" c = true) :
    quotedFrom before (lead ++ rest) = quotedFrom (lead.reverse ++ before) rest := by
  rw [quotedFrom, scan_of_passed fun c hc _ _ => matchAt_quoted_of_noneOf (hlead c hc)]
  rfl

theorem quotedFrom_text {mark : Char} (hmark : anyOf "\"'" mark = true) (hne : text ≠ [])
    (htext : ∀ c ∈ text, noneOf "\"'" c = true) :
    quotedFrom before ((mark :: (text ++ [mark])) ++ rest) =
      text :: quotedFrom ((mark :: (text ++ [mark])).reverse ++ before) rest := by
  obtain ⟨m, hmatch, hreads, hgroup⟩ := matchAt_quoted hmark hne htext hmark
  rw [quotedFrom, scan_of_matchAt (by simp) hmatch hreads, List.filterMap_cons, hgroup]
  rfl

/-! ## The brackets -/

theorem takes_installRequires : installRequires.Takes ⟨c, []⟩ q ↔
    ∃ gap gap' inner : Text, (∀ c ∈ gap, isBlank c = true) ∧ (∀ c ∈ gap', isBlank c = true) ∧
      (∀ c ∈ inner, noneOf "]" c = true) ∧ ∃ d e,
        c.Reads ("install_requires".toList ++ (gap ++ (['='] ++ (gap' ++ ['['])))) d ∧
        d.Reads inner e ∧ e.Reads [']'] q.cursor ∧ q.groups = [(1, d, e)] := by
  simp only [installRequires, blanks, takes_sequence_cons, takes_sequence_nil, takes_group,
    takes_literal, takes_many, takes_char]
  constructor
  · rintro ⟨p₁, ⟨hname, hgroups₁⟩, p₂, ⟨gap, hgap, hreads₂, hgroups₂⟩, p₃, ⟨hequals, hgroups₃⟩, p₄,
      ⟨gap', hgap', hreads₄, hgroups₄⟩, p₅, ⟨hopen, hgroups₅⟩, _,
      ⟨p₆, ⟨inner, hinner, hreads, hgroups₆⟩, rfl⟩, _, ⟨hclose, hgroups⟩, rfl⟩
    refine ⟨gap, gap', inner, hgap, hgap', hinner, p₅.cursor, p₆.cursor,
      hname.trans (hreads₂.trans (hequals.trans (hreads₄.trans hopen))), hreads, hclose, ?_⟩
    rw [hgroups, hgroups₆, hgroups₅, hgroups₄, hgroups₃, hgroups₂, hgroups₁]
  · rintro ⟨gap, gap', inner, hgap, hgap', hinner, d, e, hlead, hreads, hclose, hgroups⟩
    obtain ⟨c₁, hname, hlead⟩ := Cursor.Reads.append_iff.mp hlead
    obtain ⟨c₂, hreads₂, hlead⟩ := Cursor.Reads.append_iff.mp hlead
    obtain ⟨c₃, hequals, hlead⟩ := Cursor.Reads.append_iff.mp hlead
    obtain ⟨c₄, hreads₄, hopen⟩ := Cursor.Reads.append_iff.mp hlead
    exact ⟨⟨c₁, []⟩, ⟨hname, rfl⟩, ⟨c₂, []⟩, ⟨gap, hgap, hreads₂, rfl⟩, ⟨c₃, []⟩, ⟨hequals, rfl⟩,
      ⟨c₄, []⟩, ⟨gap', hgap', hreads₄, rfl⟩, ⟨d, []⟩, ⟨hopen, rfl⟩, _,
      ⟨⟨e, []⟩, ⟨inner, hinner, hreads, rfl⟩, rfl⟩, q, ⟨hclose, hgroups⟩, rfl⟩

/-- The list between the brackets ends with the first closing bracket. -/
theorem matchAt_installRequires {inner : Text} (hinner : ∀ c ∈ inner, noneOf "]" c = true)
    (rest : Text) :
    ∃ m, installRequires.matchAt (.start (bracketed inner ++ rest)) = some m ∧
      (Cursor.start (bracketed inner ++ rest)).Reads (bracketed inner) m.stop ∧
        m.group? 1 = some inner := by
  obtain ⟨stop, hreads⟩ : ∃ stop,
      (Cursor.start (bracketed inner ++ rest)).Reads (bracketed inner) stop :=
    ⟨⟨_, rest⟩, rfl, rfl⟩
  obtain ⟨d, hlead, hrest⟩ := Cursor.Reads.append_iff.mp hreads
  obtain ⟨e, hlist, hclose⟩ := Cursor.Reads.append_iff.mp hrest
  refine ⟨_, matchAt_of_takes (q := ⟨stop, [(1, d, e)]⟩) (takes_installRequires.mpr ⟨[], [], inner,
    by simp, by simp, hinner, d, e, hlead, hlist, hclose, rfl⟩) ?_, hreads, ?_⟩
  · rintro ⟨stop', groups⟩ htakes
    obtain ⟨gap, gap', inner', hgap, hgap', hinner', d', e', hlead', hlist', hclose', hgroups⟩ :=
      takes_installRequires.mp htakes
    have hmark : ∀ {mark : Char} {t : Text}, isBlank mark = false →
        ∀ c ∈ (mark :: t).head?, isBlank c = false := by
      rintro mark t hmark c ⟨⟩
      exact hmark
    have hbracket : ∀ {t : Text}, ∀ c ∈ (']' :: t).head?, noneOf "]" c = false := by
      rintro t c ⟨⟩
      rfl
    have hsame : "install_requires".toList ++ ('=' :: '[' :: d.rest) =
        "install_requires".toList ++ (gap ++ '=' :: (gap' ++ '[' :: d'.rest)) := by
      simpa [listStart_eq] using hlead.rest.symm.trans hlead'.rest
    have hname := List.append_cancel_left hsame
    obtain ⟨rfl, hequals⟩ := Text.append_unique (s := []) (by simp) hgap (hmark (by decide))
      (hmark (by decide)) hname
    obtain ⟨rfl, -⟩ := Text.append_unique (s := []) (by simp) hgap' (hmark (by decide))
      (hmark (by decide)) (List.tail_eq_of_cons_eq hequals)
    obtain rfl := hlead.unique hlead'
    have hsame : inner ++ ']' :: stop.rest = inner' ++ ']' :: stop'.rest := by
      rw [← List.singleton_append, ← hclose.rest, ← hlist.rest, hlist'.rest, hclose'.rest]
      rfl
    obtain ⟨rfl, -⟩ := Text.append_unique hinner hinner' hbracket hbracket hsame
    obtain rfl := hlist.unique hlist'
    obtain rfl := hclose.unique hclose'
    exact congrArg (Progress.mk stop) hgroups
  · simp [Match.group?, hlist.upTo]

theorem firstGroups_installRequires {inner : Text} (hinner : ∀ c ∈ inner, noneOf "]" c = true)
    (rest : Text) :
    ∃ more, firstGroups installRequires (bracketed inner ++ rest) = inner :: more ∧
      (rest = [] → more = []) := by
  obtain ⟨m, hmatch, hreads, hgroup⟩ := matchAt_installRequires hinner rest
  have hne : bracketed inner ≠ [] := by simp [bracketed]
  rw [firstGroups, findAll, scan_of_matchAt hne hmatch hreads, List.filterMap_cons, hgroup]
  refine ⟨_, rfl, ?_⟩
  rintro rfl
  rw [scan_of_short (by decide)]
  rfl

/-! ## Listings -/

namespace QuotedRequirement

variable {r : QuotedRequirement} {rs : List QuotedRequirement}

theorem isPlain_iff : r.isPlain = true ↔ r.text ≠ [] ∧
    (∀ c ∈ r.text, noneOf "\"'" c = true) ∧ ∀ c ∈ r.text, noneOf "]" c = true := by
  simp [isPlain, forall_and]

theorem anyOf_mark (r : QuotedRequirement) : anyOf "\"'" r.mark = true := by
  rcases r.isMark with h | h <;> rw [h] <;> rfl

/-- Neither quote marks nor brackets are blank. -/
theorem noneOf_of_isBlank {c : Char} (hc : isBlank c = true) :
    noneOf "\"'" c = true ∧ noneOf "]" c = true := by
  have hne : ∀ mark : Char, isBlank mark = false → c ≠ mark := by
    rintro mark hmark rfl
    rw [hc] at hmark
    cases hmark
  have hdouble := hne '"' (by decide)
  have hsingle := hne '\'' (by decide)
  have hbracket := hne ']' (by decide)
  simp [noneOf, hdouble, hsingle, hbracket]

theorem noneOf_of_mem_written (hr : r.isPlain = true) : ∀ c ∈ r.written, noneOf "]" c = true := by
  have hmark : noneOf "]" r.mark = true := by
    rcases r.isMark with h | h <;> rw [h] <;> rfl
  have htext := (isPlain_iff.mp hr).2.2
  have hbefore := fun c hc => (noneOf_of_isBlank (r.blank_before c hc)).2
  have hafter := fun c hc => (noneOf_of_isBlank (r.blank_after c hc)).2
  simp only [written, List.forall_mem_append, List.forall_mem_cons]
  exact ⟨hbefore, hmark, htext, hmark, hafter⟩

theorem quotedFrom_written (hr : r.isPlain = true) :
    quotedFrom before (r.written ++ rest) =
      r.text :: quotedFrom (r.written.reverse ++ before) rest := by
  obtain ⟨hne, hquotes, -⟩ := isPlain_iff.mp hr
  have hshape : r.written = r.before ++ ((r.mark :: (r.text ++ [r.mark])) ++ r.after) := by
    simp [written]
  rw [hshape, List.append_assoc, List.append_assoc,
    quotedFrom_passed fun c hc => (noneOf_of_isBlank (r.blank_before c hc)).1,
    quotedFrom_text r.anyOf_mark hne hquotes,
    quotedFrom_passed fun c hc => (noneOf_of_isBlank (r.blank_after c hc)).1]
  simp only [List.reverse_append, List.append_assoc]

theorem inside_singleton (r : QuotedRequirement) : inside [r] = r.written := by
  rw [inside, List.map_singleton, List.intercalate_singleton]

theorem inside_cons_cons (r r' : QuotedRequirement) (rs : List QuotedRequirement) :
    inside (r :: r' :: rs) = r.written ++ ([','] ++ inside (r' :: rs)) := by
  rw [inside, List.map_cons, List.map_cons, List.intercalate_cons_cons, List.append_assoc]
  rfl

theorem noneOf_of_mem_inside (hrs : ∀ r ∈ rs, r.isPlain = true) :
    ∀ c ∈ inside rs, noneOf "]" c = true := by
  induction rs with
  | nil => simp [inside]
  | cons r rs ih =>
      rw [List.forall_mem_cons] at hrs
      cases rs with
      | nil => exact inside_singleton r ▸ noneOf_of_mem_written hrs.1
      | cons r' rs =>
          have hcomma : ∀ c ∈ [','], noneOf "]" c = true := by simp [noneOf]
          rw [inside_cons_cons]
          simp only [List.forall_mem_append]
          exact ⟨noneOf_of_mem_written hrs.1, hcomma, ih hrs.2⟩

theorem quotedFrom_inside (hrs : ∀ r ∈ rs, r.isPlain = true) :
    quotedFrom before (inside rs ++ rest) =
      rs.map (·.text) ++ quotedFrom ((inside rs).reverse ++ before) rest := by
  induction rs generalizing before with
  | nil => rfl
  | cons r rs ih =>
      rw [List.forall_mem_cons] at hrs
      cases rs with
      | nil => exact inside_singleton r ▸ quotedFrom_written hrs.1
      | cons r' rs =>
          have hcomma : ∀ c ∈ [','], noneOf "\"'" c = true := by simp [noneOf]
          rw [inside_cons_cons, List.append_assoc, List.append_assoc, quotedFrom_written hrs.1,
            quotedFrom_passed hcomma, ih hrs.2]
          simp [List.append_assoc]

/-- What follows some requirements in a list does not change how they are written. -/
theorem exists_inside_append (upper lower : List QuotedRequirement) :
    ∃ tail, inside (upper ++ lower) = inside upper ++ tail ∧ (lower = [] → tail = []) := by
  induction upper with
  | nil => exact ⟨inside lower, rfl, fun h => h ▸ rfl⟩
  | cons r upper ih =>
      cases upper with
      | nil =>
          cases lower with
          | nil => exact ⟨[], by simp, fun _ => rfl⟩
          | cons r' lower =>
              refine ⟨[','] ++ inside (r' :: lower), ?_, by simp⟩
              rw [List.singleton_append, inside_cons_cons, inside_singleton]
      | cons r' upper =>
          obtain ⟨tail, htail, hnil⟩ := ih
          refine ⟨tail, ?_, hnil⟩
          rw [List.cons_append, List.cons_append, inside_cons_cons, inside_cons_cons,
            ← List.cons_append, htail]
          simp only [List.append_assoc]

theorem parseSetupPy_inside_append (hrs : ∀ r ∈ rs, r.isPlain = true) (tail : Text) :
    ∃ more, parseSetupPy (bracketed (inside rs ++ tail)) = declared rs ++ more ∧
      (tail = [] → more = []) := by
  -- The list is read up to the first bracket, which may stand in the tail.
  have hcloses : ']' ∈ tail ++ [']'] := by simp
  obtain ⟨inner, beyond, hcut, hinner⟩ := List.eq_append_cons_of_mem hcloses
  have hnone : ∀ c ∈ inside rs ++ inner, noneOf "]" c = true := by
    have hfree : ∀ c ∈ inner, noneOf "]" c = true := by
      intro c hc
      simpa [noneOf] using fun h : c = ']' => hinner (h ▸ hc)
    exact List.forall_mem_append.mpr ⟨noneOf_of_mem_inside hrs, hfree⟩
  have hshape : bracketed (inside rs ++ tail) = bracketed (inside rs ++ inner) ++ beyond := by
    simp only [bracketed, List.append_assoc, hcut, List.singleton_append]
  obtain ⟨more, hgroups, hmore⟩ := firstGroups_installRequires hnone beyond
  have hread : firstGroups quoted (inside rs ++ inner) =
      rs.map (·.text) ++ quotedFrom ((inside rs).reverse ++ []) inner :=
    quotedFrom_inside hrs
  refine ⟨((quotedFrom ((inside rs).reverse ++ []) inner ++ more.flatMap (firstGroups quoted)).filterMap
    parseRequirement).map pipDependency, ?_, ?_⟩
  · rw [parseSetupPy, hshape, hgroups, List.flatMap_cons, hread, List.append_assoc,
      List.filterMap_append, List.map_append, List.filterMap_map]
    rfl
  · rintro rfl
    have hends : inner = [] ∧ beyond = [] := by
      cases inner with
      | nil => simpa using hcut.symm
      | cons c inner => simp at hcut
    rw [hmore hends.2, hends.1, quotedFrom_nil]
    rfl

/-- The requirements up to the first one that is not plain are all read, in order, and nothing else
is when all are plain. -/
theorem parseSetupPy_listing (rs : List QuotedRequirement) :
    declared (rs.takeWhile isPlain) <+: parseSetupPy (listing rs) ∧
      ((∀ r ∈ rs, r.isPlain = true) → parseSetupPy (listing rs) = declared rs) := by
  constructor
  · obtain ⟨tail, htail, -⟩ := exists_inside_append (rs.takeWhile isPlain) (rs.dropWhile isPlain)
    rw [List.takeWhile_append_dropWhile] at htail
    have hplain : ∀ r ∈ rs.takeWhile isPlain, r.isPlain = true :=
      List.all_eq_true.mp List.all_takeWhile
    obtain ⟨more, hread, -⟩ := parseSetupPy_inside_append hplain tail
    rw [listing, htail, hread]
    exact List.prefix_append _ _
  · intro hplain
    obtain ⟨more, hread, hmore⟩ := parseSetupPy_inside_append hplain []
    rw [hmore rfl, List.append_nil, List.append_nil] at hread
    exact hread

def clickAndYaml : List QuotedRequirement :=
  [{ before := [], mark := '"', text := "click>=8".toList, after := []
     blank_before := by simp, isMark := .inl rfl, free := by decide, blank_after := by simp },
   { before := ['\n', ' '], mark := '\'', text := "pyyaml".toList, after := [' ']
     blank_before := by simp [isBlank], isMark := .inr rfl, free := by decide, blank_after := by simp [isBlank] }]

theorem clickAndYaml_read :
    parseSetupPy (listing clickAndYaml) =
      [{ name := "click", version := ">=8", ecosystem := .pip },
       { name := "pyyaml", version := "*", ecosystem := .pip }] := by
  have hplain : ∀ r ∈ clickAndYaml, r.isPlain = true := by decide
  rw [(parseSetupPy_listing clickAndYaml).2 hplain]
  cbv

def extrasFirst : List QuotedRequirement :=
  [{ before := [], mark := '"', text := "a[x]".toList, after := []
     blank_before := by simp, isMark := .inl rfl, free := by decide, blank_after := by simp },
   { before := [' '], mark := '"', text := "b".toList, after := []
     blank_before := by simp [isBlank], isMark := .inl rfl, free := by decide, blank_after := by simp }]

/-- The bracket that closes the extras ends the list, and no requirement is read. -/
theorem extrasFirst_unread :
    parseSetupPy (listing extrasFirst) = [] ∧
      declared extrasFirst =
        [{ name := "a", version := "*", ecosystem := .pip },
         { name := "b", version := "*", ecosystem := .pip }] := by
  constructor <;> cbv

end QuotedRequirement
end RepoAudit.Manifest
