import RepoAudit.Proofs.Pattern.Offsets
import RepoAudit.Proofs.Pattern.Preferred
import RepoAudit.Proofs.Performance.LoopNesting
import Mathlib

/-!
# The places of findings

The detectors are followed once more, now with every place as a byte offset and every body as a
slice of the text.  No slice is missing, and each finding is on the line on which the match, the
header of the block or the word it reports begins.
-/

namespace RepoAudit

theorem mapM_eq_some {α β : Type} {f : α → Option β} {g : α → β} {l : List α}
    (h : ∀ a ∈ l, f a = some (g a)) : l.mapM f = some (l.map g) := by
  induction l with
  | nil => rfl
  | cons a l ih =>
      rw [List.forall_mem_cons] at h
      rw [List.mapM_cons, h.1, ih h.2]
      rfl

namespace Detector

open Pattern

variable {f : SourceFile} {content : Text} {m : Match} {pattern : Pattern}

/-! ## Bodies as slices -/

def braceBodyAt? (content : Text) (start : Nat) : Option Text :=
  (content.sliceFrom? start).bind fun rest =>
    match rest.findByte? ['}'] with
    | some stop => rest.slice? 0 (stop + 1)
    | none => some rest

/-- The offset of the brace that closes the ones opened in the text. -/
def closingByte? : (depth offset : Nat) → Text → Option Nat
  | _, _, [] => none
  | depth, offset, c :: rest =>
      if c == '{' then closingByte? (depth + 1) (offset + c.utf8Size) rest
      else if c == '}' then
        if depth - 1 = 0 then some offset else closingByte? (depth - 1) (offset + c.utf8Size) rest
      else closingByte? depth (offset + c.utf8Size) rest

def balancedBodyAt? (content : Text) (start : Nat) : Option Text :=
  (content.sliceFrom? start).bind fun rest =>
    match closingByte? 0 0 rest with
    | some offset => content.slice? start (start + offset + 1)
    | none => some rest

/-- The body of a function whose head ends with the opening brace. -/
def functionBodyAt? (content : Text) (stop : Nat) : Option Text :=
  if 1 ≤ stop then balancedBodyAt? content (stop - 1) else none

def blockAt? (lines : List Text) (header : Text) (index : Nat) : Option (List Text) :=
  if index + 1 ≤ lines.length then some (blockLines (indentation header) (lines.drop (index + 1)))
  else none

theorem braceBodyAt?_append (lead rest : Text) :
    braceBodyAt? (lead ++ rest) (Text.byteSize lead) = some (braceBody rest) := by
  have hinside : '}' ∉ rest.before '}' := Text.not_mem_before '}' rest
  rw [braceBodyAt?, Text.sliceFrom?_append, Option.bind_some]
  rcases Text.findByte?_singleton '}' rest with ⟨hwhole, hnone⟩ | ⟨more, hcut, hsome⟩
  · have hbody : braceBody rest = rest := by
      have happend := braceBody_append hinside []
      rw [List.append_nil, ← hwhole] at happend
      exact happend.trans (List.append_nil rest)
    rw [hnone, hbody]
  · have hbody : braceBody rest = rest.before '}' ++ ['}'] := by
      conv_lhs => rw [hcut, braceBody_append hinside]
      rfl
    have hslice := Text.slice?_append [] (rest.before '}' ++ ['}']) more
    rw [List.nil_append, List.append_assoc, List.singleton_append, ← hcut, Text.byteSize_append,
      Text.byteSize_nil, Nat.zero_add] at hslice
    rw [hsome, hbody]
    exact hslice

/-- The balanced text ends with the closing brace that is found, or is the whole text. -/
def ClosesAt (depth offset : Nat) (t : Text) : Prop :=
  closingByte? depth offset t = none ∧ balancedFrom depth t = t ∨
    ∃ lead rest : Text, t = lead ++ '}' :: rest ∧
      closingByte? depth offset t = some (offset + Text.byteSize lead) ∧
      balancedFrom depth t = lead ++ ['}']

theorem ClosesAt.cons {depth depth' offset : Nat} {c : Char} {t : Text}
    (hclosing : closingByte? depth offset (c :: t) =
      closingByte? depth' (offset + c.utf8Size) t)
    (hbalanced : balancedFrom depth (c :: t) = c :: balancedFrom depth' t)
    (h : ClosesAt depth' (offset + c.utf8Size) t) : ClosesAt depth offset (c :: t) := by
  rw [ClosesAt, hclosing, hbalanced]
  rcases h with ⟨hnone, hall⟩ | ⟨lead, rest, rfl, hsome, hbody⟩
  · exact .inl ⟨hnone, congrArg (c :: ·) hall⟩
  · refine .inr ⟨c :: lead, rest, rfl, ?_, congrArg (c :: ·) hbody⟩
    rw [hsome, Text.byteSize_cons, Nat.add_assoc]

theorem closesAt (depth offset : Nat) (t : Text) : ClosesAt depth offset t := by
  induction t generalizing depth offset with
  | nil => exact .inl ⟨rfl, rfl⟩
  | cons c t ih =>
      by_cases hopen : c = '{'
      · subst hopen
        exact .cons rfl rfl (ih (depth + 1) _)
      by_cases hclose : c = '}'
      · subst hclose
        by_cases hdepth : depth ≤ 1
        · have hzero : depth - 1 = 0 := by omega
          exact .inr ⟨[], t, rfl, by simp [closingByte?, hzero], by simp [balancedFrom, hdepth]⟩
        · have hpos : depth - 1 ≠ 0 := by omega
          exact .cons (by simp [closingByte?, hpos]) (by simp [balancedFrom, hdepth])
            (ih (depth - 1) _)
      · exact .cons (by simp [closingByte?, hopen, hclose])
          (by simp [balancedFrom, hopen, hclose]) (ih depth _)

theorem balancedBodyAt?_append (lead rest : Text) :
    balancedBodyAt? (lead ++ rest) (Text.byteSize lead) = some (balancedBody rest) := by
  rw [balancedBodyAt?, Text.sliceFrom?_append, Option.bind_some, balancedBody]
  rcases closesAt 0 0 rest with ⟨hnone, hall⟩ | ⟨inside, after, hcut, hsome, hbody⟩
  · rw [hnone, hall]
  · rw [hsome, hbody]
    have hslice := Text.slice?_append lead (inside ++ ['}']) after
    have hbrace : Text.byteSize ['}'] = 1 := rfl
    rw [List.append_assoc inside, List.singleton_append, ← hcut, Text.byteSize_append, hbrace,
      ← Nat.add_assoc] at hslice
    simpa using hslice

/-! ## The two sides of a match -/

theorem content_eq_of_mem_findAll (hm : m ∈ pattern.findAll content) :
    content = m.start.before.reverse ++ m.start.rest ∧
      content = m.stop.before.reverse ++ m.stop.rest := by
  obtain ⟨htext, hreads, -⟩ := reads_of_mem_findAll hm
  exact ⟨htext.symm, (hreads.text.trans htext).symm⟩

theorem braceBodyAt?_stop (hm : m ∈ pattern.findAll content) :
    braceBodyAt? content m.stop.offset = some (braceBody m.stop.rest) := by
  conv_lhs => rw [(content_eq_of_mem_findAll hm).2]
  exact braceBodyAt?_append _ _

/-- What a match of the head of a function takes ends with the opening brace. -/
theorem exists_brace_of_mem_scriptAsync (hm : m ∈ scriptAsync.findAll content) :
    ∃ head, m.text = head ++ ['{'] := by
  have hadmits : scriptAsync.Admits m.text := admits_of_mem_findAll hm
  have hsize : 0 < m.text.length := (by decide : 0 < scriptAsync.minSize).trans_le hadmits.size
  have hbrace : ∀ c, scriptAsync.closes c = true → c = '{' := by
    intro c hc
    simpa [scriptAsync, Pattern.sequence, firstOf, closes, Pattern.char, minSize] using hc
  obtain ⟨head, c, hlast⟩ := (List.eq_nil_or_concat' m.text).resolve_left
    (List.ne_nil_of_length_pos hsize)
  have hc := hbrace c (hadmits.last c (by simp [hlast]))
  exact ⟨head, hc ▸ hlast⟩

theorem functionBodyAt?_stop (hm : m ∈ scriptAsync.findAll content) :
    functionBodyAt? content m.stop.offset = some (balancedBody ('{' :: m.stop.rest)) := by
  have hreads : m.start.Reads m.text m.stop := (reads_of_mem_findAll hm).2.1
  obtain ⟨head, hhead⟩ := exists_brace_of_mem_scriptAsync hm
  have hcontent : content =
      (m.start.before.reverse ++ head) ++ '{' :: m.stop.rest := by
    rw [(content_eq_of_mem_findAll hm).1, hreads.rest, hhead]
    simp
  have hoffset : m.stop.offset = Text.byteSize (m.start.before.reverse ++ head) + 1 := by
    rw [Cursor.offset, hreads.before, hhead, List.reverse_append, List.reverse_reverse,
      ← List.append_assoc, Text.byteSize_append]
    rfl
  rw [functionBodyAt?, hoffset, if_pos (Nat.le_add_left 1 _), Nat.add_sub_cancel]
  conv_lhs => rw [hcontent]
  exact balancedBodyAt?_append _ _

/-! ## Sites -/

/-- The place of a construct: the byte at which it begins, or the line that it is, counted from
zero. -/
inductive Site where
  | byte (offset : Nat)
  | line (index : Nat)
  deriving DecidableEq

namespace Site

/-- The number of the line that a finding at the site gets. -/
def number? (content : Text) : Site → Option Nat
  | .byte offset => content.lineAtByte? offset
  | .line index => some (index + 1)

/-- The line with the number is the one on which the site is. -/
def BeginsOn (content : Text) : Site → Nat → Prop
  | .byte offset, number => ∃ before rest : Text, content = before ++ rest ∧
      offset = Text.byteSize before ∧ Text.BeginsOn before rest number
  | .line index, number => number = index + 1 ∧ index < content.lines.length

end Site

/-- What the pattern takes is not empty and does not begin with the end of a line. -/
def BeginsInLine (p : Pattern) : Prop :=
  0 < p.minSize ∧ p.opens '\n' = false ∧ p.opens '\r' = false

instance (p : Pattern) : Decidable (BeginsInLine p) :=
  inferInstanceAs (Decidable (_ ∧ _ ∧ _))

/-- The finding is about the site, on a line of the text. -/
def Reports (content : Text) (site : Site) (finding : Finding) : Prop :=
  ∃ number, site.number? content = some number ∧ finding.line = some number ∧
    1 ≤ number ∧ number ≤ content.lines.length ∧ site.BeginsOn content number

/-- A line never comes before the one of an earlier finding. -/
def InLineOrder (findings : List Finding) : Prop :=
  findings.Pairwise fun a b => ∀ m ∈ a.line, ∀ n ∈ b.line, m ≤ n

theorem reports_byte {before rest : Text} {c : Char} {finding : Finding}
    (hcontent : content = before ++ rest) (hhead : rest.head? = some c) (hfeed : c ≠ '\n')
    (hreturn : c ≠ '\r') (hline : finding.line = some (before.count '\n' + 1)) :
    Reports content (.byte (Text.byteSize before)) finding := by
  have hbegins : Text.BeginsOn before rest (before.count '\n' + 1) :=
    Text.beginsOn_count hhead hfeed hreturn
  subst hcontent
  exact ⟨_, Text.lineAtByte?_append before rest, hline, hbegins.pos, hbegins.le,
    before, rest, rfl, rfl, hbegins⟩

theorem reports_line {index : Nat} {finding : Finding} (hindex : index < content.lines.length)
    (hline : finding.line = some (index + 1)) : Reports content (.line index) finding :=
  ⟨_, rfl, hline, Nat.le_add_left 1 index, hindex, rfl, hindex⟩

theorem reports_match {finding : Finding} (hbegins : BeginsInLine pattern)
    (hm : m ∈ pattern.findAll content) (hline : finding.line = some m.line) :
    Reports content (.byte m.start.offset) finding := by
  have hreads : m.start.Reads m.text m.stop := (reads_of_mem_findAll hm).2.1
  have hadmits : pattern.Admits m.text := admits_of_mem_findAll hm
  obtain ⟨hsize, hfeed, hreturn⟩ := hbegins
  obtain ⟨c, more, htext⟩ := List.exists_cons_of_length_pos (hsize.trans_le hadmits.size)
  have hopens : pattern.opens c = true := hadmits.head c (by simp [htext])
  have hhead : m.start.rest.head? = some c := by
    rw [hreads.rest, htext]
    rfl
  refine reports_byte (content_eq_of_mem_findAll hm).1 hhead ?_ ?_ ?_
  · rintro rfl
    simp [hfeed] at hopens
  · rintro rfl
    simp [hreturn] at hopens
  · rw [hline, List.count_reverse]
    rfl

/-! ## Searches for sites -/

def blockSites? (f : SourceFile) (header : Pattern) (suspicious : Text → Bool) :
    Option (List Site) :=
  ((headerLines header f.content.lines).mapM fun entry =>
    (blockAt? f.content.lines entry.1 entry.2).map fun block => (entry.2, block)).map fun blocks =>
      (blocks.filter fun (_, block) => block.any suspicious).map fun (index, _) => .line index

def matchSites? (f : SourceFile) (p : Pattern) (body? : Nat → Option Text)
    (suspicious : Text → Bool) : Option (List Site) :=
  ((p.findAll f.content).mapM fun m =>
    (body? m.stop.offset).map fun body => (m, body)).map fun bodies =>
      (bodies.filter fun (_, body) => suspicious body).map fun (m, _) => .byte m.start.offset

def loopSites? (check : LoopCheck) (f : SourceFile) : Option (List Site) :=
  if f.isPython then blockSites? f pythonLoop check.inLine
  else matchSites? f scriptLoop (braceBodyAt? f.content) check.inBody

def asyncSites? (f : SourceFile) : Option (List Site) :=
  if f.isPython then blockSites? f pythonAsync (·.containsAny pythonBlockingCalls)
  else matchSites? f scriptAsync (functionBodyAt? f.content) syncCall.occursIn

def leakSites (f : SourceFile) : List Site :=
  (leakPairs.filter fun pair => !f.content.containsAny pair.releases).flatMap fun pair =>
    (pair.acquire.findAll f.content).map fun m => .byte m.start.offset

/-- The offset in the small letters is used in the text as it is. -/
def cacheSites (f : SourceFile) : List Site :=
  match f.content.lower.findByte? "cache".toList with
  | some offset => if f.content.lower.containsAny cacheBounds then [] else [.byte offset]
  | none => []

def jsonSites (f : SourceFile) : List Site :=
  (wholeJson.findAll f.content).map fun m => .byte m.start.offset

def indexSites (f : SourceFile) : List Site :=
  (filteredQuery.first? f.content).toList.map fun m => .byte m.start.offset

/-- The searches of the detectors, in their order.  A search has no result when a slice is out of
range or cuts a character. -/
def siteSearches : List (SourceFile → Option (List Site)) :=
  [loopSites? nPlusOneCheck, loopSites? quadraticCheck, asyncSites?, fun f => some (leakSites f),
    fun f => some (cacheSites f), fun f => some (jsonSites f), fun f => some (indexSites f)]

/-- The findings report the sites one by one, in the order of the lines. -/
structure Placed (content : Text) (sites : List Site) (findings : List Finding) : Prop where
  reports : List.Forall₂ (Reports content) sites findings
  ordered : InLineOrder findings

theorem blockAt?_of_mem {header : Pattern} {lines : List Text} {entry : Text × Nat}
    (h : entry ∈ headerLines header lines) :
    blockAt? lines entry.1 entry.2 =
      some (blockLines (indentation entry.1) (lines.drop (entry.2 + 1))) := by
  obtain ⟨hlt, -⟩ := List.getElem?_eq_some_iff.mp (mem_headerLines.mp h).1
  exact if_pos hlt

theorem blockSites?_eq (f : SourceFile) (header : Pattern) (suspicious : Text → Bool) :
    blockSites? f header suspicious =
      some (((headerLines header f.content.lines).filter fun entry =>
        (blockLines (indentation entry.1) (f.content.lines.drop (entry.2 + 1))).any suspicious).map
          fun entry => .line entry.2) := by
  have hblocks : ∀ entry ∈ headerLines header f.content.lines,
      ((blockAt? f.content.lines entry.1 entry.2).map fun block => (entry.2, block)) =
        some (entry.2,
          blockLines (indentation entry.1) (f.content.lines.drop (entry.2 + 1))) := by
    intro entry hentry
    rw [blockAt?_of_mem hentry]
    rfl
  rw [blockSites?, mapM_eq_some hblocks, Option.map_some, List.filter_map, List.map_map]
  rfl

theorem matchSites?_eq {p : Pattern} {body? : Nat → Option Text} {body : Match → Text}
    (hbody : ∀ m ∈ p.findAll f.content, body? m.stop.offset = some (body m))
    (suspicious : Text → Bool) :
    matchSites? f p body? suspicious =
      some (((p.findAll f.content).filter fun m => suspicious (body m)).map
        fun m => .byte m.start.offset) := by
  have hbodies : ∀ m ∈ p.findAll f.content,
      ((body? m.stop.offset).map fun body => (m, body)) = some (m, body m) := by
    intro m hm
    rw [hbody m hm]
    rfl
  rw [matchSites?, mapM_eq_some hbodies, Option.map_some, List.filter_map, List.map_map]
  rfl

theorem placed_blocks {finding : Nat → Finding} (hline : ∀ n, (finding n).line = some n)
    (f : SourceFile) (header : Pattern) (suspicious : Text → Bool) :
    ∃ sites, blockSites? f header suspicious = some sites ∧
      Placed f.content sites (inBlocks f header suspicious finding) := by
  refine ⟨_, blockSites?_eq f header suspicious, ?_, ?_⟩
  · rw [inBlocks_eq, List.forall₂_map_left_iff, List.forall₂_map_right_iff, List.forall₂_same]
    intro entry hentry
    obtain ⟨hlt, -⟩ := List.getElem?_eq_some_iff.mp
      (mem_headerLines.mp (List.mem_of_mem_filter hentry)).1
    exact reports_line hlt (hline _)
  · have hordered := pairwise_headerLines header f.content.lines
    rw [inBlocks_eq]
    refine List.pairwise_map.mpr ((hordered.sublist List.filter_sublist).imp fun hlt => ?_)
    rw [hline, hline]
    rintro k ⟨⟩ l ⟨⟩
    exact Nat.succ_le_succ hlt.le

theorem placed_matches {finding : Nat → Finding} (hline : ∀ n, (finding n).line = some n)
    {ms : List Match} (hbegins : BeginsInLine pattern) (hms : ms.Sublist (pattern.findAll content)) :
    Placed content (ms.map fun m => .byte m.start.offset) (ms.map fun m => finding m.line) := by
  constructor
  case reports =>
    rw [List.forall₂_map_left_iff, List.forall₂_map_right_iff, List.forall₂_same]
    exact fun m hm => reports_match hbegins (hms.subset hm) (hline _)
  case ordered =>
    have hordered : ms.Pairwise fun m n => m.line ≤ n.line :=
      ((pairwise_scan pattern 0 [] content).sublist hms).imp Cursor.Precedes.line_le
    refine List.pairwise_map.mpr (hordered.imp fun hle => ?_)
    rw [hline, hline]
    rintro k ⟨⟩ l ⟨⟩
    exact hle

theorem placed_atMatches {finding : Nat → Finding} (hline : ∀ n, (finding n).line = some n)
    (f : SourceFile) {p : Pattern} (hbegins : BeginsInLine p) {body? : Nat → Option Text}
    {body : Match → Text} (hbody : ∀ m ∈ p.findAll f.content, body? m.stop.offset = some (body m))
    (suspicious : Text → Bool) :
    ∃ sites, matchSites? f p body? suspicious = some sites ∧
      Placed f.content sites (atMatches f p (fun m => suspicious (body m)) finding) :=
  ⟨_, matchSites?_eq hbody suspicious, placed_matches hline hbegins List.filter_sublist⟩

theorem placed_loops {check : LoopCheck} (hcheck : check ∈ loopChecks) (f : SourceFile) :
    ∃ sites, loopSites? check f = some sites ∧
      Placed f.content sites (check.detector.detect f) := by
  obtain ⟨finding, hline, hdetect⟩ := LoopCheck.detect_eq hcheck f
  rw [hdetect, loopSites?]
  split
  · exact placed_blocks hline f pythonLoop check.inLine
  · exact placed_atMatches hline f (by decide +kernel) (fun _ => braceBodyAt?_stop) check.inBody

theorem placed_async (f : SourceFile) :
    ∃ sites, asyncSites? f = some sites ∧ Placed f.content sites (syncIoInAsync.detect f) := by
  rw [asyncSites?, syncIoInAsync]
  dsimp only
  split
  · exact placed_blocks (fun _ => rfl) f pythonAsync _
  · exact placed_atMatches (fun _ => rfl) f (by decide +kernel) (fun _ => functionBodyAt?_stop)
      syncCall.occursIn

theorem placed_all {finding : Nat → Finding} (hline : ∀ n, (finding n).line = some n)
    (f : SourceFile) {p : Pattern} (hbegins : BeginsInLine p) :
    Placed f.content ((p.findAll f.content).map fun m => .byte m.start.offset)
      (atMatches f p (fun _ => true) finding) := by
  rw [atMatches, List.filter_true]
  exact placed_matches hline hbegins (List.Sublist.refl _)

theorem placed_single {site : Site} {finding : Finding} (h : Reports content site finding) :
    Placed content [site] [finding] :=
  ⟨.cons h .nil, List.pairwise_singleton _ _⟩

theorem reports_leaks (f : SourceFile) :
    List.Forall₂ (Reports f.content) (leakSites f) (memoryLeak.detect f) := by
  obtain ⟨finding, hline, hdetect⟩ : ∃ finding : LeakPair → Nat → Finding,
      (∀ pair n, (finding pair n).line = some n) ∧
        memoryLeak.detect f =
          (leakPairs.filter fun pair => !f.content.containsAny pair.releases).flatMap fun pair =>
            atMatches f pair.acquire (fun _ => true) (finding pair) :=
    ⟨_, fun _ _ => rfl, rfl⟩
  have hbegins : ∀ pair ∈ leakPairs, BeginsInLine pair.acquire := by
    decide +kernel
  have hpairs : List.Forall₂ (fun p q : LeakPair => p = q ∧ BeginsInLine p.acquire)
      (leakPairs.filter fun pair => !f.content.containsAny pair.releases)
      (leakPairs.filter fun pair => !f.content.containsAny pair.releases) :=
    List.forall₂_same.mpr fun pair hpair => ⟨rfl, hbegins pair (List.mem_of_mem_filter hpair)⟩
  rw [hdetect, leakSites]
  refine List.rel_flatMap hpairs ?_
  rintro pair _ ⟨rfl, hacquire⟩
  exact (placed_all (hline pair) f hacquire).reports

theorem placed_cache (f : SourceFile) :
    Placed f.content (cacheSites f) (unboundedCache.detect f) := by
  rw [cacheSites, unboundedCache]
  dsimp only
  rw [Text.findByte?, first?, firstFrom_literal]
  cases hcut : Text.cutAt? "cache".toList f.content.lower with
  | none => exact ⟨.nil, .nil⟩
  | some cut =>
      obtain ⟨lead, after⟩ := cut
      simp only [Option.map_some, List.append_nil]
      split
      · exact ⟨.nil, .nil⟩
      · -- The small letters are cut where the text itself is.
        obtain ⟨before, rest, hcontent, hlead, hrest⟩ :=
          List.map_eq_append_iff.mp (Text.eq_of_cutAt? hcut)
        obtain ⟨c, rest, rfl, hc, -⟩ := List.map_eq_cons_iff.mp hrest
        obtain rfl : Text.lower before = lead := hlead
        rw [Text.byteSize_lower]
        apply placed_single
        apply reports_byte hcontent rfl
        · rintro rfl
          exact absurd hc (by decide)
        · rintro rfl
          exact absurd hc (by decide)
        · rw [Match.line, Cursor.line, List.count_reverse, Text.count_lower]

theorem placed_json (f : SourceFile) :
    Placed f.content (jsonSites f) (largeJson.detect f) := by
  have hbegins : BeginsInLine wholeJson := by decide +kernel
  rw [jsonSites, largeJson]
  dsimp only
  exact placed_all (fun _ => rfl) f hbegins

theorem placed_index (f : SourceFile) :
    Placed f.content (indexSites f) (missingIndex.detect f) := by
  have hbegins : BeginsInLine filteredQuery := by decide +kernel
  rw [indexSites, missingIndex]
  dsimp only
  cases hfirst : filteredQuery.first? f.content with
  | none => exact ⟨.nil, .nil⟩
  | some m =>
      exact placed_single (reports_match hbegins (mem_findAll_of_first? hfirst) rfl)

/-- A detector whose search has a result, with one finding for each site that is found. -/
structure Located (f : SourceFile) (d : Detector) (search : SourceFile → Option (List Site)) :
    Prop where
  reports : ∃ sites, search f = some sites ∧ List.Forall₂ (Reports f.content) sites (d.detect f)
  ordered : d.name ≠ "memory-leak" → InLineOrder (d.detect f)

theorem located_of_placed {d : Detector} {search : SourceFile → Option (List Site)}
    (h : ∃ sites, search f = some sites ∧ Placed f.content sites (d.detect f)) :
    Located f d search := by
  obtain ⟨sites, hsites, hplaced⟩ := h
  exact ⟨⟨sites, hsites, hplaced.reports⟩, fun _ => hplaced.ordered⟩

/-- Every detector cuts its slices within the text and between characters, and what it finds begins
on the line that is reported.  The lines never go back, except from one kind of leak to the next. -/
theorem findings_located (f : SourceFile) : List.Forall₂ (Located f) builtIn siteSearches := by
  have hnested : nPlusOneCheck ∈ loopChecks := List.mem_cons_self
  have hquadratic : quadraticCheck ∈ loopChecks := List.mem_cons_of_mem _ List.mem_cons_self
  have hleaks : Located f memoryLeak fun f => some (leakSites f) :=
    ⟨⟨_, rfl, reports_leaks f⟩, fun hname => absurd rfl hname⟩
  refine .cons (located_of_placed (placed_loops hnested f)) ?_
  refine .cons (located_of_placed (placed_loops hquadratic f)) ?_
  refine .cons (located_of_placed (placed_async f)) ?_
  refine .cons hleaks ?_
  refine .cons (located_of_placed ⟨_, rfl, placed_cache f⟩) ?_
  refine .cons (located_of_placed ⟨_, rfl, placed_json f⟩) ?_
  exact .cons (located_of_placed ⟨_, rfl, placed_index f⟩) .nil

/-- Two of the characters before the word take two bytes each. -/
example : cacheSites ⟨"größe\nCACHE = 1".toList, .javaScript⟩ = [.byte 8] := by
  decide +kernel

end Detector
end RepoAudit
