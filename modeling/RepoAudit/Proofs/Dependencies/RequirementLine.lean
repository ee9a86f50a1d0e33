import RepoAudit.Dependencies.Manifest
import RepoAudit.Proofs.Pattern.Preferred
import RepoAudit.Proofs.Pattern.Matches
import RepoAudit.Proofs.Text.Search
import RepoAudit.Proofs.Text.Words

/-!
# The requirement that a line states

A line states a requirement unless it is empty, an option or an address once its comment and its
marker are gone.  The name goes as far as its characters do, extras in brackets right behind it are
left out, and the rest is the version.  Read again, a name and a version give themselves.
-/

namespace RepoAudit.Manifest

open Pattern

/-- A line without its comment and its marker. -/
def bareLine (line : Text) : Text :=
  Text.trim ((line.before '#').before ';')

/-- Nothing is left, or an option, an address, or something that has no name in front. -/
def StatesNothing (t : Text) : Prop :=
  t = [] ∨ t.head? = some '-' ∨ "://".toList <:+: t ∨ ∀ c ∈ t.head?, c.isAlphanum = false

/-- The longest part of a text, from its start, with characters of a class only. -/
structure IsLongestLead (member : Char → Bool) (lead t : Text) : Prop where
  leads : lead <+: t
  inClass : ∀ c ∈ lead, member c = true
  longest : ∀ other, other <+: t → (∀ c ∈ other, member c = true) → other <+: lead

namespace IsLongestLead

variable {member : Char → Bool} {lead rest : Text}

theorem of_append (hlead : ∀ c ∈ lead, member c = true)
    (hrest : ∀ c ∈ rest.head?, member c = false) : IsLongestLead member lead (lead ++ rest) where
  leads := List.prefix_append lead rest
  inClass := hlead
  longest := by
    rintro other ⟨after, hafter⟩ hother
    rcases List.append_eq_append_iff.mp hafter with ⟨more, hmore, -⟩ | ⟨more, hmore, hcut⟩
    · exact ⟨more, hmore.symm⟩
    · cases more with
      | nil => rw [hmore, List.append_nil]
      | cons c more =>
          have hin : member c = true := hother c (by simp [hmore])
          have hout : member c = false := hrest c (by simp [hcut])
          rw [hin] at hout
          cases hout

theorem head?_rest (h : IsLongestLead member lead (lead ++ rest)) :
    ∀ c ∈ rest.head?, member c = false := by
  cases rest with
  | nil => simp
  | cons c rest =>
      rintro d ⟨⟩
      by_contra hc
      have hlonger : lead ++ [c] <+: lead := by
        apply h.longest
        · exact ⟨rest, by simp⟩
        · exact List.forall_mem_append.mpr ⟨h.inClass, by simpa using hc⟩
      have hlength := hlonger.length_le
      rw [List.length_append, List.length_singleton] at hlength
      omega

end IsLongestLead

/-- Extras in brackets are dropped from the front of a text; a bracket that is not closed is none. -/
inductive DropsExtras : Text → Text → Prop
  | extras (inner after : Text) (unclosed : ']' ∉ inner) :
      DropsExtras ('[' :: (inner ++ ']' :: after)) after
  | none (t : Text) (no_extras : ∀ inner after, t ≠ '[' :: (inner ++ ']' :: after)) :
      DropsExtras t t

/-- The parts of a text that states a requirement. -/
structure Requires (t name rest after : Text) : Prop where
  named : ∃ c ∈ name.head?, c.isAlphanum = true
  longest : IsLongestLead isNameChar name t
  cut : t = name ++ rest
  extras : DropsExtras rest after

def statedVersion (after : Text) : String :=
  if after.trim.isEmpty then "*" else String.ofList after.trim

variable {before t line rest after name : Text} {groups : List (Nat × Cursor × Cursor)}

/-! ## Matching -/

theorem advance_char (mark : Char) (next : Progress → Option α) :
    (char mark).advance ⟨⟨before, mark :: rest⟩, groups⟩ next =
      next ⟨⟨mark :: before, rest⟩, groups⟩ := by
  simp [char, advance]

/-- Extras are taken when they are there, and otherwise nothing is. -/
theorem advance_extras (before : Text) (h : DropsExtras rest after) {next : Progress → Option Match}
    {Found : Match → Prop}
    (hnext : ∀ before, ∃ m, next ⟨⟨before, after⟩, groups⟩ = some m ∧ Found m) :
    ∃ m, (perhaps (sequence [char '[', many (noneOf "]"), char ']'])).advance
      ⟨⟨before, rest⟩, groups⟩ next = some m ∧ Found m := by
  cases h with
  | extras inner after unclosed =>
      obtain ⟨m, hm, hfound⟩ := hnext (']' :: (inner.reverse ++ '[' :: before))
      refine ⟨m, ?_, hfound⟩
      have hinner : ∀ c ∈ inner, noneOf "]" c = true := by
        intro c hc
        simpa [noneOf] using fun h : c = ']' => unclosed (h ▸ hc)
      -- The class of the run leaves the closing bracket out, so the run stops there at once.
      have hclose : takeMost (noneOf "]") (fun c => (char ']').advance ⟨c, groups⟩ next)
          ('[' :: before) (inner ++ ']' :: after) = some m := by
        apply takeMost_append hinner
        · rintro c ⟨⟩
          rfl
        · rw [advance_char, hm]
      change ((char '[').advance ⟨⟨before, '[' :: (inner ++ ']' :: after)⟩, groups⟩ (fun p =>
        takeMost (noneOf "]") (fun c => (char ']').advance ⟨c, p.groups⟩ next)
          p.cursor.before p.cursor.rest) <|> next _) = some m
      rw [advance_char, hclose]
      rfl
  | none t no_extras =>
      obtain ⟨m, hm, hfound⟩ := hnext before
      have hnone : ∀ q, ¬ (sequence [char '[', many (noneOf "]"), char ']']).Takes
          ⟨⟨before, rest⟩, groups⟩ q := by
        rintro q ⟨r, hopen, s, ⟨inner, -, hinner, -⟩, u, hclose, -⟩
        have hopen := (takes_char.mp hopen).1
        have hclose := (takes_char.mp hclose).1
        apply no_extras inner u.cursor.rest
        rw [show rest = ['['] ++ r.cursor.rest from hopen.rest, hinner.rest, hclose.rest]
        rfl
      refine ⟨m, ?_, hfound⟩
      change ((sequence [char '[', many (noneOf "]"), char ']']).advance _ next <|> next _) = some m
      rw [advance_eq_none hnone]
      exact hm

/-- The rest of a line is taken as it is, without the blanks in front of it. -/
theorem advance_version (before : Text) (groups : List (Nat × Cursor × Cursor)) (ht : '\n' ∉ t)
    (c : Cursor) :
    ∃ m, (sequence [blanks, .group 2 (many notLineFeed), .textEnd]).advance
      ⟨⟨before, t⟩, groups⟩ (fun q => some (Match.mk c q.cursor q.groups)) = some m ∧
        (∀ index, index ≠ 2 →
          m.group? index = (groups.lookup index).map fun (start, stop) => start.upTo stop) ∧
        m.group? 2 = some t.trimStart := by
  let d : Cursor := ⟨(t.takeWhile isBlank).reverse ++ before, t.trimStart⟩
  let stop : Cursor := ⟨t.trimStart.reverse ++ d.before, []⟩
  let found : Cursor → Cursor → Option Match := fun start stop =>
    if stop.rest.isEmpty then some (Match.mk c stop ((2, start, stop) :: groups)) else none
  have hcut : t.takeWhile isBlank ++ t.trimStart = t := List.takeWhile_append_dropWhile
  have hstop : ∀ c ∈ t.trimStart.head?, isBlank c = false := fun c hc => Text.head?_dropWhile hc
  have hplain : ∀ c ∈ t.trimStart, notLineFeed c = true := by
    intro c hc
    have hmem : c ∈ t := (List.dropWhile_suffix isBlank).subset hc
    simpa [notLineFeed] using fun h : c = '\n' => ht (h ▸ hmem)
  -- Without a line feed everything up to the end is taken, and nothing has to be given back.
  have hversion : takeMost notLineFeed (found d) d.before d.rest =
      some ⟨c, stop, (2, d, stop) :: groups⟩ := by
    have htake : takeMost notLineFeed (found d) d.before (t.trimStart ++ []) =
        some ⟨c, stop, (2, d, stop) :: groups⟩ := takeMost_append hplain (by simp) rfl
    rwa [List.append_nil] at htake
  have hblanks : takeMost isBlank
      (fun start => takeMost notLineFeed (found start) start.before start.rest)
        before (t.takeWhile isBlank ++ t.trimStart) = some ⟨c, stop, (2, d, stop) :: groups⟩ :=
    takeMost_append (fun c hc => List.mem_takeWhile_imp hc) hstop hversion
  rw [hcut] at hblanks
  refine ⟨_, hblanks, fun index hindex => ?_, ?_⟩
  · rw [Match.group?, List.lookup_cons, beq_eq_false_iff_ne.mpr hindex]
  · have hreads : d.Reads t.trimStart stop := ⟨(List.append_nil _).symm, rfl⟩
    change some (d.upTo stop) = _
    rw [hreads.upTo]

theorem atStart?_requirement {first : Char} {more : Text} (hfirst : first.isAlphanum = true)
    (hmore : ∀ c ∈ more, isNameChar c = true) (hrest : ∀ c ∈ rest.head?, isNameChar c = false)
    (hextras : DropsExtras rest after) (hafter : '\n' ∉ after) :
    ∃ m, requirement.atStart? (first :: (more ++ rest)) = some m ∧
      m.group? 1 = some (first :: more) ∧ m.group? 2 = some after.trimStart := by
  let c : Cursor := .start (first :: (more ++ rest))
  let d : Cursor := ⟨more.reverse ++ [first], rest⟩
  let next : Progress → Option Match := fun q =>
    (sequence [blanks, .group 2 (many notLineFeed), .textEnd]).advance q fun q =>
      some (Match.mk c q.cursor q.groups)
  have hname : c.Reads (first :: more) d := ⟨rfl, by simp [c, d, Cursor.start]⟩
  have htail : ∀ before, ∃ m, next ⟨⟨before, after⟩, [(1, c, d)]⟩ = some m ∧
      (m.group? 1 = some (first :: more) ∧ m.group? 2 = some after.trimStart) := by
    intro before
    obtain ⟨m, hm, hgroups, hversion⟩ := advance_version before [(1, c, d)] hafter c
    refine ⟨m, hm, ?_, hversion⟩
    rw [hgroups 1 (by decide)]
    change some (c.upTo d) = _
    rw [hname.upTo]
  obtain ⟨m, hm, hgroups⟩ := advance_extras d.before hextras htail
  refine ⟨m, ?_, hgroups⟩
  change (if first.isAlphanum then
    takeMost isNameChar (fun stop =>
      (perhaps (sequence [char '[', many (noneOf "]"), char ']'])).advance
        ⟨stop, [(1, c, stop)]⟩ next) [first] (more ++ rest) else none) = some m
  rw [if_pos hfirst]
  exact takeMost_append hmore hrest hm

theorem atStart?_requirement_eq_none (ht : ∀ c ∈ t.head?, c.isAlphanum = false) :
    requirement.atStart? t = none := by
  rw [atStart?, matchAt_eq_none_iff]
  rintro q ⟨_, ⟨-, rfl⟩, _, ⟨r, ⟨s, ⟨first, hfirst, hreads, -⟩, -⟩, -⟩, -⟩
  have hhead : first ∈ t.head? := by
    rw [show t = [first] ++ s.cursor.rest from hreads.rest]
    rfl
  rw [ht first hhead] at hfirst
  cases hfirst

/-! ## What is left of a line -/

theorem bareLine_subset : bareLine line ⊆ line := by
  intro c hc
  apply (List.takeWhile_prefix (· != '#')).subset
  exact (List.takeWhile_prefix (· != ';')).subset (Text.mem_of_mem_trim hc)

theorem uncommented_bareLine : '#' ∉ bareLine line ∧ ';' ∉ bareLine line := by
  constructor
  · intro hmem
    have hin := (List.takeWhile_prefix (· != ';')).subset (Text.mem_of_mem_trim hmem)
    simpa using List.mem_takeWhile_imp hin
  · intro hmem
    simpa using List.mem_takeWhile_imp (Text.mem_of_mem_trim hmem)

theorem bareLine_of_uncommented (hcomment : '#' ∉ t) (hmarker : ';' ∉ t) : bareLine t = t.trim := by
  unfold bareLine
  rw [Text.before_of_not_mem hcomment, Text.before_of_not_mem hmarker]

theorem exists_dropsExtras (rest : Text) : ∃ after, DropsExtras rest after := by
  by_cases hextras : ∃ inner after, rest = '[' :: (inner ++ ']' :: after)
  · obtain ⟨inner, after, rfl⟩ := hextras
    -- The brackets that are found need not be the first ones that close.
    by_cases hclosed : ']' ∈ inner
    · obtain ⟨inner, more, rfl, hfirst⟩ := List.eq_append_cons_of_mem hclosed
      refine ⟨more ++ ']' :: after, ?_⟩
      rw [List.append_assoc, List.cons_append]
      exact .extras inner _ hfirst
    · exact ⟨after, .extras inner after hclosed⟩
  · exact ⟨rest, .none rest fun inner after heq => hextras ⟨inner, after, heq⟩⟩

theorem DropsExtras.suffix (h : DropsExtras rest after) : after <:+ rest := by
  cases h with
  | extras inner after _ => exact ⟨'[' :: (inner ++ [']']), by simp⟩
  | none => exact List.suffix_rfl

theorem exists_requires (ht : ¬ StatesNothing t) : ∃ name rest after, Requires t name rest after := by
  cases t with
  | nil => exact absurd (Or.inl rfl) ht
  | cons first more =>
      have hfirst : first.isAlphanum = true := by
        by_contra hfirst
        exact ht (.inr (.inr (.inr (by simpa using hfirst))))
      have hcut : first :: more =
          first :: more.takeWhile isNameChar ++ more.dropWhile isNameChar := by
        rw [List.cons_append, List.takeWhile_append_dropWhile]
      have hname : ∀ c ∈ first :: more.takeWhile isNameChar, isNameChar c = true := by
        refine List.forall_mem_cons.mpr ⟨?_, fun c hc => List.mem_takeWhile_imp hc⟩
        simp [isNameChar, hfirst]
      have hrest : ∀ c ∈ (more.dropWhile isNameChar).head?, isNameChar c = false :=
        fun c hc => Text.head?_dropWhile hc
      obtain ⟨after, hextras⟩ := exists_dropsExtras (more.dropWhile isNameChar)
      refine ⟨_, _, after, ⟨first, rfl, hfirst⟩, ?_, hcut, hextras⟩
      rw [hcut]
      exact .of_append hname hrest

/-! ## Reading a line -/

theorem parseRequirement_eq (line : Text) :
    parseRequirement line =
      if bareLine line = [] ∨ (bareLine line).head? = some '-' ∨ "://".toList <:+: bareLine line
      then none
      else (requirement.atStart? (bareLine line)).map fun m =>
        (String.ofList ((m.group? 1).getD []), statedVersion ((m.group? 2).getD [])) := by
  have hguard : ((bareLine line).isEmpty || (bareLine line).head? == some '-' ||
      (bareLine line).contains "://".toList) = true ↔
        bareLine line = [] ∨ (bareLine line).head? = some '-' ∨ "://".toList <:+: bareLine line := by
    simp only [Bool.or_eq_true, List.isEmpty_iff, beq_iff_eq, Text.contains_iff, or_assoc]
  exact if_congr hguard rfl rfl

theorem parseRequirement_of_nothing (h : StatesNothing (bareLine line)) :
    parseRequirement line = none := by
  rw [parseRequirement_eq]
  rcases h with hempty | hoption | haddress | hnamed
  · exact if_pos (.inl hempty)
  · exact if_pos (.inr (.inl hoption))
  · exact if_pos (.inr (.inr haddress))
  · rw [atStart?_requirement_eq_none hnamed, Option.map_none, ite_self]

theorem parseRequirement_of_requires (hline : '\n' ∉ line)
    (haddress : ¬ "://".toList <:+: bareLine line)
    (h : Requires (bareLine line) name rest after) :
    parseRequirement line = some (String.ofList name, statedVersion after) := by
  obtain ⟨⟨first, hhead, hfirst⟩, hlongest, hcut, hextras⟩ := h
  obtain ⟨more, rfl⟩ := List.head?_eq_some_iff.mp (Option.mem_def.mp hhead)
  have hrest : ∀ c ∈ rest.head?, isNameChar c = false := by
    rw [hcut] at hlongest
    exact hlongest.head?_rest
  have hafter : '\n' ∉ after := by
    intro hmem
    apply hline
    apply bareLine_subset
    rw [hcut]
    exact List.mem_append_right _ (hextras.suffix.subset hmem)
  have hmore := (List.forall_mem_cons.mp hlongest.inClass).2
  obtain ⟨m, hmatch, hname, hversion⟩ := atStart?_requirement hfirst hmore hrest hextras hafter
  have hoption : (bareLine line).head? ≠ some '-' := by
    rw [hcut]
    rintro ⟨⟩
    cases hfirst
  have hempty : bareLine line ≠ [] := by
    rw [hcut]
    exact List.cons_ne_nil _ _
  rw [parseRequirement_eq, if_neg (not_or.mpr ⟨hempty, not_or.mpr ⟨hoption, haddress⟩⟩), hcut,
    List.cons_append, hmatch, Option.map_some, hname, hversion]
  unfold statedVersion
  rw [Option.getD_some, Option.getD_some, Text.trim_trimStart]

theorem parseRequirement_eq_none_iff (hline : '\n' ∉ line) :
    parseRequirement line = none ↔ StatesNothing (bareLine line) := by
  refine ⟨fun hnone => ?_, parseRequirement_of_nothing⟩
  by_contra hstates
  obtain ⟨name, rest, after, hrequires⟩ := exists_requires hstates
  have haddress : ¬ "://".toList <:+: bareLine line := fun h => hstates (.inr (.inr (.inl h)))
  rw [parseRequirement_of_requires hline haddress hrequires] at hnone
  cases hnone

theorem requires_of_parseRequirement {name version : String} (hline : '\n' ∉ line)
    (h : parseRequirement line = some (name, version)) :
    ¬ "://".toList <:+: bareLine line ∧
      ∃ rest after, Requires (bareLine line) name.toList rest after ∧
        version = statedVersion after := by
  have hstates : ¬ StatesNothing (bareLine line) := by
    intro hnothing
    rw [parseRequirement_of_nothing hnothing] at h
    cases h
  have haddress : ¬ "://".toList <:+: bareLine line := fun h => hstates (.inr (.inr (.inl h)))
  obtain ⟨nameText, rest, after, hrequires⟩ := exists_requires hstates
  rw [parseRequirement_of_requires hline haddress hrequires] at h
  obtain ⟨rfl, rfl⟩ := Prod.mk.inj (Option.some.inj h)
  rw [← String.toList_ofList (l := nameText)] at hrequires
  exact ⟨haddress, rest, after, hrequires, rfl⟩

/-! ## Reading a requirement again -/

/-- What keeps a version as it is when it is read again. -/
structure IsVersion (version : Text) : Prop where
  nonempty : version ≠ []
  trimmed : version.trim = version
  oneLine : '\n' ∉ version
  uncommented : '#' ∉ version ∧ ';' ∉ version
  no_address : ¬ "://".toList <:+: version

theorem isVersion_statedVersion (hline : '\n' ∉ line)
    (haddress : ¬ "://".toList <:+: bareLine line) (hafter : after <:+ bareLine line) :
    IsVersion (statedVersion after).toList := by
  by_cases hempty : after.trim.isEmpty = true
  · rw [statedVersion, if_pos hempty]
    exact ⟨by decide, by decide, by decide, by decide, by decide⟩
  · have hwithin : after.trim ⊆ bareLine line := fun c hc => hafter.subset (Text.mem_of_mem_trim hc)
    have hpart : after.trim <:+: bareLine line := by
      obtain ⟨lead, trail, -, -, hparts⟩ := Text.exists_eq_trim after
      have hmiddle : after.trim <:+: after := ⟨lead, trail, by rw [List.append_assoc, ← hparts]⟩
      exact hmiddle.trans hafter.isInfix
    rw [statedVersion, if_neg hempty, String.toList_ofList]
    exact {
      nonempty := by simpa using hempty
      trimmed := Text.trim_trim after
      oneLine := fun hmem => hline (bareLine_subset (hwithin hmem))
      uncommented := ⟨fun hmem => uncommented_bareLine.1 (hwithin hmem),
        fun hmem => uncommented_bareLine.2 (hwithin hmem)⟩
      no_address := fun h => haddress (h.trans hpart) }

theorem not_isBlank_of_isNameChar {c : Char} (hc : isNameChar c = true) : isBlank c = false := by
  have hnone : ∀ n ∈ Text.blankCodes, isNameChar (Char.ofNat n) = false := by
    decide +kernel
  exact Text.not_isBlank_of hnone hc

theorem parseRequirement_written {version : Text} (hstart : ∃ c ∈ name.head?, c.isAlphanum = true)
    (hname : ∀ c ∈ name, isNameChar c = true) (hversion : IsVersion version) :
    parseRequirement (name ++ ' ' :: version) =
      some (String.ofList name, String.ofList version) := by
  have habsent : ∀ mark : Char, isNameChar mark = false → mark ∉ name := by
    intro mark hmark hmem
    rw [hname mark hmem] at hmark
    cases hmark
  have hbare : bareLine (name ++ ' ' :: version) = name ++ ' ' :: version := by
    rw [bareLine_of_uncommented]
    · apply Text.trim_of_ends
      · obtain ⟨first, hhead, -⟩ := hstart
        obtain ⟨more, rfl⟩ := List.head?_eq_some_iff.mp (Option.mem_def.mp hhead)
        rintro c ⟨⟩
        exact not_isBlank_of_isNameChar (hname _ (List.mem_cons_self ..))
      · intro c hc
        obtain ⟨first, more, hcons⟩ := List.exists_cons_of_ne_nil hversion.nonempty
        rw [hcons, List.getLast?_append_cons, List.getLast?_cons_cons, ← hcons,
          ← hversion.trimmed] at hc
        exact Text.getLast?_trim hc
    · simp [habsent '#' (by decide), hversion.uncommented.1]
    · simp [habsent ';' (by decide), hversion.uncommented.2]
  -- The blank ends the name and is no bracket, so a bracket in the version stays.
  have hrequires : Requires (name ++ ' ' :: version) name (' ' :: version) (' ' :: version) := {
    named := hstart
    longest := .of_append hname (by rintro c ⟨⟩; rfl)
    cut := rfl
    extras := .none _ (by simp) }
  have haddress : ¬ "://".toList <:+: name ++ ' ' :: version := by
    have hpasses : Text.Passes "://".toList name (' ' :: version) :=
      .of_not_mem (habsent ':' (by decide))
    rw [hpasses.infix_append_iff, List.infix_cons_iff, not_or]
    exact ⟨by simp, hversion.no_address⟩
  rw [parseRequirement_of_requires _ (hbare.symm ▸ haddress) (hbare.symm ▸ hrequires)]
  · have hblank : ∀ c ∈ [' '], isBlank c = true := List.forall_mem_singleton.mpr rfl
    have htrim : Text.trim (' ' :: version) = version :=
      (Text.trim_blank_append hblank version).trans hversion.trimmed
    unfold statedVersion
    rw [htrim, if_neg (by simpa using hversion.nonempty)]
  · simp [habsent '\n' (by decide), hversion.oneLine]

/-- A line states nothing, or a name and a version that are read again as they are. -/
theorem parseRequirement_line (hline : '\n' ∉ line) :
    (parseRequirement line = none ↔ StatesNothing (bareLine line)) ∧
      ∀ name version, parseRequirement line = some (name, version) →
        (∃ rest after, Requires (bareLine line) name.toList rest after ∧
          version = statedVersion after) ∧
        parseRequirement (name ++ " " ++ version).toList = some (name, version) := by
  refine ⟨parseRequirement_eq_none_iff hline, fun name version h => ?_⟩
  obtain ⟨haddress, rest, after, hrequires, rfl⟩ := requires_of_parseRequirement hline h
  refine ⟨⟨rest, after, hrequires, rfl⟩, ?_⟩
  have hafter : after <:+ bareLine line := by
    rw [hrequires.cut]
    exact hrequires.extras.suffix.trans (List.suffix_append _ _)
  have hwritten := parseRequirement_written hrequires.named hrequires.longest.inClass
    (isVersion_statedVersion hline haddress hafter)
  rw [String.ofList_toList, String.ofList_toList] at hwritten
  rw [String.toList_append, String.toList_append, List.append_assoc]
  exact hwritten

/-- Extras, a marker and a comment are left out, and what is left is read again. -/
theorem uvicorn_read :
    parseRequirement "uvicorn[standard] == 0.20 ; python_version > '3.7'  # server".toList =
        some ("uvicorn", "== 0.20") ∧
      parseRequirement "uvicorn == 0.20".toList = some ("uvicorn", "== 0.20") := by
  have hread : parseRequirement
      "uvicorn[standard] == 0.20 ; python_version > '3.7'  # server".toList =
        some ("uvicorn", "== 0.20") := by
    decide +kernel
  exact ⟨hread, ((parseRequirement_line (by decide)).2 _ _ hread).2⟩

end RepoAudit.Manifest
