import RepoAudit.Proofs.Performance.Places
import Mathlib

/-!
# Brace blocks

A brace block ends where, for the first time, as many braces are closed as were opened, so the
blocks inside it belong to it.  A brace that is never closed takes all that is left of the text.  The
depth that is counted along the text is the number of braces still open, and it never reaches zero
before the end of the block.
-/

namespace RepoAudit.Detector

open Pattern

variable {depth : Nat} {c : Char} {t lead rest block other : Text}

/-! ## Open braces -/

def Balanced (t : Text) : Prop :=
  t.count '{' = t.count '}'

/-- With so many braces open before it, the text never closes the last of them. -/
def StaysOpen (depth : Nat) (t : Text) : Prop :=
  ∀ lead, lead <+: t → lead.count '}' < depth + lead.count '{'

/-- The braces that are open after one more character. -/
def depthAfter (depth : Nat) (c : Char) : Nat :=
  if c = '{' then depth + 1 else if c = '}' then depth - 1 else depth

theorem depthAfter_add_count (hdepth : 0 < depth) (c : Char) (t : Text) :
    depthAfter depth c + t.count '{' + (c :: t).count '}' =
      depth + (c :: t).count '{' + t.count '}' := by
  unfold depthAfter
  by_cases hopen : c = '{'
  · subst hopen
    rw [if_pos rfl, List.count_cons_self, List.count_cons_of_ne (by decide)]
    omega
  · by_cases hclose : c = '}'
    · subst hclose
      rw [if_neg (by decide), if_pos rfl, List.count_cons_self, List.count_cons_of_ne (by decide)]
      omega
    · rw [if_neg hopen, if_neg hclose, List.count_cons_of_ne hopen, List.count_cons_of_ne hclose]

theorem of_depthAfter_eq_zero (hdepth : 0 < depth) (h : depthAfter depth c = 0) :
    c = '}' ∧ depth = 1 := by
  unfold depthAfter at h
  by_cases hopen : c = '{'
  · simp [hopen] at h
  · rw [if_neg hopen] at h
    by_cases hclose : c = '}'
    · rw [if_pos hclose] at h
      exact ⟨hclose, by omega⟩
    · rw [if_neg hclose] at h
      omega

theorem StaysOpen.pos (h : StaysOpen depth t) : 0 < depth := by
  simpa using h [] List.nil_prefix

theorem staysOpen_nil (hdepth : 0 < depth) : StaysOpen depth [] := by
  intro lead hlead
  rw [List.prefix_nil.mp hlead]
  simpa using hdepth

theorem staysOpen_cons :
    StaysOpen depth (c :: t) ↔ 0 < depth ∧ StaysOpen (depthAfter depth c) t := by
  constructor
  · intro hopen
    refine ⟨hopen.pos, ?_⟩
    intro lead hlead
    have hmore := hopen (c :: lead) (List.cons_prefix_cons.mpr ⟨rfl, hlead⟩)
    have hdepth := depthAfter_add_count hopen.pos c lead
    omega
  · intro hopen lead hlead
    cases lead with
    | nil => simpa using hopen.1
    | cons d lead =>
        rw [List.cons_prefix_cons] at hlead
        have hmore := hopen.2 lead hlead.2
        have hdepth := depthAfter_add_count hopen.1 c lead
        rw [hlead.1]
        omega

/-- A text closes the last brace at some place, or never does. -/
theorem staysOpen_or (hdepth : 0 < depth) (t : Text) :
    StaysOpen depth t ∨
      ∃ inside after, t = inside ++ '}' :: after ∧ StaysOpen depth inside ∧
        depth + inside.count '{' = inside.count '}' + 1 := by
  induction t generalizing depth with
  | nil => exact .inl (staysOpen_nil hdepth)
  | cons c t ih =>
      by_cases hlast : depthAfter depth c = 0
      · have hclose := of_depthAfter_eq_zero hdepth hlast
        right
        refine ⟨[], t, by rw [hclose.1, List.nil_append], staysOpen_nil hdepth, ?_⟩
        simp [hclose.2]
      · rcases ih (Nat.pos_of_ne_zero hlast) with hopen | ⟨inside, after, ht, hopen, hcount⟩
        · exact .inl (staysOpen_cons.mpr ⟨hdepth, hopen⟩)
        · right
          refine ⟨c :: inside, after, by rw [ht, List.cons_append],
            staysOpen_cons.mpr ⟨hdepth, hopen⟩, ?_⟩
          have hafter := depthAfter_add_count hdepth c inside
          omega

/-! ## Reading up to the closing brace -/

theorem balancedFrom_cons (h : 0 < depthAfter depth c) (t : Text) :
    balancedFrom depth (c :: t) = c :: balancedFrom (depthAfter depth c) t := by
  unfold depthAfter at h ⊢
  by_cases hopen : c = '{'
  · simp [balancedFrom, hopen]
  · by_cases hclose : c = '}'
    · simp only [hclose, if_true, if_neg (by decide : ¬ '}' = '{')] at h ⊢
      have hdeep : ¬ depth ≤ 1 := by omega
      simp [balancedFrom, hdeep]
    · simp [balancedFrom, hopen, hclose]

/-- While a brace stays open, the depth is the number of open braces. -/
theorem balancedFrom_append (hlead : StaysOpen depth lead) (rest : Text) :
    balancedFrom depth (lead ++ rest) =
      lead ++ balancedFrom (depth + lead.count '{' - lead.count '}') rest := by
  induction lead generalizing depth with
  | nil => simp
  | cons c lead ih =>
      have hparts := staysOpen_cons.mp hlead
      have hcount := depthAfter_add_count hparts.1 c lead
      have hdepth : depthAfter depth c + lead.count '{' - lead.count '}' =
          depth + (c :: lead).count '{' - (c :: lead).count '}' := by omega
      rw [List.cons_append, balancedFrom_cons hparts.2.pos, ih hparts.2, hdepth, List.cons_append]

/-! ## Blocks -/

/-- The shortest beginning of the text in which as many braces are closed as opened. -/
structure ShortestBalanced (t block : Text) : Prop where
  lead : block <+: t
  nonempty : block ≠ []
  balanced : Balanced block
  shortest : ∀ other, other <+: t → other ≠ [] → Balanced other → block.length ≤ other.length

/-- The block that a text begins with: it reaches to the brace that closes the first one, or it is
all of the text when nothing closes that. -/
def BraceBlock (t block : Text) : Prop :=
  ShortestBalanced t block ∨
    (∀ other, other <+: t → other ≠ [] → ¬ Balanced other) ∧ block = t

theorem balanced_cons_iff {inside : Text} :
    Balanced ('{' :: inside) ↔ inside.count '{' + 1 = inside.count '}' := by
  rw [Balanced, List.count_cons_self, List.count_cons_of_ne (by decide)]

theorem not_balanced_of_staysOpen (h : StaysOpen 1 t) (hbegins : other <+: '{' :: t)
    (hne : other ≠ []) : ¬ Balanced other := by
  obtain ⟨c, inside, rfl⟩ := List.exists_cons_of_ne_nil hne
  rw [List.cons_prefix_cons] at hbegins
  have hopen := h inside hbegins.2
  rw [hbegins.1, balanced_cons_iff]
  omega

theorem braceBlock_balancedBody (rest : Text) :
    BraceBlock ('{' :: rest) (balancedBody ('{' :: rest)) := by
  have hfirst : balancedBody ('{' :: rest) = '{' :: balancedFrom 1 rest := rfl
  rw [hfirst]
  rcases staysOpen_or Nat.one_pos rest with hopen | ⟨inside, after, hrest, hopen, hcount⟩
  · right
    have hall := balancedFrom_append hopen []
    rw [List.append_nil] at hall
    refine ⟨fun other hbegins hne => not_balanced_of_staysOpen hopen hbegins hne, ?_⟩
    simpa [balancedFrom] using hall
  · left
    have hdepth : 1 + inside.count '{' - inside.count '}' = 1 := by omega
    have hbody : balancedFrom 1 rest = inside ++ ['}'] := by
      rw [hrest, balancedFrom_append hopen, hdepth]
      rfl
    rw [hbody]
    constructor
    case lead =>
      rw [hrest]
      exact ⟨after, by simp⟩
    case nonempty => exact List.cons_ne_nil _ _
    case balanced =>
      rw [balanced_cons_iff, List.count_append, List.count_append, List.count_singleton_self,
        List.count_eq_zero_of_not_mem (by decide : '{' ∉ ['}'])]
      omega
    case shortest =>
      intro other hprefix hne hbalanced
      -- A shorter beginning leaves out the closing brace, so the first brace is open in it.
      by_contra hshort
      have hinside : other <+: '{' :: inside := by
        have hlead : '{' :: inside <+: '{' :: rest := by
          rw [hrest]
          exact ⟨'}' :: after, rfl⟩
        have hlength : ('{' :: (inside ++ ['}'])).length = ('{' :: inside).length + 1 := by simp
        exact List.prefix_of_prefix_length_le hprefix hlead (by omega)
      exact not_balanced_of_staysOpen hopen hinside hne hbalanced

theorem BraceBlock.unique {block' : Text} (h : BraceBlock t block) (h' : BraceBlock t block') :
    block = block' := by
  rcases h with hshort | ⟨hnone, rfl⟩
  · rcases h' with hshort' | ⟨hnone, -⟩
    · have hlength : block.length = block'.length := le_antisymm
        (hshort.shortest block' hshort'.lead hshort'.nonempty hshort'.balanced)
        (hshort'.shortest block hshort.lead hshort.nonempty hshort.balanced)
      have hprefix := List.prefix_of_prefix_length_le hshort.lead hshort'.lead hlength.le
      exact hprefix.eq_of_length hlength
    · exact absurd hshort.balanced (hnone block hshort.lead hshort.nonempty)
  · rcases h' with hshort' | ⟨-, rfl⟩
    · exact absurd hshort'.balanced (hnone block' hshort'.lead hshort'.nonempty)
    · rfl

/-- A block that is closed stays the same whatever follows it. -/
theorem ShortestBalanced.append (h : ShortestBalanced t block) (after : Text) :
    ShortestBalanced (block ++ after) block where
  lead := List.prefix_append block after
  nonempty := h.nonempty
  balanced := h.balanced
  shortest := by
    intro other hprefix hne hbalanced
    by_contra hshort
    have hother : other <+: block :=
      List.prefix_of_prefix_length_le hprefix (List.prefix_append block after) (by omega)
    exact hshort (h.shortest other (hother.trans h.lead) hne hbalanced)

theorem BraceBlock.closed (h : BraceBlock ('{' :: rest) block) (hbalanced : Balanced block)
    (after : Text) : balancedBody (block ++ after) = block := by
  have hshort : ShortestBalanced ('{' :: rest) block := by
    rcases h with hshort | ⟨hnone, rfl⟩
    · exact hshort
    · exact absurd hbalanced (hnone _ List.prefix_rfl (List.cons_ne_nil _ _))
  obtain ⟨c, inside, rfl⟩ := List.exists_cons_of_ne_nil hshort.nonempty
  obtain rfl : c = '{' := (List.cons_prefix_cons.mp hshort.lead).1
  exact (braceBlock_balancedBody (inside ++ after)).unique (.inl (hshort.append after))

/-! ## Asynchronous functions -/

/-- The block that opens with the last brace of a match, wherever it is cut out of the text.  What
follows a closed block has no part in it. -/
structure OwnBlock (content : Text) (m : Match) (block : Text) : Prop where
  brace : ∃ lead, content = lead ++ '{' :: m.stop.rest ∧ m.stop.before.reverse = lead ++ ['{']
  cut : functionBodyAt? content m.stop.offset = some block
  opens : BraceBlock ('{' :: m.stop.rest) block
  closed : Balanced block → ∀ after, balancedBody (block ++ after) = block

def blockingFinding (line : Nat) : Finding :=
  { detector := "sync-io-in-async", severity := .high, line := some line
    message := "Blocking I/O inside an async function" }

theorem ownBlock_of_mem {content : Text} {m : Match} (hm : m ∈ scriptAsync.findAll content) :
    OwnBlock content m (balancedBody ('{' :: m.stop.rest)) := by
  obtain ⟨head, hhead⟩ := exists_brace_of_mem_scriptAsync hm
  have hbefore : m.stop.before.reverse = (m.start.before.reverse ++ head) ++ ['{'] := by
    rw [(reads_of_mem_findAll hm).2.1.before, hhead]
    simp
  constructor
  case brace =>
    refine ⟨_, ?_, hbefore⟩
    rw [(content_eq_of_mem_findAll hm).2, hbefore]
    simp
  case cut => exact functionBodyAt?_stop hm
  case opens => exact braceBlock_balancedBody m.stop.rest
  case closed => exact (braceBlock_balancedBody m.stop.rest).closed

theorem detect_syncIoInAsync {f : SourceFile} (hpython : f.isPython = false) :
    syncIoInAsync.detect f = ((scriptAsync.findAll f.content).filter fun m =>
      syncCall.occursIn (balancedBody ('{' :: m.stop.rest))).map fun m => blockingFinding m.line := by
  rw [syncIoInAsync]
  simp only [hpython]
  rfl

/-- From a brace on, the text is cut after the shortest part with balanced braces, or not at all.
Each asynchronous function is judged by the block that its head opens. -/
theorem async_judged_by_own_block :
    (∀ lead rest : Text,
      balancedBodyAt? (lead ++ '{' :: rest) (Text.byteSize lead) =
          some (balancedBody ('{' :: rest)) ∧
        BraceBlock ('{' :: rest) (balancedBody ('{' :: rest))) ∧
    ∀ f : SourceFile, f.isPython = false →
      ∃ blocks, List.Forall₂ (OwnBlock f.content) (scriptAsync.findAll f.content) blocks ∧
        syncIoInAsync.detect f =
          (((scriptAsync.findAll f.content).zip blocks).filter fun (_, block) =>
            syncCall.occursIn block).map fun (m, _) => blockingFinding m.line := by
  constructor
  · intro lead rest
    exact ⟨balancedBodyAt?_append lead ('{' :: rest), braceBlock_balancedBody rest⟩
  · intro f hpython
    refine ⟨(scriptAsync.findAll f.content).map fun m => balancedBody ('{' :: m.stop.rest), ?_, ?_⟩
    · rw [List.forall₂_map_right_iff, List.forall₂_same]
      exact fun m hm => ownBlock_of_mem hm
    · rw [detect_syncIoInAsync hpython, ← List.map_prod_left_eq_zip, List.filter_map, List.map_map]
      rfl

def twoFunctions : SourceFile :=
  { language := .javaScript
    content := ("async () => \x7b\n  if (x) \x7b go() \x7d\n\x7d\nopenSync(a)\n" ++
      "async function f() \x7b\n  if (x) \x7b openSync(a) \x7d\n\x7d\n").toList }

/-- The call between the two functions belongs to neither, and the one in the inner block of the
second function belongs to that. -/
theorem twoFunctions_judged :
    ∃ blocks, List.Forall₂ (OwnBlock twoFunctions.content)
        (scriptAsync.findAll twoFunctions.content) blocks ∧
      syncIoInAsync.detect twoFunctions =
        (((scriptAsync.findAll twoFunctions.content).zip blocks).filter fun (_, block) =>
          syncCall.occursIn block).map (fun (m, _) => blockingFinding m.line) ∧
      (syncIoInAsync.detect twoFunctions).map Finding.line = [some 5] := by
  obtain ⟨blocks, hblocks, hdetect⟩ := async_judged_by_own_block.2 twoFunctions (by decide)
  exact ⟨blocks, hblocks, hdetect, by decide +kernel⟩

end RepoAudit.Detector
