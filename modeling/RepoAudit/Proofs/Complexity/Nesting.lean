import RepoAudit.Complexity.Metrics
import Mathlib.Data.List.Infix
import Mathlib.Order.Bounds.Basic
import Mathlib.Tactic

/-!
# Nesting depth is the largest excess of open brackets

Some piece of a text opens more brackets than it closes, and none does so by more than the nesting
depth.  After each character the brackets that are open are the largest excess of the pieces that
end there, and the deepest nesting so far is the largest excess of all pieces.  Everything else
about the nesting of pieces follows from this without another look at the counters.
-/

namespace RepoAudit.Complexity

def isOpening (c : Char) : Bool :=
  c == '{' || c == '[' || c == '('

def isClosing (c : Char) : Bool :=
  c == '}' || c == ']' || c == ')'

/-- How many more brackets a text opens than it closes. -/
def excess (t : Text) : Int :=
  t.countP isOpening - t.countP isClosing

/-- What the pieces of a text exceed by. -/
def pieceExcesses (t : Text) : Set Int :=
  excess '' {piece | piece <:+: t}

/-- What the pieces at the end of a text exceed by. -/
def tailExcesses (t : Text) : Set Int :=
  excess '' {tail | tail <:+ t}

/-- Whatever the text opens is closed again in it. -/
def ClosesAll (t : Text) : Prop :=
  ∀ tail, tail <:+ t → excess tail ≤ 0

instance (t : Text) : Decidable (ClosesAll t) :=
  decidable_of_iff (∀ tail ∈ t.tails, excess tail ≤ 0) (by simp only [List.mem_tails, ClosesAll])

variable {t piece before closers fragment : Text} {c : Char} {state : Nat × Nat}

@[simp] theorem excess_nil : excess [] = 0 := by
  rfl

theorem excess_append (s t : Text) : excess (s ++ t) = excess s + excess t := by
  simp only [excess, List.countP_append, Nat.cast_add]
  ring

theorem excess_nonpos (h : ∀ c ∈ t, isOpening c = false) : excess t ≤ 0 := by
  have hopening : t.countP isOpening = 0 := by
    rw [List.countP_eq_zero]
    intro c hc
    simp [h c hc]
  simp [excess, hopening]

theorem isClosing_of_isOpening (h : isOpening c = true) : isClosing c = false := by
  simp only [isOpening, Bool.or_eq_true, beq_iff_eq] at h
  rcases h with (rfl | rfl) | rfl <;> rfl

/-! ## Reading a text -/

theorem tailExcesses_concat (t : Text) (c : Char) :
    tailExcesses (t ++ [c]) = insert 0 ((· + excess [c]) '' tailExcesses t) := by
  ext d
  simp only [tailExcesses, Set.mem_insert_iff, Set.mem_image, Set.mem_ofPred_eq,
    List.suffix_concat_iff, exists_exists_and_eq_and]
  constructor
  · rintro ⟨tail, rfl | ⟨lead, rfl, hlead⟩, rfl⟩
    · exact Or.inl rfl
    · exact Or.inr ⟨lead, hlead, (excess_append lead [c]).symm⟩
  · rintro (rfl | ⟨lead, hlead, rfl⟩)
    · exact ⟨[], Or.inl rfl, rfl⟩
    · exact ⟨lead ++ [c], Or.inr ⟨lead, rfl, hlead⟩, excess_append lead [c]⟩

theorem pieceExcesses_concat (t : Text) (c : Char) :
    pieceExcesses (t ++ [c]) = tailExcesses (t ++ [c]) ∪ pieceExcesses t := by
  simp only [pieceExcesses, tailExcesses, List.infix_concat_iff, Set.ofPred_or, Set.image_union]

/-- What one more character does to the counters. -/
theorem bracketStep_cases (depth deepest : Nat) (c : Char) :
    excess [c] = 1 ∧ bracketStep (depth, deepest) c = (depth + 1, max deepest (depth + 1)) ∨
      excess [c] = -1 ∧ bracketStep (depth, deepest) c = (depth - 1, deepest) ∨
      excess [c] = 0 ∧ bracketStep (depth, deepest) c = (depth, deepest) := by
  have hstep : bracketStep (depth, deepest) c =
      if isOpening c then (depth + 1, max deepest (depth + 1))
      else if isClosing c then (depth - 1, deepest)
      else (depth, deepest) := rfl
  by_cases hopening : isOpening c = true
  · left
    rw [hstep, if_pos hopening]
    simp [excess, hopening, isClosing_of_isOpening hopening]
  · right
    rw [hstep, if_neg hopening]
    by_cases hclosing : isClosing c = true
    · simp [excess, hopening, hclosing]
    · simp [excess, hopening, hclosing]

theorem open_bracketStep (state : Nat × Nat) (c : Char) :
    ((bracketStep state c).1 : Int) = max 0 (state.1 + excess [c]) := by
  obtain ⟨depth, deepest⟩ := state
  rcases bracketStep_cases depth deepest c with ⟨hc, hstep⟩ | ⟨hc, hstep⟩ | ⟨hc, hstep⟩ <;>
    rw [hstep, hc] <;> dsimp only <;> omega

theorem deepest_bracketStep (hle : state.1 ≤ state.2) (c : Char) :
    (bracketStep state c).2 = max (bracketStep state c).1 state.2 := by
  obtain ⟨depth, deepest⟩ := state
  dsimp only at hle
  rcases bracketStep_cases depth deepest c with ⟨-, hstep⟩ | ⟨-, hstep⟩ | ⟨-, hstep⟩ <;>
    rw [hstep] <;> dsimp only <;> omega

/-- The counters after a text has been read. -/
structure Nested (t : Text) (state : Nat × Nat) : Prop where
  isOpen : IsGreatest (tailExcesses t) state.1
  deepest : IsGreatest (pieceExcesses t) state.2

namespace Nested

theorem nil : Nested [] (0, 0) := by
  constructor <;> simp [tailExcesses, pieceExcesses]

theorem open_le (h : Nested t state) : state.1 ≤ state.2 := by
  have hsubset : tailExcesses t ⊆ pieceExcesses t :=
    Set.image_mono fun tail htail => htail.isInfix
  exact_mod_cast h.isOpen.mono h.deepest hsubset

theorem step (h : Nested t state) (c : Char) : Nested (t ++ [c]) (bracketStep state c) := by
  have hopen : IsGreatest (tailExcesses (t ++ [c])) (bracketStep state c).1 := by
    rw [tailExcesses_concat, open_bracketStep]
    exact ((monotone_id.add_const _).map_isGreatest h.isOpen).insert 0
  refine ⟨hopen, ?_⟩
  rw [pieceExcesses_concat, deepest_bracketStep h.open_le, Nat.cast_max]
  exact hopen.union h.deepest

theorem foldl_bracketStep (t : Text) : Nested t (t.foldl bracketStep (0, 0)) := by
  induction t using List.reverseRecOn with
  | nil => exact nil
  | append_singleton t c ih =>
      rw [List.foldl_append]
      exact ih.step c

end Nested

/-! ## Pieces of a text -/

theorem isGreatest_nestingDepth (t : Text) : IsGreatest (pieceExcesses t) (nestingDepth t) :=
  (Nested.foldl_bracketStep t).deepest

theorem excess_le_nestingDepth (h : piece <:+: t) : excess piece ≤ nestingDepth t :=
  (isGreatest_nestingDepth t).2 ⟨piece, h, rfl⟩

theorem nestingDepth_le_of_infix (h : piece <:+: t) : nestingDepth piece ≤ nestingDepth t := by
  have hsubset : pieceExcesses piece ⊆ pieceExcesses t :=
    Set.image_mono fun part hpart => hpart.trans h
  exact_mod_cast (isGreatest_nestingDepth piece).mono (isGreatest_nestingDepth t) hsubset

/-- Where nothing is open, the nesting begins anew. -/
theorem nestingDepth_append (hbefore : ClosesAll before) (fragment : Text) :
    nestingDepth (before ++ fragment) = max (nestingDepth before) (nestingDepth fragment) := by
  apply le_antisymm
  · obtain ⟨piece, hpiece, heq⟩ := (isGreatest_nestingDepth (before ++ fragment)).1
    rcases List.infix_append_iff.mp hpiece with h | h | ⟨tail, lead, rfl, htail, hlead⟩
    · have hle := excess_le_nestingDepth h
      omega
    · have hle := excess_le_nestingDepth h
      omega
    · have htail := hbefore tail htail
      have hlead := excess_le_nestingDepth hlead.isInfix
      rw [excess_append] at heq
      omega
  · apply max_le
    · exact nestingDepth_le_of_infix List.infix_append_left
    · exact nestingDepth_le_of_infix List.infix_append_right

theorem closesAll_of_closers (hclosers : ∀ c ∈ closers, isOpening c = false) :
    ClosesAll closers :=
  fun _ htail => excess_nonpos fun c hc => hclosers c (htail.subset hc)

theorem nestingDepth_closers (hclosers : ∀ c ∈ closers, isOpening c = false) :
    nestingDepth closers = 0 := by
  obtain ⟨piece, hpiece, heq⟩ := (isGreatest_nestingDepth closers).1
  have hle : excess piece ≤ 0 := excess_nonpos fun c hc => hclosers c (hpiece.subset hc)
  omega

/-- The nesting depth is the largest excess of opening over closing brackets in any piece of the
text.  So no piece is nested more deeply than the whole, and closing brackets at a place where
nothing is open change nothing about what follows. -/
theorem nestingDepth_isGreatest_excess (content : Text) :
    IsGreatest {d : Int | ∃ piece, piece <:+: content ∧ excess piece = d} (nestingDepth content) ∧
      (∀ piece, piece <:+: content → nestingDepth piece ≤ nestingDepth content) ∧
      ∀ before closers, ClosesAll before → (∀ c ∈ closers, isOpening c = false) →
        nestingDepth (before ++ closers ++ content) = nestingDepth (before ++ content) ∧
          nestingDepth (before ++ content) = max (nestingDepth before) (nestingDepth content) := by
  refine ⟨isGreatest_nestingDepth content, fun _ => nestingDepth_le_of_infix, ?_⟩
  intro before closers hbefore hclosers
  have hcontent := nestingDepth_append hbefore content
  refine ⟨?_, hcontent⟩
  calc
    nestingDepth (before ++ closers ++ content)
        = max (nestingDepth before) (nestingDepth (closers ++ content)) := by
      rw [List.append_assoc, nestingDepth_append hbefore]
    _ = max (nestingDepth before) (max 0 (nestingDepth content)) := by
      rw [nestingDepth_append (closesAll_of_closers hclosers), nestingDepth_closers hclosers]
    _ = nestingDepth (before ++ content) := by
      rw [hcontent, Nat.zero_max]

theorem nestingDepth_behind_strayClosers :
    ClosesAll ['f', '(', 'x', ')'] ∧ (∀ c ∈ [')', ']'], isOpening c = false) ∧
      nestingDepth (['f', '(', 'x', ')'] ++ [')', ']'] ++ ['{', '[', '(']) =
        nestingDepth (['f', '(', 'x', ')'] ++ ['{', '[', '(']) := by
  have hbefore : ClosesAll ['f', '(', 'x', ')'] := by decide
  have hclosers : ∀ c ∈ [')', ']'], isOpening c = false := by simp [isOpening]
  have hpieces := (nestingDepth_isGreatest_excess ['{', '[', '(']).2.2
  exact ⟨hbefore, hclosers, (hpieces _ _ hbefore hclosers).1⟩

end RepoAudit.Complexity
