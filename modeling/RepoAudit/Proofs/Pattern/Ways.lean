import RepoAudit.Pattern.Basic
import Mathlib.Tactic

/-!
# The ways to match a pattern

`advance` searches with a continuation, which says nothing about where the search has been.  Here
the places that it tries are listed, the preferred one first, and searching is shown to be looking
for the first of them that the continuation accepts.  `Takes` describes the listed places without
their order.
-/

namespace RepoAudit

/-- A cursor comes from an earlier one by reading the given text. -/
@[mk_iff]
structure Cursor.Reads (c : Cursor) (taken : Text) (d : Cursor) : Prop where
  rest : c.rest = taken ++ d.rest
  before : d.before = taken.reverse ++ c.before

namespace Cursor.Reads

variable {c d e : Cursor} {taken more : Text}

theorem refl (c : Cursor) : c.Reads [] c :=
  ⟨rfl, rfl⟩

theorem nil_iff : c.Reads [] d ↔ d = c := by
  obtain ⟨before, rest⟩ := c
  obtain ⟨before', rest'⟩ := d
  simp [reads_iff, eq_comm, and_comm]

theorem cons_iff {before rest : Text} {mark first : Char} :
    Cursor.Reads ⟨before, mark :: rest⟩ (first :: taken) d ↔
      first = mark ∧ Cursor.Reads ⟨mark :: before, rest⟩ taken d := by
  simp only [reads_iff, List.cons_append, List.cons.injEq, List.reverse_cons, List.append_assoc,
    and_assoc, eq_comm]
  constructor
  · rintro ⟨rfl, hrest, hbefore⟩
    exact ⟨rfl, hrest, hbefore⟩
  · rintro ⟨rfl, hrest, hbefore⟩
    exact ⟨rfl, hrest, hbefore⟩

theorem trans (hcd : c.Reads taken d) (hde : d.Reads more e) : c.Reads (taken ++ more) e := by
  constructor
  · rw [hcd.rest, hde.rest, List.append_assoc]
  · rw [hde.before, hcd.before, List.reverse_append, List.append_assoc]

theorem append_iff : c.Reads (taken ++ more) e ↔ ∃ d, c.Reads taken d ∧ d.Reads more e := by
  constructor
  · rintro ⟨hrest, hbefore⟩
    refine ⟨⟨taken.reverse ++ c.before, more ++ e.rest⟩, ⟨?_, rfl⟩, ⟨rfl, ?_⟩⟩
    · rw [hrest, List.append_assoc]
    · rw [hbefore, List.reverse_append, List.append_assoc]
  · rintro ⟨d, hcd, hde⟩
    exact hcd.trans hde

theorem text (h : c.Reads taken d) : d.text = c.text := by
  simp [Cursor.text, h.rest, h.before]

theorem upTo (h : c.Reads taken d) : c.upTo d = taken := by
  simp [Cursor.upTo, h.rest]

end Cursor.Reads

namespace Pattern

variable {member : Char → Bool}

/-! ## The list of the ways -/

def mostWays (member : Char → Bool) : (before rest : Text) → List Cursor
  | before, [] => [⟨before, []⟩]
  | before, c :: rest =>
      if member c then mostWays member (c :: before) rest ++ [⟨before, c :: rest⟩]
      else [⟨before, c :: rest⟩]

def leastWays (member : Char → Bool) : (before rest : Text) → List Cursor
  | before, [] => [⟨before, []⟩]
  | before, c :: rest =>
      ⟨before, c :: rest⟩ :: if member c then leastWays member (c :: before) rest else []

def repeatWays (greed : Greed) (step : Progress → List Progress) :
    (fuel : Nat) → Progress → List Progress
  | 0, p => [p]
  | fuel + 1, p =>
      let again := (step p).flatMap fun q =>
        if q.cursor.rest.length < p.cursor.rest.length then repeatWays greed step fuel q else []
      match greed with
      | .greedy => again ++ [p]
      | .lazily => p :: again

/-- Every way to match from a place, in order of preference. -/
def ways : Pattern → Progress → List Progress
  | .empty, p => [p]
  | .one member, p =>
      match p.cursor.rest with
      | [] => []
      | c :: rest => if member c then [{ p with cursor := ⟨c :: p.cursor.before, rest⟩ }] else []
  | .seq first second, p => (first.ways p).flatMap second.ways
  | .alt preferred other, p => preferred.ways p ++ other.ways p
  | .run .greedy member, p =>
      (mostWays member p.cursor.before p.cursor.rest).map fun c => { p with cursor := c }
  | .run .lazily member, p =>
      (leastWays member p.cursor.before p.cursor.rest).map fun c => { p with cursor := c }
  | .star greed body, p => repeatWays greed body.ways p.cursor.rest.length p
  | .group index body, p =>
      (body.ways p).map fun q => { q with groups := (index, p.cursor, q.cursor) :: q.groups }
  | .wordBoundary, p => if p.cursor.atWordBoundary then [p] else []
  | .lineStart, p => if p.cursor.before.head?.all (· == '\n') then [p] else []
  | .textStart, p => if p.cursor.before.isEmpty then [p] else []
  | .textEnd, p => if p.cursor.rest.isEmpty then [p] else []

theorem takeMost_eq (next : Cursor → Option α) (before rest : Text) :
    takeMost member next before rest = (mostWays member before rest).findSome? next := by
  induction rest generalizing before with
  | nil => simp [takeMost, mostWays]
  | cons c rest ih =>
      rw [takeMost, mostWays]
      split
      · rw [ih, List.findSome?_append]
        simp
      · simp

theorem takeLeast_eq (next : Cursor → Option α) (before rest : Text) :
    takeLeast member next before rest = (leastWays member before rest).findSome? next := by
  induction rest generalizing before with
  | nil => simp [takeLeast, leastWays]
  | cons c rest ih =>
      rw [takeLeast, leastWays, ih, List.findSome?_cons]
      cases next ⟨before, c :: rest⟩ with
      | some a => rfl
      | none => split <;> rfl

theorem findSome?_flatMap {β γ : Type} (l : List β) (f : β → List γ) (next : γ → Option α) :
    (l.flatMap f).findSome? next = l.findSome? fun b => (f b).findSome? next := by
  induction l with
  | nil => rfl
  | cons b l ih =>
      rw [List.flatMap_cons, List.findSome?_append, ih, List.findSome?_cons]
      cases (f b).findSome? next <;> rfl

theorem repeatStep_eq {greed : Greed} {step : Progress → (Progress → Option α) → Option α}
    {stepWays : Progress → List Progress}
    (hstep : ∀ p next, step p next = (stepWays p).findSome? next) (next : Progress → Option α)
    (fuel : Nat) (p : Progress) :
    repeatStep greed step next fuel p = (repeatWays greed stepWays fuel p).findSome? next := by
  induction fuel generalizing p with
  | zero => simp [repeatStep, repeatWays]
  | succ fuel ih =>
      have hagain : (step p fun q =>
          if q.cursor.rest.length < p.cursor.rest.length then repeatStep greed step next fuel q
          else none) =
          ((stepWays p).flatMap fun q =>
            if q.cursor.rest.length < p.cursor.rest.length then repeatWays greed stepWays fuel q
            else []).findSome? next := by
        rw [hstep, findSome?_flatMap]
        congr 1
        funext q
        split
        · exact ih q
        · rfl
      cases greed with
      | greedy =>
          simp only [repeatStep, repeatWays, hagain, List.findSome?_append]
          simp
      | lazily =>
          simp only [repeatStep, repeatWays, hagain, List.findSome?_cons]
          cases next p <;> rfl

/-- Matching takes the first of the ways that is accepted afterwards. -/
theorem advance_eq (pattern : Pattern) (p : Progress) (next : Progress → Option α) :
    pattern.advance p next = (pattern.ways p).findSome? next := by
  induction pattern generalizing p next with
  | empty => simp [advance, ways]
  | one member =>
      rw [advance, ways]
      cases p.cursor.rest with
      | nil => rfl
      | cons c rest => by_cases hc : member c = true <;> simp [hc]
  | seq first second ihFirst ihSecond =>
      rw [advance, ways, findSome?_flatMap, ihFirst]
      simp only [ihSecond]
  | alt preferred other ihPreferred ihOther =>
      rw [advance, ways, ihPreferred, ihOther, List.findSome?_append]
      cases (preferred.ways p).findSome? next <;> rfl
  | run greed member =>
      cases greed with
      | greedy => rw [advance, ways, takeMost_eq, List.findSome?_map]; rfl
      | lazily => rw [advance, ways, takeLeast_eq, List.findSome?_map]; rfl
  | star greed body ih => exact repeatStep_eq ih next _ p
  | group index body ih =>
      rw [advance, ways, ih, List.findSome?_map]
      rfl
  | wordBoundary => rw [advance, ways]; split <;> simp
  | lineStart => rw [advance, ways]; split <;> simp
  | textStart => rw [advance, ways]; split <;> simp
  | textEnd => rw [advance, ways]; split <;> simp

end Pattern
end RepoAudit
