import RepoAudit.Text.Basic

/-!
# Tallies

How often each name occurs, which occurs most, and what counts come to.
-/

namespace RepoAudit

def sumOf (counts : List Nat) : Nat :=
  counts.foldr (· + ·) 0

/-- Each name once, in order, with the number of its occurrences. -/
def tally (names : List String) : List (String × Nat) :=
  (names.eraseDups.mergeSort nameLe).map fun name => (name, names.count name)

/-- The first of the pairs with the largest number. -/
def mostFrequent? : List (α × Nat) → Option (α × Nat)
  | [] => none
  | pair :: pairs =>
      match mostFrequent? pairs with
      | none => some pair
      | some best => if best.2 ≤ pair.2 then some pair else some best

end RepoAudit
