/-!
# Character classes by boundaries

A class of characters is given by the code points at which membership changes, in increasing order:
a character belongs to it exactly when an odd number of these boundaries is at most its code point.
-/

namespace RepoAudit.CharClass

/-- The number of boundaries at most `n`, when it lies between `low` and `high`. -/
def countUpTo (boundaries : Array Nat) (n : Nat) : (fuel low high : Nat) → Nat
  | 0, low, _ => low
  | fuel + 1, low, high =>
      if low < high then
        let middle := (low + high) / 2
        if boundaries.getD middle 0 ≤ n then countUpTo boundaries n fuel (middle + 1) high
        else countUpTo boundaries n fuel low middle
      else low

def within (boundaries : Array Nat) (c : Char) : Bool :=
  countUpTo boundaries c.toNat 16 0 boundaries.size % 2 == 1

end RepoAudit.CharClass
