import RepoAudit.Decimal.Shortest

/-!
# Whole numbers near a float

The whole number nearest to a float, decided on the exact value; a half goes to the even neighbour.
-/

namespace RepoAudit.Decimal

/-- The quotient rounded to the nearest whole number. -/
def roundedQuotient (number divisor : Nat) : Nat :=
  let below := number / divisor
  let left := number % divisor
  if 2 * left < divisor || (2 * left == divisor && below % 2 == 0) then below else below + 1

def Binary.nearestWhole (b : Binary) : Nat :=
  if 0 ≤ b.exponent then b.significand * Nat.pow 2 b.exponent.toNat
  else roundedQuotient b.significand (Nat.pow 2 (-b.exponent).toNat)

/-- The text of the whole number nearest to a float that is finite and not negative. -/
def wholeText (f : Float) : String :=
  toString (Binary.ofBits f.toBits.toNat).nearestWhole

end RepoAudit.Decimal
