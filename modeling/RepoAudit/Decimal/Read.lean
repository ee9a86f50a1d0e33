/-!
# Reading decimals

A decimal is read as the leading digits that fit into 64 bits times a power of ten: one rounding
for the digits and one for each multiplication or division by a power of at most `10 ^ 308`.
-/

namespace RepoAudit.Decimal

def powerOfTen (n : Nat) : Float :=
  Float.ofScientific 1 false n

def scaleDown : (fuel : Nat) → Float → (exponent : Nat) → Float
  | 0, f, _ => f
  | fuel + 1, f, exponent =>
      if exponent ≤ 308 then f / powerOfTen exponent
      else scaleDown fuel (f / powerOfTen 308) (exponent - 308)

/-- `significand · 10 ^ exponent`, unless it is too large for a float. -/
def scale? (significand : Nat) (exponent : Int) : Option Float :=
  let f := significand.toUInt64.toFloat
  if significand = 0 then some 0
  else if 0 ≤ exponent then
    if exponent ≤ 308 then
      let scaled := f * powerOfTen exponent.toNat
      if scaled.isInf then none else some scaled
    else none
  else some (scaleDown 4 f (-exponent).toNat)

end RepoAudit.Decimal
