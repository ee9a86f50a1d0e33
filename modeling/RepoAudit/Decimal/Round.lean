/-!
# Rounding and percentages

Every average and percentage is reported with one decimal place.
-/

namespace RepoAudit

/-- The whole number nearest to a positive value; a half goes up.  From 2^52 on all values are
whole. -/
def nearestWhole (value : Float) : Float :=
  if value < 4503599627370496 then
    let whole := value.toUInt64.toFloat
    if 0.5 ≤ value - whole then whole + 1 else whole
  else value

/-- The nearest whole number; a half goes away from zero. -/
def roundAway (value : Float) : Float :=
  if 0 < value then nearestWhole value
  else if value < 0 then -nearestWhole (-value)
  else value

/-- The nearest multiple of a tenth; a half goes away from zero. -/
def round1 (value : Float) : Float :=
  roundAway (value * 10.0) / 10.0

def clamp (low high value : Float) : Float :=
  if value < low then low else if high < value then high else value

/-- The share of `part` in `total` in percent, at most 100, and 0 of nothing. -/
def percentage (part total : Nat) : Float :=
  if total = 0 then 0
  else round1 (clamp 0 100 (part.toFloat / total.toFloat * 100))

end RepoAudit
