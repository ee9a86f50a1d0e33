/-!
# Shortest decimals

A float is written with the fewest digits that read back as the same float; of two such decimals
the nearer one is taken, and of two equally near ones the even one.  Exact integers decide: a float
is `significand · 2 ^ exponent`, the reals that round to it form an interval around it, and the
decimal lies on the coarsest grid of powers of ten that has a point in that interval.
-/

namespace RepoAudit

/-- The value `digits · 10 ^ exponent`, negated when `negative`. -/
structure Decimal where
  negative : Bool
  digits : Nat
  exponent : Int

namespace Decimal

/-- A finite nonnegative float as `significand · 2 ^ exponent`. -/
structure Binary where
  significand : Nat
  exponent : Int
  /-- The next smaller float is only half as far away as the next larger one. -/
  narrowBelow : Bool

def Binary.ofBits (bits : Nat) : Binary :=
  let fraction := bits % Nat.pow 2 52
  let biased : Nat := bits / Nat.pow 2 52 % Nat.pow 2 11
  if biased = 0 then ⟨fraction, -1074, false⟩
  else ⟨fraction + Nat.pow 2 52, (↑biased : Int) - 1075, fraction == 0 && 1 < biased⟩

/-- The point of the grid `10 ^ grid` that stands for the float, when the grid has one. -/
def Binary.onGrid? (b : Binary) (grid : Int) : Option Nat :=
  let quarter := b.exponent - 2
  let up := Nat.pow 2 quarter.toNat * Nat.pow 10 (-grid).toNat
  let unit := Nat.pow 2 (-quarter).toNat * Nat.pow 10 grid.toNat
  let value := 4 * b.significand * up
  let low := (4 * b.significand - (if b.narrowBelow then 1 else 2)) * up
  let high := (4 * b.significand + 2) * up
  let even := b.significand % 2 = 0
  let fits := fun c : Nat =>
    (low < c * unit || (even && low = c * unit)) && (c * unit < high || (even && high = c * unit))
  let below := value / unit
  let nearerBelow := 2 * value < (2 * below + 1) * unit ||
    (2 * value = (2 * below + 1) * unit && below % 2 = 0)
  if fits below && (nearerBelow || !fits (below + 1)) then some below
  else if fits (below + 1) then some (below + 1)
  else none

/-- The coarsest grid with a point, from `grid` downwards. -/
def Binary.search (b : Binary) : (fuel : Nat) → (grid : Int) → Nat × Int
  | 0, grid => (0, grid)
  | fuel + 1, grid =>
      match b.onGrid? grid with
      | some digits => (digits, grid)
      | none => b.search fuel (grid - 1)

def Binary.shortest (b : Binary) : Nat × Int :=
  if b.significand = 0 then (0, 0)
  else
    let bits : Int := b.significand.log2 + b.exponent + 2
    b.search 700 (bits * 30103 / 100000 + 1)

/-- The shortest decimal of a finite float. -/
def ofFloat (f : Float) : Decimal :=
  let bits := f.toBits.toNat
  let (digits, exponent) := (Binary.ofBits bits).shortest
  ⟨UInt64.size / 2 ≤ bits, digits, exponent⟩

/-- All places written out, with a point only where there is a fraction. -/
def positional (d : Decimal) : String :=
  let sign := if d.negative then "-" else ""
  let body :=
    if 0 ≤ d.exponent then
      if d.digits = 0 then "0" else toString d.digits ++ String.ofList (List.replicate d.exponent.toNat '0')
    else
      let places := (-d.exponent).toNat
      let text := (toString d.digits).toList
      let text := List.replicate (places + 1 - text.length) '0' ++ text
      let whole := text.take (text.length - places)
      let fraction := text.drop (text.length - places)
      String.ofList (whole ++ '.' :: fraction)
  sign ++ body

/-- Positional from `0.00001` up to sixteen places before the point, always with a fraction; a
power of ten otherwise. -/
def withFraction (d : Decimal) : String :=
  let text := (toString d.digits).toList
  let point : Int := text.length + d.exponent
  if d.digits = 0 then (if d.negative then "-0.0" else "0.0")
  else if -5 < point && point ≤ 16 then
    if 0 ≤ d.exponent then d.positional ++ ".0" else d.positional
  else
    let power := point - 1
    let sign := if d.negative then "-" else ""
    let fraction := if text.length = 1 then [] else '.' :: text.drop 1
    let exponent := if power < 0 then toString power else "+" ++ toString power
    sign ++ String.ofList (text.take 1 ++ fraction) ++ "e" ++ exponent

end Decimal

/-- How a number stands in a sentence. -/
def floatText (f : Float) : String :=
  if f.isNaN then "NaN"
  else if f.isInf then (if f < 0 then "-inf" else "inf")
  else (Decimal.ofFloat f).positional

end RepoAudit
