import SchemaCodec.Numeric.Binary64

/-!
# Numeric.Shortest — the fewest digits that read back

- `Interval`: the numbers that round to a given positive double, on an exact scale.
- `Interval.nearby`: the multiples of a power of ten next to the double that lie inside.
- `shortest`: the digits and the power of ten that are written for a double.

The coarsest decimal grid with a point inside the interval gives the fewest digits; of two points
the nearer is taken, and `Tie` settles the rest.
-/

namespace SchemaCodec
namespace Numeric

/-- Which of two equally near neighbours is taken. -/
inductive Tie where
  | toEven
  | up
  deriving DecidableEq, Repr

/-- The numbers that round to `m · 2^q`, in quarters of the unit `2^q`: from `low` to `high`,
with both ends if `closed`. -/
structure Interval where
  low : Nat
  value : Nat
  high : Nat
  closed : Bool
  deriving DecidableEq, Repr

/-- The interval of a positive double. Below a power of two the gap is half as wide, unless the
double is among the least. -/
def Interval.of (mantissa : Nat) (exponent : Int) : Interval where
  low := 4 * mantissa - (if mantissa = leastNormal ∧ exponent > -1074 then 1 else 2)
  value := 4 * mantissa
  high := 4 * mantissa + 2
  closed := mantissa % 2 = 0

/-- Whether `digits · den` lies in the interval scaled by `num`. -/
def Interval.holds (i : Interval) (num den digits : Nat) : Bool :=
  if i.closed then i.low * num ≤ digits * den && digits * den ≤ i.high * num
  else i.low * num < digits * den && digits * den < i.high * num

/-- The multiple of `10^k` to be written, if one of the two neighbours of the value on that grid
reads back. -/
def Interval.nearby (i : Interval) (tie : Tie) (exponent k : Int) : Option Nat :=
  -- A quarter of the unit is `num / den` steps of the grid.
  let num := twoTo (exponent - 2).toNat * tenTo (-k).toNat
  let den := twoTo (2 - exponent).toNat * tenTo k.toNat
  let below := i.value * num / den
  let above := below + 1
  match i.holds num den below, i.holds num den above with
  | true, true =>
    -- Both neighbours read back: the distances decide, both scaled by `den`.
    let down := i.value * num - below * den
    let up := above * den - i.value * num
    if down < up then some below
    else if up < down then some above
    else match tie with
      | .up => some above
      | .toEven => some (if below % 2 = 0 then below else above)
  | true, false => some below
  | false, true => some above
  | false, false => none

/-- Tries the grids `10^k`, `10^(k-1)`, … -/
def Interval.search (i : Interval) (tie : Tie) (exponent : Int) : Nat → Int → Nat × Int
  | 0, k => (0, k)
  | fuel + 1, k =>
    match i.nearby tie exponent k with
    | some digits => (digits, k)
    | none => i.search tie exponent fuel (k - 1)

/-- The digits `d` and the exponent `k` of the number `d · 10^k` written for a positive double.
No double needs a grid coarser than `10^309` or finer than `10^(-324)`. -/
def shortest (tie : Tie) (mantissa : Nat) (exponent : Int) : Nat × Int :=
  (Interval.of mantissa exponent).search tie exponent 634 309

end Numeric
end SchemaCodec
