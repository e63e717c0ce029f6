import SchemaCodec.Numeric.Digits

/-!
# Numeric.Binary64 — doubles as exact numbers

- `Binary64`: a signed number `m · 2^q`, or a signed infinity. There is no NaN.
- `roundDiv`: a quotient to the nearest integer, a half to the even neighbour.
- `ofRatio`: the double nearest to a quotient.
- `ofInt`, `ofScientific`: the doubles nearest to an integer and to `d · 10^e`.
- `parse?`: the double that a text denotes.
- `isZero`, `isIntegral`, `trunc`: what conversions to integers need.

Everything is computed exactly on natural numbers and rounded once.
-/

namespace SchemaCodec
namespace Numeric

/-- The least mantissa of a double that is not among the least ones: `2^52`. -/
def leastNormal : Nat := 4503599627370496

/-- A double. A finite one is `± mantissa · 2^exponent` in the form that rounding gives:
`mantissa < 2^53`, and `mantissa ≥ 2^52` unless the exponent is the least, −1074. -/
inductive Binary64 where
  | finite (negative : Bool) (mantissa : Nat) (exponent : Int)
  | infinite (negative : Bool)
  deriving DecidableEq, Repr

/-- The quotient to the nearest integer; of two at the same distance, the even one. -/
def roundDiv (num den : Nat) : Nat :=
  let q := num / den
  let r := num % den
  if 2 * r > den ∨ (2 * r = den ∧ q % 2 = 1) then q + 1 else q

/-- The exponent `e` with `2^e ≤ num / den < 2^(e+1)`, for positive `num` and `den`. -/
def floorLog2 (num den : Nat) : Int :=
  let k : Int := (num.log2 : Int) - (den.log2 : Int)
  if den * twoTo k.toNat ≤ num * twoTo (-k).toNat then k else k - 1

namespace Binary64

/-- The zero of either sign. -/
def zero (negative : Bool) : Binary64 :=
  .finite negative 0 (-1074)

/-- The double nearest to `± num / den`, the even mantissa at a tie. What rounds to `2^1024` or
more is infinite, and what rounds below the least positive double is a zero. -/
def ofRatio (negative : Bool) (num den : Nat) : Binary64 :=
  if num = 0 then zero negative
  else
    -- The exponent of the last bit that is kept; the least doubles share one.
    let e := max (floorLog2 num den - 52) (-1074)
    let m := roundDiv (num * twoTo (-e).toNat) (den * twoTo e.toNat)
    -- Rounding up may reach the next power of two.
    if m = 2 * leastNormal then
      if e < 971 then .finite negative leastNormal (e + 1) else .infinite negative
    else if e ≤ 971 then .finite negative m e
    else .infinite negative

/-- The double nearest to an integer. -/
def ofInt (n : Int) : Binary64 :=
  ofRatio (n < 0) n.natAbs 1

/-- The double nearest to `± digits · 10^exponent`. Where the decimal point alone tells that the
number is beyond the largest double, or closer to zero than to the least, no power of ten is
computed. -/
def ofScientific (negative : Bool) (digits : Nat) (exponent : Int) : Binary64 :=
  if digits = 0 then zero negative
  else
    let magnitude : Int := ((Nat.toDigits 10 digits).length : Int) + exponent
    if magnitude > 310 then .infinite negative
    else if magnitude < -330 then zero negative
    else ofRatio negative (digits * tenTo exponent.toNat) (tenTo (-exponent).toNat)

/-- Either zero. -/
def isZero : Binary64 → Bool
  | .finite _ m _ => m == 0
  | .infinite _ => false

/-- The sign as a factor. -/
def signed (negative : Bool) (n : Nat) : Int :=
  if negative then -(n : Int) else n

/-- The number with its fraction cut off, toward zero; an infinity has none. -/
def trunc : Binary64 → Option Int
  | .finite s m q => some (signed s (m * twoTo q.toNat / twoTo (-q).toNat))
  | .infinite _ => none

/-- Whether the number is finite and has no fraction. -/
def isIntegral : Binary64 → Bool
  | .finite _ m q => m * twoTo q.toNat % twoTo (-q).toNat == 0
  | .infinite _ => false

/-! ## Reading -/

/-- The exponent part behind a mantissa: nothing, or a mark, an optional sign and digits. -/
def exponentPart? : List Char → Option Int
  | [] => some 0
  | c :: rest =>
    if c = 'e' ∨ c = 'E' then
      let (negative, ds) := match rest with
        | '-' :: ds => (true, ds)
        | '+' :: ds => (false, ds)
        | ds => (false, ds)
      if ds.isEmpty || !ds.all isDigit then none else some (signed negative (ofDigits ds))
    else none

/-- A decimal without its sign: digits with an optional point, at least one digit in all, and an
optional exponent. -/
def decimal? (negative : Bool) (s : List Char) : Option Binary64 :=
  let (whole, rest) := spanDigits s
  let (fraction, rest) := match rest with
    | '.' :: rest => spanDigits rest
    | _ => ([], rest)
  if whole.isEmpty && fraction.isEmpty then none
  else (exponentPart? rest).map fun e =>
    ofScientific negative (ofDigits (whole ++ fraction)) (e - (fraction.length : Int))

/-- Splits an optional sign off a text. -/
def splitSign : List Char → Bool × List Char
  | '-' :: rest => (true, rest)
  | '+' :: rest => (false, rest)
  | s => (false, s)

/-- The double that a text denotes: a decimal, or an infinity by name in any case, either with an
optional sign. -/
def parse? (s : List Char) : Option Binary64 :=
  let (negative, body) := splitSign s
  let word := body.map Char.toLower
  if word = ['i', 'n', 'f'] ∨ word = ['i', 'n', 'f', 'i', 'n', 'i', 't', 'y'] then
    some (.infinite negative)
  else decimal? negative body

end Binary64
end Numeric
end SchemaCodec
