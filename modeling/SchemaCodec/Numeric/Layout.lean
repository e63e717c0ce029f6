import SchemaCodec.Numeric.Shortest

/-!
# Numeric.Layout — doubles as text

- `positional`: digits with a point where the power of ten puts it.
- `Layout`: where an exponent is written, whether integral numbers keep `.0`, and how ties go.
- `Layout.render`: the text of a double.
- `Layout.prose`: the layout of numbers quoted as text.
- `Layout.literal`: the layout of numbers as they stand in a document.
-/

namespace SchemaCodec
namespace Numeric

/-- The digits of a natural number. -/
def digitsOf (n : Nat) : List Char :=
  Nat.toDigits 10 n

/-- A run of zeros. -/
def zeros (n : Nat) : List Char :=
  List.replicate n '0'

/-- `digits · 10^k` without an exponent; an integral number ends in `tail`. -/
def positional (tail : List Char) (digits : List Char) (k : Int) : List Char :=
  if 0 ≤ k then digits ++ zeros k.toNat ++ tail
  else
    let places := (-k).toNat
    if places < digits.length then
      digits.take (digits.length - places) ++ '.' :: digits.drop (digits.length - places)
    else '0' :: '.' :: zeros (places - digits.length) ++ digits

/-- One digit in front of the point, and a signed exponent. -/
def scientific (digits : List Char) (k : Int) : List Char :=
  let e := k + (digits.length : Int) - 1
  let mantissa := match digits with
    | d :: [] => [d]
    | d :: rest => d :: '.' :: rest
    | [] => []
  mantissa ++ 'e' :: (if e < 0 then '-' else '+') :: digitsOf e.natAbs

/-- The decisions of a number format. -/
structure Layout where
  /-- least and greatest exponent of the leading digit that are written positionally, if any
  exponents are written at all -/
  positionalRange : Option (Int × Int)
  /-- what an integral number ends in -/
  integralTail : List Char
  tie : Tie

/-- The text of a positive double. -/
def Layout.magnitude (l : Layout) (mantissa : Nat) (exponent : Int) : List Char :=
  let (d, k) := shortest l.tie mantissa exponent
  let digits := digitsOf d
  let e := k + (digits.length : Int) - 1
  match l.positionalRange with
  | none => positional l.integralTail digits k
  | some (least, greatest) =>
    if least ≤ e ∧ e ≤ greatest then positional l.integralTail digits k else scientific digits k

/-- The text of a double; zero keeps its sign. -/
def Layout.render (l : Layout) : Binary64 → String
  | .finite s m q =>
    let body := if m = 0 then '0' :: l.integralTail else l.magnitude m q
    String.ofList (if s then '-' :: body else body)
  | .infinite s => if s then "-inf" else "inf"

/-- Numbers quoted as text are positional throughout and integral ones end without a point. -/
def Layout.prose : Layout where
  positionalRange := none
  integralTail := []
  tie := .up

/-- Numbers in a document have an exponent below 1e-5 and from 1e16 on, and a double is told from
an integer by its point. -/
def Layout.literal : Layout where
  positionalRange := some (-5, 15)
  integralTail := ['.', '0']
  tie := .toEven

end Numeric
end SchemaCodec
