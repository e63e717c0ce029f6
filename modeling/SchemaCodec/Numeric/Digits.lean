import SchemaCodec.Numeric.Width

/-!
# Numeric.Digits — decimal digits

- `isDigit`, `digitValue`: the ten ASCII digits and what they stand for.
- `ofDigits`: the number that a run of digits denotes.
- `spanDigits`: the run of digits in front of a text, and what follows it.
- `unsigned?`: an unsigned number with an optional plus sign.
- `uint64?`: the same, bounded to 64 bits.
-/

namespace SchemaCodec
namespace Numeric

/-- The ten ASCII digits; no other character counts as one. -/
def isDigit (c : Char) : Bool :=
  '0' ≤ c && c ≤ '9'

/-- What a digit stands for. -/
def digitValue (c : Char) : Nat :=
  c.toNat - 48

/-- The number that a run of digits denotes, most significant first. -/
def ofDigits (ds : List Char) : Nat :=
  ds.foldl (fun n c => 10 * n + digitValue c) 0

/-- The run of digits in front of a text, and what follows it. -/
def spanDigits (s : List Char) : List Char × List Char :=
  (s.takeWhile isDigit, s.dropWhile isDigit)

/-- An unsigned number: one or more digits behind an optional plus sign. -/
def unsigned? (s : List Char) : Option Nat :=
  let ds := match s with
    | '+' :: rest => rest
    | _ => s
  if ds.isEmpty || !ds.all isDigit then none else some (ofDigits ds)

/-- An unsigned number below 2^64. -/
def uint64? (s : List Char) : Option UInt64 :=
  match unsigned? s with
  | some n => if fitsUInt64 n then some (UInt64.ofNat n) else none
  | none => none

end Numeric
end SchemaCodec
