/-!
# Numeric.Width — powers and the widths of integers

- `twoTo`, `tenTo`: the powers of two and of ten.
- `fitsInt32`, `fitsUInt32`, `fitsInt64`, `fitsUInt64`: whether so many bits hold an integer.
-/

namespace SchemaCodec
namespace Numeric

/-- A power of two. -/
def twoTo (k : Nat) : Nat :=
  Nat.pow 2 k

/-- A power of ten. -/
def tenTo (k : Nat) : Nat :=
  Nat.pow 10 k

/-- Whether 32 bits hold a signed integer. -/
def fitsInt32 (n : Int) : Bool :=
  -2147483648 ≤ n && n ≤ 2147483647

/-- Whether 32 bits hold an unsigned integer. -/
def fitsUInt32 (n : Int) : Bool :=
  0 ≤ n && n ≤ 4294967295

/-- Whether 64 bits hold a signed integer. -/
def fitsInt64 (n : Int) : Bool :=
  -9223372036854775808 ≤ n && n ≤ 9223372036854775807

/-- Whether 64 bits hold an unsigned integer. -/
def fitsUInt64 (n : Int) : Bool :=
  0 ≤ n && n ≤ 18446744073709551615

end Numeric
end SchemaCodec
