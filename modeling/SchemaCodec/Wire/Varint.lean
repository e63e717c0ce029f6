import SchemaCodec.Fault

/-!
# Wire.Varint — base-128 numbers

- `Varint.encode`: seven bits a byte, the lowest first, each byte but the last marked.
- `Varint.decode?`: a number of at most ten bytes at the front of a payload.
- `Varint.fault`: what is wrong where there is none.

Padded forms are accepted. Ten bytes hold 64 bits, so the tenth is 0 or 1.
-/

namespace SchemaCodec
namespace Varint

/-- The shortest form of a number. -/
def encode (n : Nat) : List UInt8 :=
  if n < 128 then [UInt8.ofNat n] else UInt8.ofNat (n % 128 + 128) :: encode (n / 128)

/-- Whether more bytes follow a byte. -/
def continues (b : UInt8) : Bool :=
  128 ≤ b.toNat

/-- A number of at most `room` bytes; the last byte that there is room for holds one bit. -/
def decodeWithin : Nat → List UInt8 → Option (Nat × List UInt8)
  | 0, _ => none
  | _, [] => none
  | 1, b :: rest => if b.toNat ≤ 1 then some (b.toNat, rest) else none
  | room + 2, b :: rest =>
    if continues b then
      match decodeWithin (room + 1) rest with
      | some (n, rest) => some (b.toNat % 128 + 128 * n, rest)
      | none => none
    else some (b.toNat, rest)

/-- The number at the front of a payload, and what follows it. -/
def decode? (bytes : List UInt8) : Option (Nat × List UInt8) :=
  decodeWithin 10 bytes

theorem decodeWithin_length {room : Nat} {bytes rest : List UInt8} {n : Nat}
    (h : decodeWithin room bytes = some (n, rest)) : rest.length < bytes.length := by
  fun_induction decodeWithin room bytes generalizing n rest with
  | case1 => cases h
  | case2 => cases h
  | case3 b tail hb => cases h; simp
  | case4 => cases h
  | case5 room b tail hb m tail' htail ih =>
    cases h
    have := ih htail
    simp only [List.length_cons]
    omega
  | case6 => cases h
  | case7 => cases h; simp

/-- Reading a number takes at least one byte. -/
theorem decode?_length {bytes rest : List UInt8} {n : Nat}
    (h : decode? bytes = some (n, rest)) : rest.length < bytes.length :=
  decodeWithin_length h

/-- What is wrong with a payload that does not start with a number: it ends too early, or the
number is too long. -/
def fault (bytes : List UInt8) (position : Nat) : Fault :=
  if bytes.length < 10 ∧ bytes.all continues then
    .bufferTooShort (bytes.length + 1) bytes.length position
  else .varintOverflow position

end Varint
end SchemaCodec
