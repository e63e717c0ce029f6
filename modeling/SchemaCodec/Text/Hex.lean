import SchemaCodec.Text.Blank
import SchemaCodec.Text.Utf8

/-!
# Text.Hex — bytes as hexadecimal digits

- `hex`: two lower-case digits for each byte.
- `HexFault`: why a run of digits denotes no bytes.
- `ofHexDigits`: the bytes of a run of digits, in either case.
- `payloadDigits`: what a loosely written payload leaves once blanks and one radix mark are gone.
- `ofHex`: the bytes of a loosely written payload.
-/

namespace SchemaCodec
namespace Text

/-- The digit of a number below sixteen, in lower case. -/
def hexDigit (n : Nat) : Char :=
  if n < 10 then Char.ofNat (48 + n) else Char.ofNat (87 + n)

/-- The value of the hexadecimal digit of either case with the code `n`. -/
def hexValue? (n : Nat) : Option Nat :=
  if 48 ≤ n ∧ n ≤ 57 then some (n - 48)
  else if 97 ≤ n ∧ n ≤ 102 then some (n - 87)
  else if 65 ≤ n ∧ n ≤ 70 then some (n - 55)
  else none

/-- Two lower-case digits for each byte, the high half first. -/
def hexDigits (bytes : List UInt8) : List Char :=
  bytes.flatMap fun b => [hexDigit (b.toNat / 16), hexDigit (b.toNat % 16)]

/-- The bytes written as hexadecimal digits. -/
def hex (bytes : List UInt8) : String :=
  String.ofList (hexDigits bytes)

/-- Why a run of digits denotes no bytes. -/
inductive HexFault where
  | oddLength
  | badDigit (byte : UInt8) (position : Nat)
  deriving DecidableEq, Repr

/-- Reads digits in pairs; `position` counts the bytes already read. -/
def hexPairs (position : Nat) : List UInt8 → Except HexFault (List UInt8)
  | high :: low :: rest =>
    match hexValue? high.toNat, hexValue? low.toNat with
    | some h, some l => (hexPairs (position + 2) rest).map (UInt8.ofNat (16 * h + l) :: ·)
    | some _, none => .error (.badDigit low (position + 1))
    | none, _ => .error (.badDigit high position)
  | _ => .ok []

/-- The bytes of a run of digits. An odd count is reported before any bad digit, and both
count the bytes of the UTF-8 form. -/
def ofHexDigits (digits : List UInt8) : Except HexFault (List UInt8) :=
  if digits.length % 2 = 1 then .error .oddLength else hexPairs 0 digits

/-- The text without blanks and without one leading `0x` or `0X`. -/
def payloadDigits (s : List Char) : List Char :=
  match compact s with
  | '0' :: 'x' :: rest => rest
  | '0' :: 'X' :: rest => rest
  | digits => digits

/-- The bytes of a payload written as digits with blanks anywhere and an optional radix mark. -/
def ofHex (s : String) : Except HexFault (List UInt8) :=
  ofHexDigits (utf8 (String.ofList (payloadDigits s.toList)))

end Text
end SchemaCodec
