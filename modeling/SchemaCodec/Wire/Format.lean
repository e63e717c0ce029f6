import SchemaCodec.Fault
import SchemaCodec.Schema.Type

/-!
# Wire.Format — wire types

- `WireType`: how a value is delimited on the wire, the low three bits of its key.
- `WireType.ofRaw`: the wire type of these bits.
- `Kind.wireType`: the wire type that values of a kind are written with.
-/

namespace SchemaCodec

/-- How a value is delimited on the wire. -/
inductive WireType where
  | varint
  | fixed64
  | lengthDelimited
  | startGroup
  | endGroup
  | fixed32
  deriving DecidableEq, Repr

namespace WireType

/-- The low three bits of a key. -/
def raw : WireType → Nat
  | .varint => 0
  | .fixed64 => 1
  | .lengthDelimited => 2
  | .startGroup => 3
  | .endGroup => 4
  | .fixed32 => 5

/-- The name shown for a wire type. -/
def label : WireType → String
  | .varint => "Varint"
  | .fixed64 => "SixtyFourBit"
  | .lengthDelimited => "LengthDelimited"
  | .startGroup => "StartGroup"
  | .endGroup => "EndGroup"
  | .fixed32 => "ThirtyTwoBit"

/-- The wire type of a key's low bits; `position` is where the key starts. -/
def ofRaw (raw position : Nat) : Except Fault WireType :=
  match raw with
  | 0 => .ok .varint
  | 1 => .ok .fixed64
  | 2 => .ok .lengthDelimited
  | 3 => .ok .startGroup
  | 4 => .ok .endGroup
  | 5 => .ok .fixed32
  | _ => .error (.invalidWireType raw position)

end WireType

/-- The wire type that values of a kind are written with. -/
def Kind.wireType : Kind → WireType
  | .string | .message _ => .lengthDelimited
  | .bool | .int32 | .uint64 | .enum _ => .varint

/-- The wire type that a field's values are written with. -/
def Field.wireType (f : Field) : WireType :=
  f.kind.wireType

end SchemaCodec
