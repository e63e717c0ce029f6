import SchemaCodec.Schema.Struct
import SchemaCodec.Text.Utf8
import SchemaCodec.Wire.Format
import SchemaCodec.Wire.Varint

/-!
# Wire.Encode — messages and structs as bytes

- `recordKey`: the key in front of a value.
- `Element.payload`: the bytes of a value behind its key.
- `Schema.encode`: the records of a message, in ascending order of field numbers.
- `Attribute.encode`: the records of a field as it is declared.
- `Structs.encode`: the records of a struct, in ascending order of tags.

A field at its default has no record, and a repeated field has one record for each value. A message
knows the defaults by its slots. For a struct they are found by comparing the values, so its records
need neither slots nor a field table.
-/

namespace SchemaCodec

/-- The key of a field's record. -/
def recordKey (number : Nat) (w : WireType) : List UInt8 :=
  Varint.encode (8 * number + w.raw)

/-- Bytes behind their count. -/
def counted (bytes : List UInt8) : List UInt8 :=
  Varint.encode bytes.length ++ bytes

/-- A signed number as 64 bits: the sign is extended, so negative numbers take ten bytes. -/
def signExtend (n : Int32) : Nat :=
  n.toInt64.toUInt64.toNat

mutual
/-- The bytes of a value of a kind behind its key. -/
def Element.payload (σ : Schema) (kind : Kind) : Element → List UInt8
  | .string s => counted (Text.utf8 s)
  | .bool b => Varint.encode (if b then 1 else 0)
  | .int32 n => Varint.encode (signExtend n)
  | .uint64 n => Varint.encode n.toNat
  | .enum n => Varint.encode (signExtend n)
  | .message slots => counted (fieldRecords σ (σ.type kind.typeName).fields slots)

/-- The records of slots, each with the field that it belongs to. -/
def fieldRecords (σ : Schema) (fields : List Field) : List (List Element) → List UInt8
  | [] => []
  | slot :: slots =>
    match fields with
    | [] => []
    | f :: fs => slotRecords σ f slot ++ fieldRecords σ fs slots

/-- The records of the values of one field. -/
def slotRecords (σ : Schema) (f : Field) : List Element → List UInt8
  | [] => []
  -- Every value has a key of its own: nothing is packed.
  | e :: es => recordKey f.number f.wireType ++ e.payload σ f.kind ++ slotRecords σ f es
end

/-- The bytes of a message. -/
def Schema.encode (σ : Schema) (t : MessageType) (m : Message) : List UInt8 :=
  fieldRecords σ t.fields m

/-! ## Declared fields -/

/-- A record of a declared field. -/
def Attribute.record (a : Attribute) (w : WireType) (payload : List UInt8) : List UInt8 :=
  recordKey a.tag w ++ payload

/-- The record of a plain field, unless its value is one to leave out. -/
def Attribute.single (a : Attribute) (w : WireType) (payload : List UInt8) (omitted : Bool) :
    List UInt8 :=
  if omitted then [] else a.record w payload

/-- The records of a declared field, with the structs inside its value as bytes. A value of another
kind than declared has none. -/
def Attribute.encode (a : Attribute) (v : FieldValue (List UInt8)) : List UInt8 :=
  match a.kind, a.label, v with
  | .string, .plain, .string s => a.single .lengthDelimited (counted (Text.utf8 s)) (s == "")
  | .bool, .plain, .bool b => a.single .varint (Varint.encode b.toNat) (b == false)
  | .int32, .plain, .int32 n => a.single .varint (Varint.encode (signExtend n)) (n == 0)
  | .uint64, .plain, .uint64 n => a.single .varint (Varint.encode n.toNat) (n == 0)
  | .enum type, .plain, .int32 n =>
    -- What counts here is the value that is declared first, whatever its number.
    a.single .varint (Varint.encode (signExtend n)) (n == type.initial)
  | .string, .repeated, .strings ss =>
    ss.flatMap fun s => a.record .lengthDelimited (counted (Text.utf8 s))
  | .message _, .optional, .message m =>
    m.toList.flatMap fun bytes => a.record .lengthDelimited (counted bytes)
  | .message _, .repeated, .messages ms =>
    ms.flatMap fun bytes => a.record .lengthDelimited (counted bytes)
  | _, _, _ => []

/-- The bytes of a struct. -/
def Structs.encode (δ : Structs) : Struct → List UInt8 :=
  Struct.fold fun name vs =>
    let declared := ((δ.attributes name).zip vs).mergeSort fun p q => p.1.tag ≤ q.1.tag
    declared.flatMap fun p => p.1.encode p.2

end SchemaCodec
