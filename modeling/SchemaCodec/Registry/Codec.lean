import SchemaCodec.Projection.Read
import SchemaCodec.Projection.Write
import SchemaCodec.Wire.Decode
import SchemaCodec.Wire.Encode

/-!
# Registry.Codec — one message type, both encodings

- `Encoding`: the two encodings of payloads, and their names.
- `Codec`: a message type with the schema that its fields refer to.
- `Codec.decodeToJson`, `Codec.encodeJson`: from bytes to JSON, and loosely back.
- `Codec.build`: from well-typed JSON to bytes, under the limits in force.
-/

namespace SchemaCodec

/-- The encodings of payloads. -/
inductive Encoding where
  | protobuf
  | json
  deriving DecidableEq, Repr

namespace Encoding

/-- The name of an encoding. -/
def name : Encoding → String
  | .protobuf => "protobuf"
  | .json => "json"

/-- The encoding that a word names, in any case. No letter beyond ASCII has a lower-case form in
one of the names, so the case of ASCII letters is all that matters. -/
def ofName? (word : String) : Option Encoding :=
  match String.ofList (word.toList.map Char.toLower) with
  | "protobuf" | "proto" | "binary" => some .protobuf
  | "json" => some .json
  | _ => none

/-- The message for a word that names no encoding. -/
def unknownName : String :=
  "invalid encoding name, expected 'protobuf' or 'json'"

end Encoding

/-- A message type with the schema that its fields refer to. -/
structure Codec where
  schema : Schema
  type : MessageType
  deriving DecidableEq, Repr

namespace Codec

/-- The message of a payload. -/
def decode (c : Codec) (limits : Limits) (bytes : List UInt8) : Except Fault Message :=
  c.schema.decode c.type limits bytes

/-- The bytes of a message. -/
def encode (c : Codec) (m : Message) : List UInt8 :=
  c.schema.encode c.type m

/-- The object of a message. -/
def toJson (c : Codec) (m : Message) : Json :=
  c.schema.toJson c.type m

/-- The message that a value denotes. -/
def readJson (c : Codec) (coercion : Coercion) (limits : Limits) (v : Json) :
    Except Fault Message :=
  c.schema.readJson c.type coercion limits v

/-- The object of a payload. -/
def decodeToJson (c : Codec) (limits : Limits) (bytes : List UInt8) : Except Fault Json :=
  (c.decode limits bytes).map c.toJson

/-- The bytes of a value, read loosely. -/
def encodeJson (c : Codec) (limits : Limits) (v : Json) : Except Fault (List UInt8) :=
  (c.readJson .loose limits v).map c.encode

/-- The bytes of a value, read strictly under the limits in force. -/
def build (c : Codec) (installed : Option Limits) (v : Json) : Except Fault (List UInt8) :=
  (c.readJson .strict (.current installed) v).map c.encode

/-- The object of the message without any field set. -/
def defaultJson (c : Codec) : Json :=
  c.toJson c.type.empty

end Codec
end SchemaCodec
