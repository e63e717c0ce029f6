import SchemaCodec.Catalog.Standard
import SchemaCodec.Fault
import SchemaCodec.Wire.Encode

/-!
# Catalog.Descriptor — the schema described to other tools

- `Descriptor.schema`: the types that descriptions are messages of.
- `Descriptor.ofMessage`, `Descriptor.ofEnum`, `Descriptor.ofFile`: descriptions.
- `Descriptor.encodedSet`: the encoded description of every file.
- `Catalog.declaration?`: the declaration with a full name, with its file.

Descriptions are messages like any other; only here a value is written even if it is zero.
-/

namespace SchemaCodec
namespace Descriptor

/-! ## The types of descriptions -/

/-- A value of an enumeration. -/
def enumValueType : MessageType where
  name := "google.protobuf.EnumValueDescriptorProto"
  fields := [
    ⟨1, "name", "name", .string, false⟩,
    ⟨2, "number", "number", .int32, false⟩]

/-- An enumeration. -/
def enumType : MessageType where
  name := "google.protobuf.EnumDescriptorProto"
  fields := [
    ⟨1, "name", "name", .string, false⟩,
    ⟨2, "value", "value", .message "google.protobuf.EnumValueDescriptorProto", true⟩]

/-- A field. Label and type are numbers here. -/
def fieldType : MessageType where
  name := "google.protobuf.FieldDescriptorProto"
  fields := [
    ⟨1, "name", "name", .string, false⟩,
    ⟨3, "number", "number", .int32, false⟩,
    ⟨4, "label", "label", .int32, false⟩,
    ⟨5, "type", "type", .int32, false⟩,
    ⟨6, "type_name", "typeName", .string, false⟩,
    ⟨10, "json_name", "jsonName", .string, false⟩]

/-- A message type. -/
def messageType : MessageType where
  name := "google.protobuf.DescriptorProto"
  fields := [
    ⟨1, "name", "name", .string, false⟩,
    ⟨2, "field", "field", .message "google.protobuf.FieldDescriptorProto", true⟩,
    ⟨4, "enum_type", "enumType", .message "google.protobuf.EnumDescriptorProto", true⟩]

/-- A file. -/
def fileType : MessageType where
  name := "google.protobuf.FileDescriptorProto"
  fields := [
    ⟨1, "name", "name", .string, false⟩,
    ⟨2, "package", "package", .string, false⟩,
    ⟨4, "message_type", "messageType", .message "google.protobuf.DescriptorProto", true⟩,
    ⟨12, "syntax", "syntax", .string, false⟩]

/-- A set of files. -/
def setType : MessageType where
  name := "google.protobuf.FileDescriptorSet"
  fields := [⟨1, "file", "file", .message "google.protobuf.FileDescriptorProto", true⟩]

/-- The types that descriptions are messages of. -/
def schema : Schema :=
  ⟨[setType, fileType, messageType, fieldType, enumType, enumValueType]⟩

/-! ## Descriptions -/

/-- The number of a kind, and the name of the type that it refers to. -/
def kindSlots : Kind → Slot × Slot
  | .string => ([.int32 9], [])
  | .bool => ([.int32 8], [])
  | .int32 => ([.int32 5], [])
  | .uint64 => ([.int32 4], [])
  | .enum e => ([.int32 14], [.string ("." ++ e.name)])
  | .message name => ([.int32 11], [.string ("." ++ name)])

/-- The description of a field. -/
def ofField (f : Field) : Message :=
  let (type, typeName) := kindSlots f.kind
  -- The label is three for repeated fields and one for all others.
  [[.string f.name], [.int32 (Int32.ofNat f.number)], [.int32 (if f.repeated then 3 else 1)],
    type, typeName, [.string f.jsonName]]

/-- The description of a value of an enumeration. -/
def ofEnumValue (v : EnumValue) : Message :=
  [[.string v.symbol], [.int32 v.number]]

/-- The description of an enumeration. -/
def ofEnum (e : EnumType) : Message :=
  [[.string (unqualified e.name)], e.values.map fun v => .message (ofEnumValue v)]

/-- The description of a message type with the enumerations inside it. -/
def ofMessage (t : MessageType) (enums : List EnumType) : Message :=
  [[.string t.shortName], t.fields.map fun f => .message (ofField f),
    enums.map fun e => .message (ofEnum e)]

/-- The description of a file. -/
def ofFile (file : SchemaFile) : Message :=
  [[.string file.path], [.string file.package],
    file.types.map fun d => .message (ofMessage d.type d.enums), [.string "proto3"]]

/-- The encoded description of a message type by itself. -/
def encodedMessage (t : MessageType) : List UInt8 :=
  schema.encode messageType (ofMessage t [])

/-- The encoded description of every file. -/
def encodedSet : List UInt8 :=
  schema.encode setType [Catalog.files.map fun file => .message (ofFile file)]

end Descriptor

/-! ## Finding declarations -/

namespace Catalog

/-- Every declaration with its file, in the order of the files. -/
def declarations : List (SchemaFile × Declaration) :=
  files.flatMap fun file => file.types.map fun d => (file, d)

/-- A name without the dot that may mark it as a full one. -/
def unrooted (name : String) : String :=
  match name.toList with
  | '.' :: rest => String.ofList rest
  | _ => name

/-- The declaration with a full name, rooted or not. -/
def declaration? (name : String) : Except Fault (SchemaFile × Declaration) :=
  match declarations.find? fun d => d.2.type.name == unrooted name with
  | some d => .ok d
  | none => .error (.typeNotFound name)

end Catalog
end SchemaCodec
