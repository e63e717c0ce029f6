import SchemaCodec.Json.Value
import SchemaCodec.Schema.Struct
import SchemaCodec.Settings.Limits

/-!
# Projection.Write — messages and structs as JSON

- `Element.toJson`: a value of a field.
- `Schema.toJson`: the object of a message.
- `ObjectWriter`: the members written so far, with one way of writing for each kind of field.
- `Field.write`, `Structs.toJson`: the value of a field, and the object of a struct.
- `Schema.writeField`: the members after the slot of one more field.

Only fields that are not at their defaults have a member. A message knows them by its slots, and an
`ObjectWriter` finds out from the value of each field. Enumerations are written by symbol, and
numbers that doubles cannot tell apart as decimal strings.
-/

namespace SchemaCodec

/-- An unsigned number, as a string where it is above the safe integers. -/
def unsignedJson (n : UInt64) : Json :=
  if n ≤ maxSafeInteger then .ofInt n.toNat else .string (toString n.toNat)

/-- The symbol written for a number of a kind of enumeration. -/
def Kind.symbolFor : Kind → Int32 → String
  | .enum type, n => type.symbolFor n
  | _, _ => EnumType.unrecognizedSymbol

mutual
/-- A value of a kind. -/
def Element.toJson (σ : Schema) (kind : Kind) : Element → Json
  | .string s => .string s
  | .bool b => .bool b
  | .int32 n => .ofInt n.toInt
  | .uint64 n => unsignedJson n
  | .enum n => .string (kind.symbolFor n)
  | .message slots => .ofMembers (slotMembers σ (σ.type kind.typeName).fields slots)

/-- The members of slots, each with the field that it belongs to. -/
def slotMembers (σ : Schema) (fields : List Field) : List (List Element) → List (String × Json)
  | [] => []
  | slot :: slots =>
    match fields with
    | [] => []
    | f :: fs => slotMember σ f slot ++ slotMembers σ fs slots

/-- The member of one slot: none if it is empty, all values if its field is repeated. -/
def slotMember (σ : Schema) (f : Field) : List Element → List (String × Json)
  | [] => []
  | e :: es =>
    if f.repeated then [(f.jsonName, .array (e.toJson σ f.kind :: slotItems σ f.kind es))]
    else [(f.jsonName, e.toJson σ f.kind)]

/-- The values of a repeated field. -/
def slotItems (σ : Schema) (kind : Kind) : List Element → List Json
  | [] => []
  | e :: es => e.toJson σ kind :: slotItems σ kind es
end

/-- The object of a message. -/
def Schema.toJson (σ : Schema) (t : MessageType) (m : Message) : Json :=
  .ofMembers (slotMembers σ t.fields m)

/-! ## Writing field by field -/

/-- The members written so far, in ascending order of their keys. -/
abbrev ObjectWriter := List (String × Json)

namespace ObjectWriter

variable (w : ObjectWriter) (key : String)

/-- A member, unless its value is one to leave out. -/
def member (value : Json) (omitted : Bool) : ObjectWriter :=
  if omitted then w else Json.insert key value w

/-- A text, unless it is empty. -/
def string (value : String) : ObjectWriter :=
  w.member key (.string value) value.isEmpty

/-- A truth value, unless it is false. -/
def bool (value : Bool) : ObjectWriter :=
  w.member key (.bool true) (!value)

/-- A signed number, unless it is zero. -/
def int32 (value : Int32) : ObjectWriter :=
  w.member key (.ofInt value.toInt) (value == 0)

/-- An unsigned number, unless it is zero. -/
def uint64 (value : UInt64) : ObjectWriter :=
  w.member key (unsignedJson value) (value == 0)

/-- The symbol of a number of an enumeration, unless it is zero. -/
def enumeration (type : EnumType) (value : Int32) : ObjectWriter :=
  w.member key (.string (type.symbolFor value)) (value == 0)

/-- Texts, unless there are none. -/
def strings (values : List String) : ObjectWriter :=
  w.member key (.array (values.map .string)) values.isEmpty

/-- An object that may be missing. It is written even if it has no members. -/
def message (value : Option Json) : ObjectWriter :=
  match value with
  | some v => Json.insert key v w
  | none => w

/-- Objects, unless there are none. -/
def messages (values : List Json) : ObjectWriter :=
  w.member key (.array values) values.isEmpty

end ObjectWriter

/-- The members after a field of a table row has been written. A value of another kind than the row
says has no way of being written. -/
def Field.write (f : Field) (v : FieldValue Json) (w : ObjectWriter) : ObjectWriter :=
  match f.kind, f.repeated, v with
  | .string, false, .string s => w.string f.jsonName s
  | .bool, false, .bool b => w.bool f.jsonName b
  | .int32, false, .int32 n => w.int32 f.jsonName n
  | .uint64, false, .uint64 n => w.uint64 f.jsonName n
  | .enum type, false, .int32 n => w.enumeration f.jsonName type n
  | .string, true, .strings ss => w.strings f.jsonName ss
  | .message _, false, .message m => w.message f.jsonName m
  | .message _, true, .messages ms => w.messages f.jsonName ms
  | _, _, _ => w

/-- The object of a struct: its fields are written in the order of the table. -/
def Structs.toJson (δ : Structs) (σ : Schema) : Struct → Json :=
  Struct.fold fun name vs =>
    .object ((δ.rows σ name vs).foldl (fun w q => q.1.write q.2 w) [])

/-- The value of a singular field that is not a submessage. -/
def Element.scalar {α : Type} : Element → FieldValue α
  | .string s => .string s
  | .bool b => .bool b
  | .int32 n => .int32 n
  | .uint64 n => .uint64 n
  | .enum n => .int32 n
  | .message _ => .message none

/-- The text of a value that is one. -/
def Element.text? : Element → Option String
  | .string s => some s
  | _ => none

/-- What a field holds whose values stand in a slot, with the submessages as JSON. -/
def Field.held (σ : Schema) (f : Field) (slot : Slot) : FieldValue Json :=
  match f.kind, f.repeated with
  | .message _, true => .messages (slot.map (Element.toJson σ f.kind))
  | .message _, false => .message (slot.head?.map (Element.toJson σ f.kind))
  | _, true => .strings (slot.filterMap Element.text?)
  | kind, false => (slot.head?.getD kind.zero).scalar

/-- The members after the slot of one more field. -/
def Schema.writeField (σ : Schema) (f : Field) (slot : Slot) (w : ObjectWriter) : ObjectWriter :=
  f.write (f.held σ slot) w

end SchemaCodec
