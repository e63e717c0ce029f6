import SchemaCodec.Fault
import SchemaCodec.Projection.Coercion
import SchemaCodec.Schema.Message
import SchemaCodec.Settings.Limits

/-!
# Projection.Read — messages from JSON

- `FieldSource`: an object as a source of field values.
- `FieldSource.ofJson`: the source that a value is, checked for unknown keys if reading strictly.
- `FieldSource.slot`, `FieldSource.element`: the values of a field.
- `FieldSource.message`: the message of a source.
- `Schema.readJson`: the message that a value denotes.

A member whose value is null counts as absent. A loosely read submessage that is no object is one
without any fields set, and a loosely read list that is no array is empty.
-/

namespace SchemaCodec

/-- An object as a source of field values: its members, and how they are to be read. -/
structure FieldSource where
  members : List (String × Json)
  /-- the message type that is read, for messages -/
  typeName : String
  coercion : Coercion
  limits : Limits
  depth : Nat := 0
  deriving Repr

namespace FieldSource

/-- The first key that is none of a type's fields. -/
def unknownKey? (t : MessageType) (members : List (String × Json)) : Option String :=
  (members.find? fun m => !t.fields.any fun f => f.jsonName == m.1).map (·.1)

/-- The members of a value. Loosely, null has none. -/
def membersOf? : Coercion → Json → Option (List (String × Json))
  | _, .object members => some members
  | .loose, .null => some []
  | _, _ => none

/-- The source that a value is for a type. A strict reading refuses keys that the type lacks. -/
def ofJson (t : MessageType) (coercion : Coercion) (limits : Limits) (depth : Nat) (v : Json) :
    Except Fault FieldSource :=
  match membersOf? coercion v with
  | none => .error (.parse t.name (Mismatch.expected "an object" v.describe).message)
  | some members =>
    match coercion, unknownKey? t members with
    | .strict, some key => .error (.parse t.name (Mismatch.unknownField key).message)
    | _, _ => .ok ⟨members, t.name, coercion, limits, depth⟩

/-- The value of a key, unless it is null. -/
def get? (src : FieldSource) (key : String) : Option Json :=
  match src.members.lookup key with
  | some .null => none
  | v => v

/-- The fault of a value that does not fit a key. -/
def refuse (src : FieldSource) (key : String) (m : Mismatch) : Fault :=
  .parse s!"{src.typeName}.{key}" m.message

/-- The result of a coercion for a key. -/
def fit {α : Type} (src : FieldSource) (key : String) (r : Except Mismatch α) : Except Fault α :=
  r.mapError (src.refuse key)

/-- An unsigned number in the accepted range. -/
def uint64 (src : FieldSource) (key : String) (v : Json) : Except Fault UInt64 :=
  match src.fit key (src.coercion.uint64 v) with
  | .error e => .error e
  | .ok n =>
    if src.limits.range.accepts n then .ok n else .error (.rangeOverflow ⟨src.typeName, key⟩ n)

mutual
/-- The message of a source: a slot for each field of its type, in the order of the table. -/
def message (σ : Schema) (src : FieldSource) (t : MessageType) : Except Fault Message :=
  t.fields.mapM fun f => src.slot σ f.jsonName f.kind f.repeated
  termination_by (src.limits.recursion - src.depth, 2)

/-- The values of a field. -/
def slot (σ : Schema) (src : FieldSource) (key : String) (kind : Kind) (repeated : Bool) :
    Except Fault Slot :=
  match src.get? key with
  | none => .ok []
  | some v =>
    if repeated then
      match v, src.coercion with
      | .array items, _ => items.mapM fun item => src.element σ key kind item
      | _, .loose => .ok []
      | _, .strict => .error (src.refuse key (.expected "an array" v.describe))
    else (src.element σ key kind v).map Slot.single
  termination_by (src.limits.recursion - src.depth, 1)

/-- One value of a field. A submessage has to be allowed to open, whatever the value is. -/
def element (σ : Schema) (src : FieldSource) (key : String) (kind : Kind) (v : Json) :
    Except Fault Element :=
  match kind with
  | .string => (src.fit key (src.coercion.string v)).map .string
  | .bool => (src.fit key (src.coercion.bool v)).map .bool
  | .int32 => (src.fit key (src.coercion.int32 v)).map .int32
  | .uint64 => (src.uint64 key v).map .uint64
  | .enum e => (src.fit key (src.coercion.enum e v)).map .enum
  | .message name =>
    let t := σ.type name
    -- The depth is looked at before the value, so that no value gets past the limit.
    if _h : src.limits.recursion < src.depth + 1 then
      .error (.recursionLimit src.limits.recursion)
    else
      match v, src.coercion with
      | .object members, coercion =>
        match coercion, unknownKey? t members with
        | .strict, some key => .error (.parse t.name (Mismatch.unknownField key).message)
        | _, _ =>
          let inner := { src with members := members, typeName := t.name, depth := src.depth + 1 }
          (inner.message σ t).map .message
      -- An item of a list may be null, which is no object either.
      | _, .loose => .ok (.message t.empty)
      | _, .strict => .error (src.refuse key (.expected "an object" v.describe))
  termination_by (src.limits.recursion - src.depth, 0)
end

end FieldSource

/-- The message that a value denotes. -/
def Schema.readJson (σ : Schema) (t : MessageType) (coercion : Coercion) (limits : Limits)
    (v : Json) : Except Fault Message :=
  match FieldSource.ofJson t coercion limits 0 v with
  | .error e => .error e
  | .ok src => src.message σ t

end SchemaCodec
