import SchemaCodec.Schema.Message
import SchemaCodec.Text.Quoted

/-!
# Schema.Inspect — messages as diagnostic text

- `Field.label`: the name of a field in diagnostics.
- `Schema.inspect`: a message with every field by name, defaults included.

Lists stand in brackets, and a submessage is `None` or stands in `Some(…)`. A defined number of an
enumeration is shown by its label.
-/

namespace SchemaCodec

/-- The name of a field in diagnostics. The one name that is a keyword there carries a mark. -/
def Field.label (f : Field) : String :=
  if f.name == "type" then "r#type" else f.name

/-- The label of a number of a kind of enumeration, or the number. -/
def Kind.labelFor : Kind → Int32 → String
  | .enum type, n =>
    match type.find? n with
    | some v => v.label
    | none => toString n.toInt
  | _, n => toString n.toInt

/-- A type's name with its fields in braces, if there are any. -/
def braced (name : String) (fields : List String) : String :=
  if fields.isEmpty then name
  else name ++ " \x7b " ++ String.intercalate ", " fields ++ " \x7d"

/-- The default of a singular field. -/
def Kind.inspectDefault : Kind → String
  | .string => Text.quoted ""
  | .bool => "false"
  | .int32 | .uint64 => "0"
  | .enum type => (Kind.enum type).labelFor 0
  | .message _ => "None"

mutual
/-- A value of a kind. -/
def Element.inspect (σ : Schema) (kind : Kind) : Element → String
  | .string s => Text.quoted s
  | .bool b => if b then "true" else "false"
  | .int32 n => toString n.toInt
  | .uint64 n => toString n.toNat
  | .enum n => kind.labelFor n
  | .message slots =>
    let t := σ.type kind.typeName
    braced t.shortName (inspectSlots σ t.fields slots)

/-- The fields of slots with their names. -/
def inspectSlots (σ : Schema) (fields : List Field) : List (List Element) → List String
  | [] => []
  | slot :: slots =>
    match fields with
    | [] => []
    | f :: fs => (f.label ++ ": " ++ inspectSlot σ f slot) :: inspectSlots σ fs slots

/-- The values of one field. -/
def inspectSlot (σ : Schema) (f : Field) : List Element → String
  | [] => if f.repeated then "[]" else f.kind.inspectDefault
  | e :: es =>
    let first := e.inspect σ f.kind
    if f.repeated then
      "[" ++ String.intercalate ", " (first :: inspectItems σ f.kind es) ++ "]"
    else
      -- Only a submessage is told apart from its absence.
      match f.kind with
      | .message _ => "Some(" ++ first ++ ")"
      | _ => first

/-- The values of a repeated field. -/
def inspectItems (σ : Schema) (kind : Kind) : List Element → List String
  | [] => []
  | e :: es => e.inspect σ kind :: inspectItems σ kind es
end

/-- The diagnostic text of a message. -/
def Schema.inspect (σ : Schema) (t : MessageType) (m : Message) : String :=
  braced t.shortName (inspectSlots σ t.fields m)

end SchemaCodec
