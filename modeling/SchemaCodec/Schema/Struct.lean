import SchemaCodec.Schema.Message

/-!
# Schema.Struct — structs with a value in every field

- `FieldValue`: what a field of a struct holds, at its default or not.
- `Struct`: a struct of a named type, with a value for each of its fields.
- `Struct.fold`: a struct turned into something else, the structs inside it first.
- `Attribute`, `StructType`, `Structs`: how the fields of structs are declared.
- `Structs.rows`: the rows of a field table, each with the value of the field that it names.
- `Structs.message`: the slots that a struct stands for.

Nothing in a struct marks a field as absent: whoever writes one tells that from the value, with a
rule for each kind of field. The fields are declared by attributes for one encoding and by the rows
of a field table for the other, and only the names of the fields connect the two.
-/

namespace SchemaCodec

/-! ## Values of fields -/

/-- What a field of a struct holds, with the structs inside it as values of `α`. The number of an
enumeration is a signed number like any other. -/
inductive FieldValue (α : Type) where
  | string (s : String)
  | bool (b : Bool)
  | int32 (n : Int32)
  | uint64 (n : UInt64)
  | strings (ss : List String)
  | message (m : Option α)
  | messages (ms : List α)
  deriving DecidableEq, Repr

namespace FieldValue

variable {α β : Type}

/-- The structs inside a value, as something else. -/
def map (g : α → β) : FieldValue α → FieldValue β
  | string s => string s
  | bool b => bool b
  | int32 n => int32 n
  | uint64 n => uint64 n
  | strings ss => strings ss
  | message m => message (m.map g)
  | messages ms => messages (ms.map g)

/-- The structs inside a value. -/
def inner : FieldValue α → List α
  | message m => m.toList
  | messages ms => ms
  | _ => []

/-- The slot of a field of a kind that holds a value. -/
def slot (kind : Kind) : FieldValue Message → Slot
  | string s => .single (.string s)
  | bool b => .single (.bool b)
  | int32 n =>
    match kind with
    | .enum _ => .single (.enum n)
    | _ => .single (.int32 n)
  | uint64 n => .single (.uint64 n)
  | strings ss => ss.map .string
  | message m => m.toList.map .message
  | messages ms => ms.map .message

end FieldValue

/-! ## Structs -/

/-- A struct: the name of its type, and a value for each of its fields in the order of their
declarations. -/
inductive Struct where
  | mk (typeName : String) (values : List (FieldValue Struct))

namespace Struct

/-- The name of the type of a struct. -/
def typeName : Struct → String
  | mk name _ => name

/-- The values of the fields of a struct. -/
def values : Struct → List (FieldValue Struct)
  | mk _ vs => vs

variable {α : Type}

mutual
/-- What a rule makes of a struct, after it has been applied to the structs inside. -/
def fold (rule : String → List (FieldValue α) → α) : Struct → α
  | mk name vs => rule name (foldValues rule vs)

/-- The values of a struct after a rule has been applied inside. -/
def foldValues (rule : String → List (FieldValue α) → α) :
    List (FieldValue Struct) → List (FieldValue α)
  | [] => []
  | v :: vs => foldValue rule v :: foldValues rule vs

/-- A value after a rule has been applied inside. -/
def foldValue (rule : String → List (FieldValue α) → α) : FieldValue Struct → FieldValue α
  | .string s => .string s
  | .bool b => .bool b
  | .int32 n => .int32 n
  | .uint64 n => .uint64 n
  | .strings ss => .strings ss
  | .message m => .message (foldOption rule m)
  | .messages ms => .messages (foldList rule ms)

/-- What a rule makes of a struct that may be missing. -/
def foldOption (rule : String → List (FieldValue α) → α) : Option Struct → Option α
  | none => none
  | some s => some (s.fold rule)

/-- What a rule makes of several structs. -/
def foldList (rule : String → List (FieldValue α) → α) : List Struct → List α
  | [] => []
  | s :: ss => s.fold rule :: foldList rule ss
end

variable (rule : String → List (FieldValue α) → α)

theorem foldOption_eq_map (m : Option Struct) : foldOption rule m = m.map (fold rule) := by
  cases m <;> rfl

theorem foldList_eq_map (ss : List Struct) : foldList rule ss = ss.map (fold rule) := by
  induction ss with
  | nil => rfl
  | cons s ss ih => rw [foldList, ih, List.map_cons]

theorem foldValue_eq_map (v : FieldValue Struct) : foldValue rule v = v.map (fold rule) := by
  cases v with
  | message m => exact congrArg FieldValue.message (foldOption_eq_map rule m)
  | messages ms => exact congrArg FieldValue.messages (foldList_eq_map rule ms)
  | _ => rfl

theorem foldValues_eq_map (vs : List (FieldValue Struct)) :
    foldValues rule vs = vs.map (FieldValue.map (fold rule)) := by
  induction vs with
  | nil => rfl
  | cons v vs ih => rw [foldValues, foldValue_eq_map, ih, List.map_cons]

/-- A rule is applied to the values of a struct, after the structs inside. -/
theorem fold_eq (s : Struct) :
    s.fold rule = rule s.typeName (s.values.map (FieldValue.map (fold rule))) := by
  cases s with
  | mk name vs => exact congrArg (rule name) (foldValues_eq_map rule vs)

end Struct

/-! ## Declarations -/

/-- How often a field may be set: a plain field always holds a value of its kind. -/
inductive Label where
  | plain
  | optional
  | repeated
  deriving DecidableEq, Repr

/-- The declaration of a field of a struct, for the encoding as bytes. -/
structure Attribute where
  tag : Nat
  name : String
  kind : Kind
  label : Label
  deriving DecidableEq, Repr

/-- The number that a field of an enumeration holds at first: that of the value declared first. -/
def EnumType.initial (e : EnumType) : Int32 :=
  (e.values.head?.map (·.number)).getD 0

/-- What a field holds in a struct that is new. -/
def Attribute.default {α : Type} (a : Attribute) : FieldValue α :=
  match a.label, a.kind with
  | .plain, .string => .string ""
  | .plain, .bool => .bool false
  | .plain, .int32 => .int32 0
  | .plain, .uint64 => .uint64 0
  | .plain, .enum type => .int32 type.initial
  | .repeated, .message _ => .messages []
  | .repeated, _ => .strings []
  | _, _ => .message none

/-- The declaration of a struct. -/
structure StructType where
  name : String
  attributes : List Attribute
  deriving DecidableEq, Repr

/-- The declarations that names refer to. -/
structure Structs where
  types : List StructType
  deriving DecidableEq, Repr

namespace Structs

/-- The fields of the struct with a name. A name without a declaration has none. -/
def attributes (δ : Structs) (name : String) : List Attribute :=
  ((δ.types.find? fun t => t.name == name).map (·.attributes)).getD []

/-- The struct of a name with every field as in a new one. -/
def default (δ : Structs) (name : String) : Struct :=
  .mk name ((δ.attributes name).map Attribute.default)

/-- The rows of the field table of a type, each with the value of the field that it names. -/
def rows {α : Type} (δ : Structs) (σ : Schema) (name : String) (vs : List (FieldValue α)) :
    List (Field × FieldValue α) :=
  let named := ((δ.attributes name).map (·.name)).zip vs
  (σ.type name).fields.filterMap fun f => (named.lookup f.name).map (Prod.mk f)

/-- The message that a struct stands for: the slots of its fields, in the order of the table. -/
def message (δ : Structs) (σ : Schema) : Struct → Message :=
  Struct.fold fun name vs => (δ.rows σ name vs).map fun q => q.2.slot q.1.kind

end Structs
end SchemaCodec
