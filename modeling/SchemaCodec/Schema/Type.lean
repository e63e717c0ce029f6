/-!
# Schema.Type — message types as field tables

- `EnumType`: a table of symbols and numbers.
- `Kind`: what the values of a field are.
- `Field`: a row of a message type's table.
- `MessageType`: a name and its fields in ascending order of their numbers.
- `Schema`: the message types that names refer to.
-/

namespace SchemaCodec

/-! ## Enumerations -/

/-- A defined value of an enumeration: its symbol, the short label shown to people, and its
number. -/
structure EnumValue where
  symbol : String
  label : String
  number : Int32
  deriving DecidableEq, Repr

/-- An enumeration: its full name and its defined values. -/
structure EnumType where
  name : String
  values : List EnumValue
  deriving DecidableEq, Repr

namespace EnumType

/-- The symbol that stands for a number without a symbol of its own. -/
def unrecognizedSymbol : String := "UNRECOGNIZED"

/-- The number that stands for a value that denotes no defined number. -/
def unrecognizedNumber : Int32 := -1

/-- The defined value with a number. -/
def find? (e : EnumType) (number : Int32) : Option EnumValue :=
  e.values.find? fun v => v.number == number

/-- The symbol of a number. -/
def symbolOf? (e : EnumType) (number : Int32) : Option String :=
  (e.find? number).map (·.symbol)

/-- The number of a symbol, spelled exactly. -/
def numberOf? (e : EnumType) (symbol : String) : Option Int32 :=
  (e.values.find? fun v => v.symbol == symbol).map (·.number)

/-- The defined value that an undefined number reads as: the one at zero, or a nameless one. -/
def known (e : EnumType) (number : Int32) : EnumValue :=
  (e.find? number).getD ((e.find? 0).getD ⟨unrecognizedSymbol, unrecognizedSymbol, 0⟩)

/-- The symbol written for a number. -/
def symbolFor (e : EnumType) (number : Int32) : String :=
  (e.symbolOf? number).getD unrecognizedSymbol

end EnumType

/-! ## Fields -/

/-- What the values of a field are. Messages are referred to by their full names. -/
inductive Kind where
  | string
  | bool
  | int32
  | uint64
  | enum (type : EnumType)
  | message (typeName : String)
  deriving DecidableEq, Repr

/-- The name of a kind in a schema file. -/
def Kind.typeName : Kind → String
  | .string => "string"
  | .bool => "bool"
  | .int32 => "int32"
  | .uint64 => "uint64"
  | .enum type => type.name
  | .message name => name

/-- A row of a field table. -/
structure Field where
  number : Nat
  /-- the name in the schema file -/
  name : String
  /-- the key in the JSON projection -/
  jsonName : String
  kind : Kind
  repeated : Bool := false
  deriving DecidableEq, Repr

/-! ## Message types -/

/-- A message type: its full name, and its fields in ascending order of their numbers. -/
structure MessageType where
  name : String
  fields : List Field
  deriving DecidableEq, Repr

/-- What follows the last dot of a name. -/
def unqualified (name : String) : String :=
  String.ofList (name.toList.reverse.takeWhile (· ≠ '.')).reverse

namespace MessageType

/-- The name of the type without its package. -/
def shortName (t : MessageType) : String :=
  unqualified t.name

/-- The field with a number. -/
def field? (t : MessageType) (number : Nat) : Option Field :=
  t.fields.find? fun f => f.number == number

end MessageType

/-- The message types that names refer to. -/
structure Schema where
  types : List MessageType
  deriving DecidableEq, Repr

/-- The type with a full name. A name that the schema lacks denotes a type without fields. -/
def Schema.type (σ : Schema) (name : String) : MessageType :=
  (σ.types.find? fun t => t.name == name).getD ⟨name, []⟩

end SchemaCodec
