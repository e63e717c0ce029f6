/-!
# Fault — what can go wrong

- `FieldPath`: a field of a message type, as messages name it.
- `Fault`: the causes of failure of every operation of the library.
- `Fault.message`: the text of a fault.
- `Fault.details`: the same as named values, for logs.
- `Fault.isMalformedInput`: whether the bytes themselves are to blame.
-/

namespace SchemaCodec

/-- A field of a message type. Both names are empty where no field is being read. -/
structure FieldPath where
  message : String
  field : String
  deriving DecidableEq, Repr

/-- Why an operation failed. -/
inductive Fault where
  /-- a JSON document or a value in it does not fit -/
  | parse (context reason : String)
  /-- a value is longer than what is left of its payload -/
  | bufferTooShort (requested available position : Nat)
  /-- the low three bits of a key are no wire type, or end a group that was not opened -/
  | invalidWireType (raw position : Nat)
  /-- a varint is longer than ten bytes or does not fit 64 bits -/
  | varintOverflow (position : Nat)
  /-- the bytes of a string are not UTF-8 -/
  | invalidUtf8 (path : FieldPath)
  /-- an unsigned 64-bit number is outside the accepted range -/
  | rangeOverflow (path : FieldPath) (value : UInt64)
  /-- submessages or groups are nested too deep -/
  | recursionLimit (limit : Nat)
  | typeNotFound (name : String)
  | invalidSchema (element reason : String)
  | configuration (reason : String)
  | other (reason : String)
  deriving DecidableEq, Repr

namespace Fault

/-- The text of a fault. -/
def message : Fault → String
  | .parse context reason => s!"Parse error in {context}: {reason}"
  | .bufferTooShort requested available position =>
    s!"Buffer too short: requested {requested} bytes at position {position}, " ++
      s!"but only {available} bytes available"
  | .invalidWireType raw position => s!"Invalid wire type {raw} at position {position}"
  | .varintOverflow position => s!"Varint overflow at position {position}"
  | .invalidUtf8 path => s!"Invalid UTF-8 in field '{path.field}' of {path.message}"
  | .rangeOverflow path value =>
    s!"Value {value} of field '{path.field}' in {path.message} " ++
      "is larger than the safe integer range"
  | .recursionLimit limit => s!"Recursion limit {limit} exceeded"
  | .typeNotFound name => s!"Type not found: '{name}'"
  | .invalidSchema element reason => s!"Invalid schema '{element}': {reason}"
  | .configuration reason => s!"Configuration error: {reason}"
  | .other reason => s!"Other error: {reason}"

/-- The values that a fault carries, by name. -/
def details : Fault → List (String × String)
  | .parse context reason => [("context", context), ("message", reason)]
  | .bufferTooShort requested available position =>
    [("requested", toString requested), ("available", toString available),
      ("position", toString position)]
  | .invalidWireType raw position =>
    [("wire_type", toString raw), ("position", toString position)]
  | .varintOverflow position => [("position", toString position)]
  | .invalidUtf8 path => [("message", path.message), ("field", path.field)]
  | .rangeOverflow path value =>
    [("message", path.message), ("field", path.field), ("value", toString value)]
  | .recursionLimit limit => [("limit", toString limit)]
  | .typeNotFound name => [("type", name)]
  | .invalidSchema element reason => [("schema", element), ("reason", reason)]
  | .configuration reason => [("message", reason)]
  | .other reason => [("message", reason)]

/-- Whether the bytes themselves are to blame, rather than a range check or the caller. -/
def isMalformedInput : Fault → Bool
  | .bufferTooShort .. | .invalidWireType .. | .varintOverflow .. | .invalidUtf8 ..
  | .recursionLimit .. => true
  | _ => false

end Fault
end SchemaCodec
