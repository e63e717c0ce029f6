import SchemaCodec.Json.Printer
import SchemaCodec.Schema.Type
import SchemaCodec.Text.Blank

/-!
# Projection.Coercion — scalars from JSON values

- `Coercion`: whether values are converted to the kind of a field.
- `Mismatch`: why a value does not fit.
- `Coercion.string`, `Coercion.bool`, `Coercion.int32`, `Coercion.uint64`, `Coercion.enum`: the
  scalar that a value denotes.

The strict reading takes values of the right kind only. The loose reading takes numbers and truth
values as texts, texts as numbers, any value as a truth value, and cuts fractions off.
-/

namespace SchemaCodec

open Numeric (Binary64 Layout fitsInt32 fitsUInt64 uint64?)

/-- Whether values are converted to the kind of a field. -/
inductive Coercion where
  | loose
  | strict
  deriving DecidableEq, Repr

/-- The name shown for a coercion. -/
def Coercion.label : Coercion → String
  | .loose => "Loose"
  | .strict => "Strict"

/-- Why a value does not fit. -/
inductive Mismatch where
  | expected (what found : String)
  | unknownField (key : String)
  | outside (value kind : String)
  | unknownSymbol (symbol : String)
  deriving DecidableEq, Repr

/-- The text of a mismatch. -/
def Mismatch.message : Mismatch → String
  | .expected what found => s!"expected {what}, found {found}"
  | .unknownField key => s!"unknown field '{key}'"
  | .outside value kind => s!"{value} is not {kind}"
  | .unknownSymbol symbol => s!"unknown enum symbol '{symbol}'"

namespace Coercion

/-- The value is none of what was expected. -/
def expected {α : Type} (what : String) (found : Json) : Except Mismatch α :=
  .error (.expected what found.describe)

/-- The number that a text denotes, without the blanks around it. No text at all is zero. -/
def numeric (s : String) : Except Mismatch Binary64 :=
  let trimmed := Text.trim s.toList
  if trimmed.isEmpty then .ok (.zero false)
  else
    match Binary64.parse? trimmed with
    | some x => .ok x
    | none => .error (.outside s!"'{s}'" "a number")

/-! ## Texts and truth values -/

/-- A text. -/
def string : Coercion → Json → Except Mismatch String
  | _, .string s => .ok s
  | .loose, .number n => .ok n.prose
  | .loose, .bool b => .ok (if b then "true" else "false")
  | _, v => expected "a string" v

/-- A truth value. Loosely, zero, the empty text and nothing else are false. -/
def bool : Coercion → Json → Except Mismatch Bool
  | _, .bool b => .ok b
  | .loose, .number n => .ok (!n.toBinary64.isZero)
  | .loose, .string s => .ok (s != "")
  | .loose, .array _ => .ok true
  | .loose, .object _ => .ok true
  | _, v => expected "a boolean" v

/-! ## Integers -/

/-- The integer as a signed 32-bit one. -/
def toInt32? (n : Int) : Option Int32 :=
  if fitsInt32 n then some (Int32.ofInt n) else none

/-- The integer as an unsigned 64-bit one. -/
def toUInt64? (n : Int) : Option UInt64 :=
  if fitsUInt64 n then some (UInt64.ofNat n.toNat) else none

/-- The number with its fraction cut off, if it is a signed 32-bit integer. -/
def truncInt32 (x : Binary64) : Except Mismatch Int32 :=
  match x.trunc.bind toInt32? with
  | some n => .ok n
  | none => .error (.outside (Layout.prose.render x) "an int32")

/-- The number with its fraction cut off, if it is an unsigned 64-bit integer. -/
def truncUInt64 (x : Binary64) : Except Mismatch UInt64 :=
  match x.trunc.bind toUInt64? with
  | some n => .ok n
  | none => .error (.outside (Layout.prose.render x) "a uint64")

/-- A signed 32-bit integer. -/
def int32 : Coercion → Json → Except Mismatch Int32
  | .strict, .number n =>
    match n.toInt64?.bind toInt32? with
    | some n => .ok n
    | none => .error (.outside n.literal "an int32")
  | .loose, .number n => truncInt32 n.toBinary64
  | .loose, .string s => numeric s >>= truncInt32
  | .loose, .bool b => .ok (if b then 1 else 0)
  | _, v => expected "an integer" v

/-- An unsigned 64-bit integer. Digits are read as an integer in both readings; only what is
spelled otherwise goes through a double. -/
def uint64 : Coercion → Json → Except Mismatch UInt64
  | .strict, .number n =>
    match n.toUInt64? with
    | some n => .ok n
    | none => .error (.outside n.literal "a uint64")
  | .strict, .string s =>
    match uint64? s.toList with
    | some n => .ok n
    | none => .error (.outside s!"'{s}'" "a uint64")
  | .loose, .number n =>
    match n.toUInt64? with
    | some n => .ok n
    | none => truncUInt64 n.toBinary64
  | .loose, .string s =>
    -- Digits are exact; a double comes in only where they do not fit.
    match uint64? (Text.trim s.toList) with
    | some n => .ok n
    | none => numeric s >>= truncUInt64
  | .loose, .bool b => .ok (if b then 1 else 0)
  | _, v => expected "an unsigned integer" v

/-! ## Enumerations -/

/-- The integer that a number is, if it is one and 32 bits hold it; doubles only up to the
greatest signed 32-bit integer in size. -/
def enumNumber? (n : Number) : Option Int32 :=
  match n.toInt64? with
  | some i => toInt32? i
  | none =>
    -- The bound is on the size, so the least signed 32-bit integer is not met by a double.
    let x := n.toBinary64
    match x.trunc with
    | some i => if x.isIntegral ∧ i.natAbs ≤ 2147483647 then toInt32? i else none
    | none => none

/-- The defined number that a value denotes as a number or by its symbol. -/
def defined? (e : EnumType) : Json → Option Int32
  | .number n => (enumNumber? n).filter fun i => (e.symbolOf? i).isSome
  | .string s => e.numberOf? s
  | _ => none

/-- The number of an enumeration. Strictly, any 32-bit number will do, and of the symbols the
defined ones; loosely, what denotes no defined number is unrecognized. -/
def enum (e : EnumType) : Coercion → Json → Except Mismatch Int32
  | .loose, v => .ok ((defined? e v).getD EnumType.unrecognizedNumber)
  | .strict, .number n =>
    match n.toInt64?.bind toInt32? with
    | some i => .ok i
    | none => .error (.outside n.literal "an enum number")
  | .strict, .string s =>
    match e.numberOf? s with
    | some i => .ok i
    | none => .error (.unknownSymbol s)
  | .strict, v => expected "an enum symbol" v

end Coercion
end SchemaCodec
