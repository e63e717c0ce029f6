import SchemaCodec.Json.Value
import SchemaCodec.Text.Hex

/-!
# Json.Document — reading JSON text

- `Literal`: a number as it is spelled.
- `Document`: the shape of a text, before any value is looked at. Members keep their order and
  repeats, and a string that is no sequence of characters is still a string.
- `Document.parse?`: the shape of a text that follows the grammar.
- `Document.value?`: the value of a shape, if every part of it has one.
- `Json.parse?`: the value of a text.

The grammar is that of RFC 8259. A value is refused where a number is beyond the doubles, where an
escape denotes half of a surrogate pair, and where more than 127 containers are open at once.
-/

namespace SchemaCodec

open Numeric (Binary64 fitsInt64 fitsUInt64 ofDigits spanDigits)
open Text (hexValue?)

/-- A number as it is spelled: the digits before and after the point, and the exponent. -/
structure Literal where
  negative : Bool
  whole : List Char
  /-- the digits after a point, if there is one -/
  fraction : Option (List Char)
  /-- the exponent behind a mark, if there is one -/
  exponent : Option Int
  deriving Repr, DecidableEq

/-- The number of a spelling. Without point and exponent it is an integer if 64 bits hold it, but
minus zero is a double; a double that is not finite is no number. -/
def Literal.number? (l : Literal) : Option Number :=
  let n := ofDigits l.whole
  let i := Binary64.signed l.negative n
  -- An integer has no negative zero, so minus zero has to be a double.
  let isInteger := l.fraction.isNone && l.exponent.isNone &&
    (if l.negative then 0 < n && fitsInt64 i else fitsUInt64 i)
  if isInteger then some (.integer i)
  else
    let fraction := l.fraction.getD []
    let x := Binary64.ofScientific l.negative (ofDigits (l.whole ++ fraction))
      (l.exponent.getD 0 - (fraction.length : Int))
    match x with
    | .finite .. => some (.double x)
    | .infinite _ => none

/-- The shape of a text. A string is `none` where an escape in it denotes half of a pair. -/
inductive Document where
  | null
  | bool (b : Bool)
  | number (l : Literal)
  | string (s : Option String)
  | array (items : List Document)
  | object (members : List (Option String × Document))
  deriving Repr, Inhabited

namespace Document

/-- The four characters that may stand around tokens. -/
def isBlank (c : Char) : Bool :=
  c = ' ' || c = '\t' || c = '\n' || c = '\r'

/-- The text after its leading blanks. -/
def skipBlanks (s : List Char) : List Char :=
  s.dropWhile isBlank

/-! ## Numbers -/

/-- The digits before the point: a zero alone, or digits that do not start with zero. -/
def whole? (s : List Char) : Option (List Char × List Char) :=
  match spanDigits s with
  | (['0'], rest) => some (['0'], rest)
  | ('0' :: _, _) => none
  | ([], _) => none
  | (ds, rest) => some (ds, rest)

/-- A point and the digits behind it, or nothing. -/
def fraction? (s : List Char) : Option (Option (List Char) × List Char) :=
  match s with
  | '.' :: rest =>
    match spanDigits rest with
    | ([], _) => none
    | (ds, rest) => some (some ds, rest)
  | _ => some (none, s)

/-- An exponent mark with its sign and digits, or nothing. -/
def exponent? (s : List Char) : Option (Option Int × List Char) :=
  match s with
  | c :: rest =>
    if c = 'e' ∨ c = 'E' then
      let (negative, rest) := match rest with
        | '-' :: rest => (true, rest)
        | '+' :: rest => (false, rest)
        | rest => (false, rest)
      match spanDigits rest with
      | ([], _) => none
      | (ds, rest) => some (some (Binary64.signed negative (ofDigits ds)), rest)
    else some (none, s)
  | [] => some (none, [])

/-- A number at the front of a text. -/
def literal? (s : List Char) : Option (Literal × List Char) :=
  let (negative, s) := match s with
    | '-' :: rest => (true, rest)
    | _ => (false, s)
  match whole? s with
  | none => none
  | some (whole, s) =>
    match fraction? s with
    | none => none
    | some (fraction, s) =>
      match exponent? s with
      | none => none
      | some (exponent, s) => some (⟨negative, whole, fraction, exponent⟩, s)

/-! ## Strings -/

/-- The number written as four hexadecimal digits. -/
def hex4? (a b c d : Char) : Option Nat :=
  match hexValue? a.toNat, hexValue? b.toNat, hexValue? c.toNat, hexValue? d.toNat with
  | some a, some b, some c, some d => some (((a * 16 + b) * 16 + c) * 16 + d)
  | _, _, _, _ => none

/-- What the letter of a short escape stands for. -/
def shortEscape? (c : Char) : Option Char :=
  if c = '"' ∨ c = '\\' ∨ c = '/' then some c
  else if c = 'b' then some '\x08'
  else if c = 'f' then some '\x0c'
  else if c = 'n' then some '\n'
  else if c = 'r' then some '\r'
  else if c = 't' then some '\t'
  else none

/-- The body of a string up to its closing quote, as UTF-16 units for escapes and characters for
the rest. -/
def units? : List Char → Option (List (Nat ⊕ Char) × List Char)
  | '"' :: rest => some ([], rest)
  | '\\' :: 'u' :: a :: b :: c :: d :: rest =>
    match hex4? a b c d with
    | some unit => (units? rest).map fun (us, rest) => (.inl unit :: us, rest)
    | none => none
  | '\\' :: c :: rest =>
    match shortEscape? c with
    | some c => (units? rest).map fun (us, rest) => (.inr c :: us, rest)
    | none => none
  | c :: rest =>
    if c.toNat < 0x20 then none
    else (units? rest).map fun (us, rest) => (.inr c :: us, rest)
  | [] => none

/-- The characters of a string's units. A high surrogate needs a low one right behind it, and no
low one stands elsewhere. -/
def decodeUnits : List (Nat ⊕ Char) → Option (List Char)
  | [] => some []
  | .inr c :: rest => (decodeUnits rest).map (c :: ·)
  | .inl high :: .inl low :: rest =>
    if 0xD800 ≤ high ∧ high < 0xDC00 then
      if 0xDC00 ≤ low ∧ low < 0xE000 then
        -- Each half carries ten bits of what is above the first plane.
        (decodeUnits rest).map
          (Char.ofNat (0x10000 + (high - 0xD800) * 0x400 + (low - 0xDC00)) :: ·)
      else none
    else if 0xDC00 ≤ high ∧ high < 0xE000 then none
    else (decodeUnits (.inl low :: rest)).map (Char.ofNat high :: ·)
  | .inl unit :: rest =>
    if 0xD800 ≤ unit ∧ unit < 0xE000 then none
    else (decodeUnits rest).map (Char.ofNat unit :: ·)

/-- A string whose opening quote has been read. -/
def string? (s : List Char) : Option (Option String × List Char) :=
  (units? s).map fun (us, rest) => ((decodeUnits us).map String.ofList, rest)

/-! ## Values -/

/-- The text behind a given word. -/
def word? : List Char → List Char → Option (List Char)
  | [], s => some s
  | w :: ws, c :: cs => if w = c then word? ws cs else none
  | _ :: _, [] => none

mutual
/-- A value at the front of a text, and what follows it. -/
def value : Nat → List Char → Option (Document × List Char)
  | 0, _ => none
  | fuel + 1, s =>
    match skipBlanks s with
    | '\x7b' :: rest =>
      match skipBlanks rest with
      | '\x7d' :: rest => some (.object [], rest)
      | rest => (members fuel rest).map fun (ms, rest) => (.object ms, rest)
    | '[' :: rest =>
      match skipBlanks rest with
      | ']' :: rest => some (.array [], rest)
      | rest => (items fuel rest).map fun (vs, rest) => (.array vs, rest)
    | '"' :: rest => (string? rest).map fun (s, rest) => (.string s, rest)
    | 'n' :: rest => (word? ['u', 'l', 'l'] rest).map fun rest => (.null, rest)
    | 't' :: rest => (word? ['r', 'u', 'e'] rest).map fun rest => (.bool true, rest)
    | 'f' :: rest => (word? ['a', 'l', 's', 'e'] rest).map fun rest => (.bool false, rest)
    | s => (literal? s).map fun (l, rest) => (.number l, rest)

/-- One or more items up to the closing bracket. -/
def items : Nat → List Char → Option (List Document × List Char)
  | 0, _ => none
  | fuel + 1, s =>
    match value fuel s with
    | none => none
    | some (v, rest) =>
      match skipBlanks rest with
      | ',' :: rest => (items fuel rest).map fun (vs, rest) => (v :: vs, rest)
      | ']' :: rest => some ([v], rest)
      | _ => none

/-- One or more members up to the closing brace. -/
def members : Nat → List Char → Option (List (Option String × Document) × List Char)
  | 0, _ => none
  | fuel + 1, s =>
    match skipBlanks s with
    | '"' :: rest =>
      match string? rest with
      | none => none
      | some (key, rest) =>
        match skipBlanks rest with
        | ':' :: rest =>
          match value fuel rest with
          | none => none
          | some (v, rest) =>
            match skipBlanks rest with
            | ',' :: rest => (members fuel rest).map fun (ms, rest) => ((key, v) :: ms, rest)
            | '\x7d' :: rest => some ([(key, v)], rest)
            | _ => none
        | _ => none
    | _ => none
end

/-- The shape of a text that is one value with blanks around it. Every call of the reader takes a
character or stands in front of one that does, so twice the length bounds its depth. -/
def parse? (s : String) : Option Document :=
  let cs := s.toList
  match value (2 * cs.length + 2) cs with
  | some (d, rest) => if (skipBlanks rest).isEmpty then some d else none
  | none => none

mutual
/-- The value of a shape, where `levels` containers may still be opened. -/
def valueWithin? (levels : Nat) : Document → Option Json
  | .null => some .null
  | .bool b => some (.bool b)
  | .number l => l.number?.map .number
  | .string s => s.map .string
  | .array items =>
    match levels with
    | 0 => none
    | levels + 1 => (itemsWithin? levels items).map .array
  | .object members =>
    match levels with
    | 0 => none
    | levels + 1 => (membersWithin? levels members).map Json.ofMembers

/-- The values of items. -/
def itemsWithin? (levels : Nat) : List Document → Option (List Json)
  | [] => some []
  | item :: rest =>
    match valueWithin? levels item, itemsWithin? levels rest with
    | some v, some vs => some (v :: vs)
    | _, _ => none

/-- The values of members. -/
def membersWithin? (levels : Nat) : List (Option String × Document) → Option (List (String × Json))
  | [] => some []
  | (key, d) :: rest =>
    match key, valueWithin? levels d, membersWithin? levels rest with
    | some key, some v, some vs => some ((key, v) :: vs)
    | _, _, _ => none
end

/-- The value of a shape. -/
def value? (d : Document) : Option Json :=
  d.valueWithin? 127

end Document

/-- The value of a text. -/
def Json.parse? (s : String) : Option Json :=
  match Document.parse? s with
  | some d => d.value?
  | none => none

end SchemaCodec
