import SchemaCodec.Json.Value
import SchemaCodec.Numeric.Layout
import SchemaCodec.Text.Hex

/-!
# Json.Printer — JSON text

- `Number.literal`, `Number.prose`: a number as it stands in a document, and as quoted text.
- `Json.quote`: a string with its quotes and escapes.
- `Json.compact`: a value without any blank.
- `Json.pretty`: a value with one member or item a line, two blanks deeper at each level.
-/

namespace SchemaCodec

open Numeric (Layout)
open Text (hexDigit)

/-- The number as it stands in a document. -/
def Number.literal : Number → String
  | .integer n => toString n
  | .double x => Layout.literal.render x

/-- The number as quoted text: an integral double has no point. -/
def Number.prose : Number → String
  | .integer n => toString n
  | .double x => Layout.prose.render x

namespace Json

/-- How a character stands inside a string: the quote, the backslash and the controls below
U+0020 are escaped and nothing else. -/
def escape (c : Char) : List Char :=
  if c = '"' then ['\\', '"']
  else if c = '\\' then ['\\', '\\']
  else if c = '\n' then ['\\', 'n']
  else if c = '\r' then ['\\', 'r']
  else if c = '\t' then ['\\', 't']
  else if c = '\x08' then ['\\', 'b']
  else if c = '\x0c' then ['\\', 'f']
  else if c.toNat < 0x20 then
    ['\\', 'u', '0', '0', hexDigit (c.toNat / 16), hexDigit (c.toNat % 16)]
  else [c]

/-- A string with its quotes and escapes. -/
def quote (s : String) : List Char :=
  '"' :: s.toList.flatMap escape ++ ['"']

/-- The text of the two truth values. -/
def boolText (b : Bool) : List Char :=
  if b then ['t', 'r', 'u', 'e'] else ['f', 'a', 'l', 's', 'e']

mutual
/-- A value without any blank. -/
def compactChars : Json → List Char
  | .null => ['n', 'u', 'l', 'l']
  | .bool b => boolText b
  | .number n => n.literal.toList
  | .string s => quote s
  | .array items => '[' :: compactItems true items ++ [']']
  | .object members => '\x7b' :: compactMembers true members ++ ['\x7d']

/-- Items with commas between them; `first` tells that no item stands in front. -/
def compactItems (first : Bool) : List Json → List Char
  | [] => []
  | item :: rest => (if first then [] else [',']) ++ compactChars item ++ compactItems false rest

/-- Members with commas between them. -/
def compactMembers (first : Bool) : List (String × Json) → List Char
  | [] => []
  | (key, value) :: rest =>
    (if first then [] else [',']) ++ quote key ++ ':' :: compactChars value ++
      compactMembers false rest
end

/-- A new line at a level of nesting. -/
def newLine (level : Nat) : List Char :=
  '\n' :: List.replicate (2 * level) ' '

mutual
/-- A value with one member or item a line. Empty containers stay on one line. -/
def prettyChars (level : Nat) : Json → List Char
  | .array [] => ['[', ']']
  | .array (item :: rest) =>
    '[' :: newLine (level + 1) ++ prettyChars (level + 1) item ++ prettyItems (level + 1) rest ++
      newLine level ++ [']']
  | .object [] => ['\x7b', '\x7d']
  | .object ((key, value) :: rest) =>
    '\x7b' :: newLine (level + 1) ++ quote key ++ ':' :: ' ' :: prettyChars (level + 1) value ++
      prettyMembers (level + 1) rest ++ newLine level ++ ['\x7d']
  | .null => ['n', 'u', 'l', 'l']
  | .bool b => boolText b
  | .number n => n.literal.toList
  | .string s => quote s

/-- The items after the first. -/
def prettyItems (level : Nat) : List Json → List Char
  | [] => []
  | item :: rest => ',' :: newLine level ++ prettyChars level item ++ prettyItems level rest

/-- The members after the first. -/
def prettyMembers (level : Nat) : List (String × Json) → List Char
  | [] => []
  | (key, value) :: rest =>
    ',' :: newLine level ++ quote key ++ ':' :: ' ' :: prettyChars level value ++
      prettyMembers level rest
end

/-- The compact text of a value. -/
def compact (j : Json) : String :=
  String.ofList j.compactChars

/-- The indented text of a value. -/
def pretty (j : Json) : String :=
  String.ofList (j.prettyChars 0)

end Json
end SchemaCodec
