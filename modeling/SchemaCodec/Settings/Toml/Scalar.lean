import SchemaCodec.Numeric.Width
import SchemaCodec.Text.Hex

/-!
# Settings.Toml.Scalar — the words of a TOML document

- `isBlank`, `newline?`, `endOfLine?`: blanks, line ends and comments.
- `integer?`: an integer of 64 bits, in one of four bases.
- `string?`: a string in one of its four forms, and what follows it.
- `keyPath?`: a dotted key, and what follows it.
-/

namespace SchemaCodec
namespace Toml

open Numeric (fitsInt64)
open Text (hexValue?)

/-! ## Blanks and comments -/

/-- Blanks within a line. -/
def isBlank (c : Char) : Bool :=
  c = ' ' || c = '\t'

/-- The text after its leading blanks. -/
def skipBlanks (s : List Char) : List Char :=
  s.dropWhile isBlank

/-- Characters that may stand in comments and literal strings: no control but the tab. -/
def isPlain (c : Char) : Bool :=
  c = '\t' || (0x20 ≤ c.toNat && c.toNat ≠ 0x7F)

/-- The text after an end of line. -/
def newline? : List Char → Option (List Char)
  | '\n' :: rest => some rest
  | '\r' :: '\n' :: rest => some rest
  | _ => none

/-- The text after a line end, past blanks and a comment. The end of the document ends a line
too. -/
def endOfLine? (s : List Char) : Option (List Char) :=
  let s := match skipBlanks s with
    | '#' :: rest => rest.dropWhile isPlain
    | s => s
  if s.isEmpty then some [] else newline? s

/-- The text after the blanks and line ends in front of it. -/
def skipLines : List Char → List Char
  | '\n' :: rest => skipLines rest
  | '\r' :: '\n' :: rest => skipLines rest
  | c :: rest => if isBlank c then skipLines rest else c :: rest
  | [] => []

/-- The text after blanks, line ends and comments; every line but the last takes a character. -/
def skipComments : Nat → List Char → List Char
  | 0, s => s
  | fuel + 1, s =>
    match skipBlanks s with
    | [] => []
    | s =>
      match endOfLine? s with
      | some rest => skipComments fuel rest
      | none => s

/-! ## Integers -/

/-- Digits of a base with single underscores between them. -/
def digits? (value? : Char → Option Nat) : List Char → Option (List Nat)
  | [] => none
  | [c] => (value? c).map ([·])
  | c :: '_' :: rest =>
    match value? c, digits? value? rest with
    | some d, some ds => some (d :: ds)
    | _, _ => none
  | c :: rest =>
    match value? c, digits? value? rest with
    | some d, some ds => some (d :: ds)
    | _, _ => none

/-- The number with the given digits. -/
def ofBase (base : Nat) (ds : List Nat) : Nat :=
  ds.foldl (fun n d => base * n + d) 0

/-- The value of a digit below a base. -/
def digitBelow (base : Nat) (c : Char) : Option Nat :=
  (hexValue? c.toNat).filter (· < base)

/-- A decimal number without its sign has no leading zero. -/
def decimal? (s : List Char) : Option Nat :=
  match s with
  | '0' :: _ :: _ => none
  | _ => (digits? (digitBelow 10) s).map (ofBase 10)

/-- An integer of 64 bits. A sign is possible in base ten only. -/
def integer? (s : List Char) : Option Int :=
  let n? : Option Int := match s with
    | '0' :: 'x' :: rest => (digits? (digitBelow 16) rest).map fun ds => (ofBase 16 ds : Int)
    | '0' :: 'o' :: rest => (digits? (digitBelow 8) rest).map fun ds => (ofBase 8 ds : Int)
    | '0' :: 'b' :: rest => (digits? (digitBelow 2) rest).map fun ds => (ofBase 2 ds : Int)
    | '-' :: rest => (decimal? rest).map fun n => -(n : Int)
    | '+' :: rest => (decimal? rest).map fun n => (n : Int)
    | _ => (decimal? s).map fun n => (n : Int)
  n?.filter fitsInt64

/-! ## Strings -/

/-- The character with a code point, if there is one. -/
def scalar? (digits : List Char) : Option Char :=
  match digits.mapM fun c => hexValue? c.toNat with
  | some ds =>
    let n := ofBase 16 ds
    if n < 0xD800 ∨ (0xE000 ≤ n ∧ n < 0x110000) then some (Char.ofNat n) else none
  | none => none

/-- What an escape behind a backslash stands for, and what follows it. -/
def escape? : List Char → Option (Char × List Char)
  | 'b' :: rest => some ('\x08', rest)
  | 't' :: rest => some ('\t', rest)
  | 'n' :: rest => some ('\n', rest)
  | 'f' :: rest => some ('\x0c', rest)
  | 'r' :: rest => some ('\r', rest)
  | '"' :: rest => some ('"', rest)
  | '\\' :: rest => some ('\\', rest)
  | 'u' :: rest =>
    if rest.length < 4 then none else (scalar? (rest.take 4)).map fun c => (c, rest.drop 4)
  | 'U' :: rest =>
    if rest.length < 8 then none else (scalar? (rest.take 8)).map fun c => (c, rest.drop 8)
  | _ => none

/-- The body of a basic string up to its closing quote; every character takes one of `fuel`. -/
def basic? : Nat → List Char → Option (List Char × List Char)
  | 0, _ => none
  | _ + 1, '"' :: rest => some ([], rest)
  | fuel + 1, '\\' :: rest =>
    match escape? rest with
    | some (c, rest) => (basic? fuel rest).map fun (cs, rest) => (c :: cs, rest)
    | none => none
  | fuel + 1, c :: rest =>
    if isPlain c then (basic? fuel rest).map fun (cs, rest) => (c :: cs, rest) else none
  | _ + 1, [] => none

/-- The body of a literal string up to its closing quote. -/
def literal? (s : List Char) : Option (List Char × List Char) :=
  let body := s.takeWhile fun c => isPlain c && c ≠ '\''
  match s.drop body.length with
  | '\'' :: rest => some (body, rest)
  | _ => none

/-- The body of a string over several lines up to three closing quotes; up to two more quotes in
front of them belong to the body. Escapes count only between double quotes, and an escaped line
end takes the blanks and line ends behind it away. -/
def multiline? (quote : Char) : Nat → List Char → Option (List Char × List Char)
  | 0, _ => none
  | fuel + 1, s =>
    let run := s.takeWhile (· = quote)
    if 3 ≤ run.length then
      let inner := min (run.length - 3) 2
      some (run.take inner, s.drop (inner + 3))
    else
      match s with
      | [] => none
      | c :: rest =>
        if c = '\\' ∧ quote = '"' then
          match newline? (skipBlanks rest) with
          | some rest => multiline? quote fuel (skipLines rest)
          | none =>
            match escape? rest with
            | some (c, rest) => (multiline? quote fuel rest).map fun (cs, rest) => (c :: cs, rest)
            | none => none
        else
          match newline? s with
          | some rest => (multiline? quote fuel rest).map fun (cs, rest) => ('\n' :: cs, rest)
          | none =>
            if isPlain c then
              (multiline? quote fuel rest).map fun (cs, rest) => (c :: cs, rest)
            else none

/-- The text after a line end that stands right behind the opening quotes. -/
def dropFirstNewline (s : List Char) : List Char :=
  (newline? s).getD s

/-- A string, and what follows it. -/
def string? (s : List Char) : Option (String × List Char) :=
  let body := match s with
    | '"' :: '"' :: '"' :: rest => multiline? '"' (rest.length + 1) (dropFirstNewline rest)
    | '\'' :: '\'' :: '\'' :: rest => multiline? '\'' (rest.length + 1) (dropFirstNewline rest)
    | '"' :: rest => basic? (rest.length + 1) rest
    | '\'' :: rest => literal? rest
    | _ => none
  body.map fun (cs, rest) => (String.ofList cs, rest)

/-! ## Keys -/

/-- A key, bare or quoted, and what follows it. -/
def key? (s : List Char) : Option (String × List Char) :=
  let name := match s with
    | '"' :: rest => basic? (rest.length + 1) rest
    | '\'' :: rest => literal? rest
    | _ =>
      let isBare (c : Char) : Bool := c.isAlphanum || c = '_' || c = '-'
      let name := s.takeWhile isBare
      if name.isEmpty then none else some (name, s.drop name.length)
  name.map fun (cs, rest) => (String.ofList cs, rest)

/-- Keys with dots between them, and what follows them and their blanks; every dot takes one of
`fuel`. -/
def keyPath? : Nat → List Char → Option (List String × List Char)
  | 0, _ => none
  | fuel + 1, s =>
    match key? s with
    | none => none
    | some (key, rest) =>
      match skipBlanks rest with
      | '.' :: rest =>
        (keyPath? fuel (skipBlanks rest)).map fun (path, rest) => (key :: path, rest)
      | rest => some ([key], rest)

end Toml
end SchemaCodec
