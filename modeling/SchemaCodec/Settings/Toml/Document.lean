import SchemaCodec.Settings.Toml.Scalar
import SchemaCodec.Settings.Toml.Table

/-!
# Settings.Toml.Document — reading TOML text

- `value?`: a value and what follows it.
- `Statement`, `statements?`: the headers and assignments of a document, in order.
- `build`: the entries that statements make.
- `parse?`: the entries of a document.

Truth values, fractions, dates, arrays with items and arrays of tables are refused: no setting has
such a value, so a document with one denotes no settings anyway.
-/

namespace SchemaCodec
namespace Toml

/-! ## Values -/

/-- An integer, and what follows it. -/
def integerWord? (s : List Char) : Option (Int × List Char) :=
  let isPart (c : Char) : Bool := c.isAlphanum || c = '_' || c = '+' || c = '-'
  let word := s.takeWhile isPart
  (integer? word).map fun n => (n, s.drop word.length)

mutual
/-- A value and what follows it; every brace takes one of `fuel`. -/
def value? : Nat → List Char → Option (Node × List Char)
  | 0, _ => none
  | fuel + 1, s =>
    match s with
    | '[' :: rest =>
      match skipComments rest.length rest with
      | ']' :: rest => some (.emptyArray, rest)
      | _ => none
    | '\x7b' :: rest =>
      match skipBlanks rest with
      | '\x7d' :: rest => some (.table .inline [], rest)
      | rest => (pairs? fuel [] rest).map fun (es, rest) => (.table .inline es, rest)
    | _ =>
      match string? s with
      | some (text, rest) => some (.string text, rest)
      | none => (integerWord? s).map fun (n, rest) => (.integer n, rest)

/-- The assignments of an inline table up to its closing brace, added to entries. -/
def pairs? : Nat → Entries → List Char → Option (Entries × List Char)
  | 0, _, _ => none
  | fuel + 1, es, s =>
    match keyPath? (s.length + 1) (skipBlanks s) with
    | some (path, '=' :: rest) =>
      match value? fuel (skipBlanks rest) with
      | none => none
      | some (value, rest) =>
        match assign value path es with
        | none => none
        | some es =>
          match skipBlanks rest with
          | ',' :: rest => pairs? fuel es rest
          | '\x7d' :: rest => some (es, rest)
          | _ => none
    | _ => none
end

/-! ## Documents -/

/-- A line that says something. -/
inductive Statement where
  | header (path : List String)
  | assignment (path : List String) (value : Node)
  deriving Repr

/-- A statement at the start of a line, and what follows it. -/
def statement? (s : List Char) : Option (Statement × List Char) :=
  match s with
  | '[' :: rest =>
    match keyPath? (rest.length + 1) (skipBlanks rest) with
    | some (path, ']' :: rest) => some (.header path, rest)
    | _ => none
  | _ =>
    match keyPath? (s.length + 1) s with
    | some (path, '=' :: rest) =>
      (value? (rest.length + 1) (skipBlanks rest)).map fun (value, rest) =>
        (.assignment path value, rest)
    | _ => none

/-- The statements from the start of a line on; every line takes one of `fuel`. -/
def statements? : Nat → List Char → Option (List Statement)
  | 0, _ => none
  | fuel + 1, s =>
    if s.isEmpty then some []
    else
      match endOfLine? s with
      | some rest => statements? fuel rest
      | none =>
        match statement? (skipBlanks s) with
        | none => none
        | some (statement, rest) =>
          match endOfLine? rest with
          | none => none
          | some rest => (statements? fuel rest).map (statement :: ·)

/-- Entries after statements; assignments go to the table of the last header, at first to the
document itself. -/
def build (table : List String) (es : Entries) : List Statement → Option Entries
  | [] => some es
  | .header path :: rest =>
    match openTable path es with
    | some es => build path es rest
    | none => none
  | .assignment path value :: rest =>
    match inside (assign value path) table es with
    | some es => build table es rest
    | none => none

/-- The entries of a document. A byte order mark in front is no part of it. -/
def parse? (text : String) : Option Entries :=
  let s := match text.toList with
    | '\uFEFF' :: rest => rest
    | s => s
  (statements? (s.length + 1) s).bind (build [] [])

end Toml
end SchemaCodec
