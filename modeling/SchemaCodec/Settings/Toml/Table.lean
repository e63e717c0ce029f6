/-!
# Settings.Toml.Table — the tables of a TOML document

- `Node`: a value of a document, tables included.
- `Origin`: how a table came to be, which decides what may still be added to it.
- `openTable`: entries after a header has opened the table at a path.
- `assign`: entries after an assignment to a dotted key.
- `inside`: entries after a change inside the table at a path.
- `Node.choice?`: the name that a value chooses.

Every key is assigned once, and every table is opened once. A table that headers only passed
through may still be opened; one that dotted keys made takes more dotted keys but no header; an
inline table is complete as it stands.
-/

namespace SchemaCodec
namespace Toml

/-- How a table came to be. -/
inductive Origin where
  /-- a header opened it -/
  | header
  /-- the header of a table inside it implies it -/
  | implied
  /-- dotted keys made it -/
  | dotted
  /-- it stands in braces -/
  | inline
  deriving DecidableEq, Repr

/-- A value of a document. Of arrays only the empty one is told apart: no setting has another. -/
inductive Node where
  | string (s : String)
  | integer (n : Int)
  | emptyArray
  | table (origin : Origin) (entries : List (String × Node))
  deriving Repr, Inhabited

/-- The entries of a table, each key once, in the order in which they came. -/
abbrev Entries := List (String × Node)

/-- Entries after a change to what a key holds, which may be nothing yet. -/
def alter (key : String) (change : Option Node → Option Node) : Entries → Option Entries
  | [] => (change none).map fun n => [(key, n)]
  | (k, n) :: rest =>
    if k = key then (change (some n)).map fun n => (k, n) :: rest
    else (alter key change rest).map ((k, n) :: ·)

/-- Entries after a header has opened the table at a path. -/
def openTable : List String → Entries → Option Entries
  | [], _ => none
  | [key], es =>
    let change : Option Node → Option Node := fun
      | none => some (.table .header [])
      -- Headers of inner tables may come first.
      | some (.table .implied es) => some (.table .header es)
      | some _ => none
    alter key change es
  | key :: path, es =>
    let change : Option Node → Option Node := fun
      | none => (openTable path []).map (.table .implied)
      | some (.table .inline _) => none
      | some (.table origin es) => (openTable path es).map (.table origin)
      | some _ => none
    alter key change es

/-- Entries after an assignment to a dotted key. -/
def assign (value : Node) : List String → Entries → Option Entries
  | [], _ => none
  | [key], es =>
    let change : Option Node → Option Node := fun
      | none => some value
      | some _ => none
    alter key change es
  | key :: path, es =>
    let change : Option Node → Option Node := fun
      | none => (assign value path []).map (.table .dotted)
      | some (.table .dotted es) => (assign value path es).map (.table .dotted)
      | some _ => none
    alter key change es

/-- Entries after a change inside the table at a path. -/
def inside (change : Entries → Option Entries) : List String → Entries → Option Entries
  | [], es => change es
  | key :: path, es =>
    let change : Option Node → Option Node := fun
      | some (.table origin es) => (inside change path es).map (.table origin)
      | _ => none
    alter key change es

/-- Whether nothing stands in a value that could hold something. -/
def Node.isEmpty : Node → Bool
  | .emptyArray => true
  | .table _ es => es.isEmpty
  | _ => false

/-- The name that a value chooses: a string, or the only key of a table, with nothing inside. -/
def Node.choice? : Node → Option String
  | .string s => some s
  | .table _ [(name, inner)] => if inner.isEmpty then some name else none
  | _ => none

end Toml
end SchemaCodec
