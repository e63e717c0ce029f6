import SchemaCodec.Json.Document
import SchemaCodec.Json.Printer
import SchemaCodec.Row.Model

/-!
# Row.Text — rows as JSON text

- `Row.render`: the text of a row.
- `Row.parse?`: the row of a text.

A text denotes a row if it is an object with each column exactly once, whatever else it holds, or
an array of the four columns in order. What is not a column has to follow the grammar only.
-/

namespace SchemaCodec
namespace Row

/-- The text of a row, its columns in order. -/
def render (r : Row) : String :=
  Json.compact (.object [
    ("auth_zero_id", .string r.authZeroId),
    ("email", .string r.email),
    ("profile_type", .string r.profileType),
    ("user_id", .ofInt r.userId.toNat)])

/-- A column of text. -/
def text? : Document → Option String
  | .string s => s
  | _ => none

/-- A column of unsigned 64-bit integers. -/
def unsigned? : Document → Option UInt64
  | .number l => l.number?.bind Number.toUInt64?
  | _ => none

/-- The row of four columns. -/
def ofColumns? (authZeroId email profileType userId : Document) : Option Row := do
  return ⟨← text? authZeroId, ← text? email, ← text? profileType, ← unsigned? userId⟩

/-- The only member with a key. -/
def only? (members : List (Option String × Document)) (key : String) : Option Document :=
  match members.filter fun m => m.1 == some key with
  | [m] => some m.2
  | _ => none

/-- The row of a text. -/
def parse? (s : String) : Option Row :=
  match Document.parse? s with
  | some (.object members) =>
    -- Keys have to be texts even where nobody asks for their values.
    if members.any fun m => m.1.isNone then none
    else do
      ofColumns? (← only? members "auth_zero_id") (← only? members "email")
        (← only? members "profile_type") (← only? members "user_id")
  | some (.array [a, b, c, d]) => ofColumns? a b c d
  | _ => none

end Row
end SchemaCodec
