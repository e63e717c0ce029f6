import SchemaCodec.Catalog.Standard
import SchemaCodec.Json.Document
import SchemaCodec.Registry.Codec
import Std.Data.TreeMap

/-!
# Registry.Store — codecs by name

- `Registry`: codecs by full name, and the unqualified names that lead to one of them.
- `Registry.register`: a registry with one more codec.
- `Registry.get`: the codec of a name.
- `Registry.transcode`: a payload in the other encoding.
- `Registry.standard`: the registry of every type of the library.

An unqualified name leads to a type as long as no type with another full name shares it. Once two
have shared it, it leads nowhere.
-/

namespace SchemaCodec

/-- Codecs by full name. An alias is an unqualified name; it is `none` once it is ambiguous. -/
structure Registry where
  codecs : Std.TreeMap String Codec := {}
  aliases : Std.TreeMap String (Option String) := {}

namespace Registry

/-- The aliases after a type with a full name has been added. -/
def addAlias (aliases : Std.TreeMap String (Option String)) (full : String) :
    Std.TreeMap String (Option String) :=
  let short := unqualified full
  match aliases[short]? with
  | some (some owner) => if owner = full then aliases else aliases.insert short none
  -- Once ambiguous, always ambiguous.
  | some none => aliases
  | none => aliases.insert short (some full)

/-- The registry with one more codec, in the place of an earlier one of the same name. -/
def register (r : Registry) (c : Codec) : Registry where
  codecs := r.codecs.insert c.type.name c
  aliases := addAlias r.aliases c.type.name

/-- The codec that an unqualified name leads to. -/
def byAlias? (r : Registry) (name : String) : Option Codec :=
  match r.aliases[name]? with
  | some (some full) => r.codecs[full]?
  | _ => none

/-- The codec of a full name, or else of an unqualified one. -/
def get (r : Registry) (name : String) : Except Fault Codec :=
  match r.codecs[name]? with
  | some c => .ok c
  | none =>
    match r.byAlias? name with
    | some c => .ok c
    | none => .error (.typeNotFound name)

/-- The remarks that `get` makes: a name that was found as an alias is worth one. -/
def getLog (r : Registry) (name : String) : List Event :=
  if r.codecs.contains name then []
  else
    match r.byAlias? name with
    | some c => [.shortNameResolved name c.type.name]
    | none => []

/-- Whether a name leads to a codec. -/
def contains (r : Registry) (name : String) : Bool :=
  (r.get name).toBool

/-- The full names, in ascending order. -/
def typeNames (r : Registry) : List String :=
  r.codecs.keys

/-- The number of codecs. -/
def count (r : Registry) : Nat :=
  r.codecs.size

/-- The JSON value that bytes denote. -/
def parseJson (data : List UInt8) : Except Fault Json :=
  match (Text.ofUtf8? data).bind Json.parse? with
  | some v => .ok v
  | none => .error (.parse "json" "not a JSON document")

/-- A payload of a type in the other encoding. JSON is read loosely and written compactly. -/
def transcode (r : Registry) (name : String) (data : List UInt8) (source : Encoding)
    (limits : Limits) : Except Fault (List UInt8) := do
  let c ← r.get name
  match source with
  | .protobuf => return Text.utf8 (← c.decodeToJson limits data).compact
  | .json => c.encodeJson limits (← parseJson data)

/-- The registry of every type of the library. -/
def standard : Registry :=
  Catalog.types.foldl (fun r t => r.register ⟨Catalog.standard, t⟩) {}

end Registry
end SchemaCodec
