import SchemaCodec.Settings.Limits
import SchemaCodec.Settings.Toml.Document

/-!
# Settings.File — limits from a settings file

- `Limits.ofEntries?`: the limits that the entries of a document denote.
- `Limits.ofToml`: the limits of a settings file, checked for validity.
-/

namespace SchemaCodec

/-- The range with a name. -/
def IntegerRange.ofName? : String → Option IntegerRange
  | "safe" => some .safe
  | "full" => some .full
  | _ => none

namespace Limits

/-- Sets one entry. Only the two settings exist, each with values of its own kind. -/
def set? (l : Limits) : String × Toml.Node → Option Limits
  | ("integer_range", value) =>
    (value.choice?.bind IntegerRange.ofName?).map fun range => { l with range := range }
  | ("recursion_limit", .integer n) =>
    if Numeric.fitsUInt32 n then some { l with recursion := n.toNat } else none
  | _ => none

/-- The limits that the entries of a document denote; what is not set keeps its default. -/
def ofEntries? (entries : Toml.Entries) : Option Limits :=
  entries.foldlM set? {}

/-- The limits of a settings file. -/
def ofToml (text : String) : Except Fault Limits :=
  match (Toml.parse? text).bind ofEntries? with
  | none => .error (.configuration "TOML parse error")
  | some l => l.validate.map fun _ => l

end Limits
end SchemaCodec
