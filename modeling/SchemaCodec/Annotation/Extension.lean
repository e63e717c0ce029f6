import SchemaCodec.Annotation.Element
import SchemaCodec.Projection.Write
import SchemaCodec.Wire.Decode
import SchemaCodec.Wire.Encode

/-!
# Annotation.Extension — options as extension fields

- `ElementOption`: the option of an element.
- `ElementOption.embed`: an options message with an option appended.
- `ElementOption.extract`: the option that an options message carries.
-/

namespace SchemaCodec

/-- The option of an element: a message of the option type of its kind. -/
structure ElementOption where
  kind : ElementKind
  message : Message
  deriving DecidableEq, Repr

namespace ElementOption

/-- The bytes of an option. -/
def encode (x : ElementOption) : List UInt8 :=
  Catalog.standard.encode x.kind.optionType x.message

/-- The object of an option. -/
def toJson (x : ElementOption) : Json :=
  Catalog.standard.toJson x.kind.optionType x.message

/-- The option of a kind that a payload denotes. -/
def decode (kind : ElementKind) (limits : Limits) (bytes : List UInt8) :
    Except Fault ElementOption :=
  (Catalog.standard.decode kind.optionType limits bytes).map (⟨kind, ·⟩)

/-- An encoded options message with an option appended. -/
def embed (x : ElementOption) (options : List UInt8) : List UInt8 :=
  options ++ recordKey extensionNumber .lengthDelimited ++ counted x.encode

/-- Reads the records of an options message; `found` is the last option so far. -/
def extractFrom (kind : ElementKind) (found : Option ElementOption) (c : Cursor) :
    Except Fault (Option ElementOption) :=
  if c.rest.isEmpty then .ok found
  else
    match _ht : Scan.tag c with
    | .error e _ => .error e
    | .ok .stop _ => .ok found
    | .ok (.field number w) d =>
      if number = extensionNumber ∧ w = .lengthDelimited then
        match _hb : Scan.bytes d with
        | .error e _ => .error e
        | .ok payload d' =>
          -- An option that is superseded later has to be sound all the same.
          match decode kind c.limits payload with
          | .error e => .error e
          | .ok x => extractFrom kind (some x) d'
      else
        match _hs : Scan.skip w d with
        | .error e _ => .error e
        | .ok () d' => extractFrom kind found d'
  termination_by c.rest.length
  decreasing_by
    · have := Scan.tag_length _ht
      have := Scan.bytes_length _hb
      omega
    · have := Scan.tag_length _ht
      have := Scan.skip_length _hs
      omega

/-- The option of a kind that an options message carries, if any. Each one is read by itself, from
the outermost level, and the last one counts. -/
def extract (kind : ElementKind) (limits : Limits) (bytes : List UInt8) :
    Except Fault (Option ElementOption) :=
  extractFrom kind none (.start limits bytes)

end ElementOption
end SchemaCodec
