import SchemaCodec.Catalog.Standard

/-!
# Annotation.Element — what options are attached to

- `ElementKind`: the kinds of schema elements, and the option type of each.
- `extensionNumber`: the field that carries an option inside an options message.
- `ElementKey`: an element by kind and name.
- `ElementKey.order`: the order of keys, by kind and then by name.
-/

namespace SchemaCodec

/-- The kinds of schema elements that options can be attached to. -/
inductive ElementKind where
  | file
  | message
  | field
  | service
  | method
  deriving DecidableEq, Repr

namespace ElementKind

/-- The place of a kind in the order of keys. -/
def rank : ElementKind → Nat
  | .file => 0
  | .message => 1
  | .field => 2
  | .service => 3
  | .method => 4

/-- Every kind, in order. -/
def all : List ElementKind :=
  [.file, .message, .field, .service, .method]

/-- The name shown for a kind. -/
def label : ElementKind → String
  | .file => "File"
  | .message => "Message"
  | .field => "Field"
  | .service => "Service"
  | .method => "Method"

/-- The options message that the option extends. -/
def optionsMessage (k : ElementKind) : String :=
  "google.protobuf." ++ k.label ++ "Options"

/-- The type of the option of an element. -/
def optionType : ElementKind → MessageType
  | .file => Catalog.fileOptions
  | .message => Catalog.messageOptions
  | .field => Catalog.fieldOptions
  | .service => Catalog.serviceOptions
  | .method => Catalog.methodOptions

end ElementKind

/-- The number of the extension field that carries an option, in every options message. -/
def extensionNumber : Nat := 52119

/-- A schema element. Files go by their path, everything else by its full name. -/
structure ElementKey where
  kind : ElementKind
  name : String
  deriving DecidableEq, Repr

namespace ElementKey

/-- A field of a message. -/
def field (message name : String) : ElementKey :=
  ⟨.field, message ++ "." ++ name⟩

/-- A method of a service. -/
def method (service name : String) : ElementKey :=
  ⟨.method, service ++ "." ++ name⟩

/-- The text of a key. -/
def describe (k : ElementKey) : String :=
  k.kind.label ++ "(" ++ k.name ++ ")"

/-- Keys are ordered by kind and then by name. -/
abbrev order : ElementKey → ElementKey → Ordering :=
  compareLex (compareOn fun k => k.kind.rank) (compareOn fun k => k.name)

end ElementKey
end SchemaCodec
