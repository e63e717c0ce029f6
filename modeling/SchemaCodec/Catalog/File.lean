import SchemaCodec.Schema.Type

/-!
# Catalog.File — schema files

- `Declaration`: a message type with the enumerations declared inside it.
- `SchemaFile`: the declarations of a package.
-/

namespace SchemaCodec

/-- A message type with the enumerations declared inside it. -/
structure Declaration where
  type : MessageType
  enums : List EnumType
  deriving DecidableEq, Repr

/-- The declarations of a package, in their order in the file. -/
structure SchemaFile where
  path : String
  package : String
  types : List Declaration
  deriving DecidableEq, Repr

end SchemaCodec
