import SchemaCodec.Catalog.Gorm
import SchemaCodec.Catalog.Queue

/-!
# Catalog.Standard — every type of the library

- `files`: the schema files, each after the files that it may refer to.
- `types`: the message types, the queue messages first.
- `standard`: the schema of these types.
-/

namespace SchemaCodec
namespace Catalog

/-- The schema files. -/
def files : List SchemaFile :=
  [gormFile, queueFile]

/-- The message types, the queue messages first. -/
def types : List MessageType :=
  queueFile.types.map (·.type) ++ gormFile.types.map (·.type)

/-- The schema of every type of the library. -/
def standard : Schema := ⟨types⟩

end Catalog
end SchemaCodec
