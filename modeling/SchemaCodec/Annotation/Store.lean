import SchemaCodec.Annotation.Extension
import Std.Data.TreeMap

/-!
# Annotation.Store — the options of a schema

- `Annotations`: options by the elements that they are attached to.
- `Annotations.insert`, `Annotations.get?`: attaching and finding an option.
- `Annotations.ormable`: the messages for which a row model is asked.
- `Annotations.standard`: the options that the queue schema declares.
-/

namespace SchemaCodec

/-- Options by the elements that they are attached to, in the order of the keys. -/
structure Annotations where
  entries : Std.TreeMap ElementKey ElementOption ElementKey.order := {}

namespace Annotations

/-- Attaches an option to an element of its kind. The result is the option that it replaces, and
the options after it. -/
def insert (a : Annotations) (key : ElementKey) (x : ElementOption) :
    Except Fault (Option ElementOption × Annotations) :=
  if key.kind = x.kind then .ok (a.entries[key]?, ⟨a.entries.insert key x⟩)
  else
    .error (.invalidSchema key.describe
      s!"expected {key.kind.optionType.name}, found {x.kind.optionType.name}")

/-- The option of an element. -/
def get? (a : Annotations) (key : ElementKey) : Option ElementOption :=
  a.entries[key]?

/-- The options of a message. -/
def messageOptions? (a : Annotations) (name : String) : Option Message :=
  match a.get? ⟨.message, name⟩ with
  | some ⟨.message, m⟩ => some m
  | _ => none

/-- The options of a field. -/
def fieldOptions? (a : Annotations) (message name : String) : Option Message :=
  match a.get? (.field message name) with
  | some ⟨.field, m⟩ => some m
  | _ => none

/-- Whether the options of a message ask for a row model: the first field is set. -/
def isOrmable (m : Message) : Bool :=
  Catalog.messageOptions.slot m 1 == [.bool true]

/-- The messages whose options ask for a row model, in order. -/
def ormable (a : Annotations) : List String :=
  a.entries.toList.filterMap fun (key, x) =>
    if x.kind = .message ∧ isOrmable x.message then some key.name else none

/-- Elements with their options, in order. -/
def toList (a : Annotations) : List (ElementKey × ElementOption) :=
  a.entries.toList

/-- The number of annotated elements. -/
def size (a : Annotations) : Nat :=
  a.entries.size

/-- The options that the queue schema declares: its file has some, and the deletion request asks
for a row model. -/
def standard : Annotations where
  entries := .ofList [
    (⟨.file, Catalog.queueFile.path⟩, ⟨.file, Catalog.fileOptions.empty⟩),
    (⟨.message, Catalog.deleteAccount.name⟩,
      ⟨.message, Catalog.messageOptions.put Catalog.messageOptions.empty 1 (.bool true)⟩)]
    ElementKey.order

end Annotations
end SchemaCodec
