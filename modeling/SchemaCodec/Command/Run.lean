import SchemaCodec.Annotation.Element
import SchemaCodec.Catalog.Descriptor
import SchemaCodec.Command.Help
import SchemaCodec.Registry.Store
import SchemaCodec.Settings.File

/-!
# Command.Run — what a command does

- `Surroundings`: standard input and files, as far as commands see them.
- `Failure`: why a command failed.
- `Action`: a step that makes remarks and may fail.
- `Invocation.perform`: the output of a command.
- `respond`: exit code, output, message and shown remarks of a command line.
-/

namespace SchemaCodec

/-- Standard input and files. A file has its bytes, or a reason why it cannot be read. -/
structure Surroundings where
  stdin : List UInt8
  file : String → Except String (List UInt8)

/-- Why a command failed. -/
inductive Failure where
  | fault (f : Fault)
  | unreadable (path reason : String)
  | unreadableStdin (reason : String)
  | notJson
  | badPayload (text : String) (cause : Text.HexFault)

/-- The text of a fault in a run of digits. The bad byte is shown as a Latin-1 character. -/
def Text.HexFault.message : Text.HexFault → String
  | .oddLength => "Odd number of digits"
  | .badDigit byte position =>
    "Invalid character " ++ Text.quotedChar (Char.ofNat byte.toNat) ++
      s!" at position {position}"

/-- The text of a failure. -/
def Failure.message : Failure → String
  | .fault f => f.message
  | .unreadable path reason => s!"Failed to read {path}: {reason}"
  | .unreadableStdin reason => s!"Failed to read stdin: {reason}"
  | .notJson => "Input is not valid JSON"
  | .badPayload text cause => s!"Invalid hex payload: {text}: {cause.message}"

/-- A step that makes remarks and may fail. The remarks made before a failure stay. -/
abbrev Action := EStateM Failure (List Event)

namespace Action

/-- Makes remarks. -/
def note (events : List Event) : Action Unit :=
  modify (· ++ events)

/-- A step of the library that may fail. -/
def ofResult {α : Type} (r : Except Fault α) : Action α :=
  match r with
  | .ok a => pure a
  | .error f => throw (.fault f)

end Action

/-- What is wrong with a text that is not UTF-8. -/
def notUtf8 : String := "stream did not contain valid UTF-8"

/-- The text of a file. -/
def Surroundings.text (s : Surroundings) (path : String) : Except String String :=
  match s.file path with
  | .error reason => .error reason
  | .ok bytes =>
    match Text.ofUtf8? bytes with
    | some text => .ok text
    | none => .error notUtf8

/-! ## Descriptions -/

/-- The options message that a type extends, if it is the option of some kind of element. -/
def extensionTarget? (t : MessageType) : Option String :=
  (ElementKind.all.find? fun k => k.optionType.name == t.name).map fun k =>
    s!"{k.optionsMessage} ({extensionNumber})"

/-- The lines that describe a type. -/
def describeType (t : MessageType) : List String :=
  let head := match extensionTarget? t with
    | some target => s!"message {t.name} extends {target}"
    | none => s!"message {t.name}"
  head :: t.fields.map fun f =>
    "  " ++ (if f.repeated then "repeated " else "") ++
      s!"{f.kind.typeName} {f.name} = {f.number};  // json: {f.jsonName}"

/-- The value that describes a type. -/
def typeSummary (t : MessageType) : Json :=
  let field (f : Field) : Json := .object [
    ("number", .ofInt f.number),
    ("name", .string f.name),
    ("json_name", .string f.jsonName),
    ("type", .string f.kind.typeName),
    ("repeated", .bool f.repeated)]
  let target := match extensionTarget? t with
    | some target => [("extends", .string target)]
    | none => []
  .object ([("name", .string t.name)] ++ target ++ [("fields", .array (t.fields.map field))])

/-! ## Commands -/

namespace Invocation

/-- The codec of a type name. -/
def codec (name : String) : Action Codec := do
  Action.note (Registry.standard.getLog name)
  Action.ofResult (Registry.standard.get name)

/-- The limits of the settings file, if there is one. -/
def install (s : Surroundings) : Option String → Action (Option Limits)
  | none => pure none
  | some path => do
    let text ← match s.text path with
      | .ok text => pure text
      | .error reason => throw (.fault (.configuration s!"{path}: {reason}"))
    let limits ← Action.ofResult (Limits.ofToml text)
    let installed ← Action.ofResult (limits.install none)
    Action.note [.limitsInstalled installed, .settingsLoaded path]
    return some installed

/-- The text to encode: of a file, or from standard input. -/
def input (s : Surroundings) : Option String → Action String
  | some path =>
    match s.text path with
    | .ok text => pure text
    | .error reason => throw (.unreadable path reason)
  | none =>
    match Text.ofUtf8? s.stdin with
    | some text => pure text
    | none => throw (.unreadableStdin notUtf8)

/-- Encodes a text as hexadecimal digits. -/
def encode (s : Surroundings) (installed : Option Limits) (typeName : String)
    (path : Option String) (strict : Bool) : Action String := do
  let c ← codec typeName
  let text ← input s path
  match Json.parse? text with
  | none => throw .notJson
  | some v =>
    let bytes ← Action.ofResult <|
      if strict then c.build installed v else c.encodeJson (.current installed) v
    return unlines [Text.hex bytes]

/-- Decodes hexadecimal digits to JSON. A payload that is malformed is worth a warning. -/
def decode (installed : Option Limits) (typeName payload : String) (fullRange pretty : Bool) :
    Action String := do
  let c ← codec typeName
  match Text.ofHex payload with
  | .error cause => throw (.badPayload payload cause)
  | .ok bytes =>
    -- The option widens the range of the settings and leaves their depth.
    let limits := Limits.current installed
    let limits := if fullRange then limits.withFullRange else limits
    let run := c.schema.run c.type limits bytes
    Action.note run.cursor.log
    match run.outcome with
    | .error f =>
      if f.isMalformedInput then Action.note [.malformedPayload f.details bytes.length]
      throw (.fault f)
    | .ok () =>
      let v := c.toJson run.message
      return unlines [if pretty then v.pretty else v.compact]

/-- Lists the type names. -/
def types (json : Bool) : String :=
  let names := Registry.standard.typeNames
  if json then unlines [(Json.array (names.map .string)).pretty] else unlines names

/-- Describes one type, or every type in the order of the files. -/
def schema (typeName : Option String) (json : Bool) : Action String := do
  let described ← match typeName with
    | some name => do
      let c ← codec name
      let d ← Action.ofResult (Catalog.declaration? c.type.name)
      pure [d.2.type]
    | none => pure (Catalog.declarations.map fun d => d.2.type)
  return if json then unlines [(Json.array (described.map typeSummary)).pretty]
    else unlines (described.flatMap describeType)

/-- The output of a command. -/
def perform (i : Invocation) (s : Surroundings) : Action String := do
  let installed ← install s i.settings
  match i.command with
  | .types json => return types json
  | .encode typeName path strict => encode s installed typeName path strict
  | .decode typeName payload fullRange pretty =>
    decode installed typeName payload fullRange pretty
  | .schema typeName json => schema typeName json

end Invocation

/-! ## Command lines -/

/-- What a command line leaves: the exit code, both outputs, and the remarks to show. -/
structure Response where
  exitCode : Nat
  stdout : String := ""
  stderr : String := ""
  log : List Event := []
  deriving Repr

/-- The answer to a command line, with the remarks that a filter lets through. -/
def respond (filter : Filter) (s : Surroundings) (args : List String) : Response :=
  match Request.parse? args with
  | none => { exitCode := 2, stderr := Help.ofProgram }
  | some .version => { exitCode := 0, stdout := unlines [programName ++ " 0.1.0"] }
  | some (.help shape) => { exitCode := 0, stdout := shape.elim Help.ofProgram Help.ofShape }
  | some (.run i) =>
    match i.perform s [] with
    | .ok out log => { exitCode := 0, stdout := out, log := log.filter filter.shows }
    | .error e log =>
      { exitCode := 1, stderr := unlines ["Error: " ++ e.message], log := log.filter filter.shows }

/-- The filter of a list of directives, or the standard one if there is none. -/
def Filter.ofSetting : Option String → Filter
  | some directives => .parse directives
  | none => .standard

end SchemaCodec
