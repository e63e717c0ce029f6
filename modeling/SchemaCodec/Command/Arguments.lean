/-!
# Command.Arguments — the words of the command line

- `Command`, `Invocation`: what the program is asked to do.
- `Switch`: an option of the command line.
- `Switch.scan`: the options and the plain words among arguments.
- `Shape`: the words and options of a command, with what help texts say about them.
- `Request.parse?`: the request that a command line makes, if it makes one.
- `Request.files`, `Request.readsStdin`: what a request needs to be answered.

A command line that makes none is a usage error, and so is an option that is given twice.
-/

namespace SchemaCodec

/-! ## What is asked -/

/-- What the program is asked to do. -/
inductive Command where
  | types (json : Bool)
  | encode (typeName : String) (input : Option String) (strict : Bool)
  | decode (typeName payload : String) (fullRange pretty : Bool)
  | schema (typeName : Option String) (json : Bool)
  deriving DecidableEq, Repr

/-- A command with the settings file that it runs under. -/
structure Invocation where
  settings : Option String
  command : Command
  deriving DecidableEq, Repr

/-! ## Options -/

/-- What an option does to the scan of the arguments. -/
inductive Role where
  /-- it stands for itself -/
  | flag
  /-- a value belongs to it, named for help texts -/
  | value (what : String)
  /-- it asks for something else than the command, so what follows does not matter -/
  | final
  deriving DecidableEq, Repr

/-- An option: its name, its letter, what it does, and a line about it. -/
structure Switch where
  name : String
  letter : Option Char
  role : Role
  summary : String
  deriving DecidableEq, Repr

namespace Switch

/-- An argument by itself. -/
inductive Word where
  | plain
  /-- the arguments behind it are all plain -/
  | separator
  | unknown
  | flags (names : List String)
  /-- an option that a value belongs to, with the value if it stands in the same argument -/
  | valued (flags : List String) (name : String) (value : Option String)
  /-- an option that ends the scan -/
  | final (flags : List String) (name : String)
  deriving DecidableEq, Repr

/-- A run of option letters. The first option with a value takes the rest of the run. -/
def cluster (known : List Switch) : List Char → List String → Word
  | [], flags => .flags flags
  | c :: rest, flags =>
    match known.find? fun s => s.letter == some c with
    | none => .unknown
    | some s =>
      match s.role, rest with
      | .flag, _ => cluster known rest (flags ++ [s.name])
      | .final, _ => .final flags s.name
      | .value _, [] => .valued flags s.name none
      | .value _, '=' :: value => .valued flags s.name (some (String.ofList value))
      | .value _, value => .valued flags s.name (some (String.ofList value))

/-- An option by its name, perhaps with a value behind an equals sign. -/
def named (known : List Switch) (name : String) (value : Option String) : Word :=
  match known.find? fun s => s.name == name with
  | none => .unknown
  | some s =>
    match s.role, value with
    | .value _, value => .valued [] name value
    | .flag, none => .flags [name]
    | .final, none => .final [] name
    | _, some _ => .unknown

/-- What an argument is. -/
def classify (known : List Switch) (arg : String) : Word :=
  match arg.toList with
  | ['-', '-'] => .separator
  | '-' :: '-' :: body =>
    let value := match body.dropWhile (· ≠ '=') with
      | '=' :: value => some (String.ofList value)
      | _ => none
    named known (String.ofList (body.takeWhile (· ≠ '='))) value
  | ['-'] => .plain
  | '-' :: letters => cluster known letters []
  | _ => .plain

/-- Whether an argument may be the value of the option in front of it. -/
def isValue (arg : String) : Bool :=
  match arg.toList with
  | ['-'] => true
  | '-' :: _ => false
  | _ => true

/-- The options and plain words found so far. -/
structure Found where
  flags : List String := []
  values : List (String × String) := []
  words : List String := []
  /-- the option that ended the scan, if one did -/
  final : Option String := none
  /-- the arguments behind the point where the scan stopped for want of room -/
  rest : List String := []
  deriving DecidableEq, Repr

/-- Adds options without values; none may be there already. -/
def Found.addFlags (f : Found) : List String → Option Found
  | [] => some f
  | name :: rest =>
    if f.flags.contains name then none
    else Found.addFlags { f with flags := f.flags ++ [name] } rest

/-- Adds an option with its value; it may not be there already, and no value is empty. -/
def Found.addValue (f : Found) (name value : String) : Option Found :=
  if value.isEmpty || f.values.any fun v => v.1 == name then none
  else some { f with values := f.values ++ [(name, value)] }

/-- Scans arguments. At most `room` words are plain; where there is no room for any, the scan stops
in front of the first. -/
def scan (known : List Switch) (room : Nat) (found : Found) : List String → Option Found
  | [] => some found
  | arg :: rest =>
    match classify known arg with
    | .unknown => none
    | .plain =>
      -- In front of a command, the first plain word is the command.
      if room = 0 then some { found with rest := arg :: rest }
      else if found.words.length < room then
        scan known room { found with words := found.words ++ [arg] } rest
      else none
    | .separator =>
      if found.words.length + rest.length ≤ room then
        some { found with words := found.words ++ rest }
      else none
    | .flags names =>
      match found.addFlags names with
      | some found => scan known room found rest
      | none => none
    -- Nothing behind it is looked at.
    | .final flags name => (found.addFlags flags).map fun found => { found with final := some name }
    | .valued flags name (some value) =>
      match (found.addFlags flags).bind fun found => found.addValue name value with
      | some found => scan known room found rest
      | none => none
    | .valued flags name none =>
      match rest with
      | [] => none
      | value :: rest =>
        if isValue value then
          match (found.addFlags flags).bind fun found => found.addValue name value with
          | some found => scan known room found rest
          | none => none
        else none

end Switch

/-! ## Commands -/

/-- A plain word that a command takes: how help texts spell it, and a line about it. -/
structure Operand where
  label : String
  summary : String
  deriving DecidableEq, Repr

/-- A command: its name, a line about it, its words and its options. -/
structure Shape where
  name : String
  summary : String
  operands : List Operand
  switches : List Switch
  deriving DecidableEq, Repr

namespace Shape

/-- The settings file, an option of every command. -/
def configSwitch : Switch :=
  ⟨"config", none, .value "FILE", "Codec configuration file (TOML)"⟩

/-- The request for help. -/
def helpSwitch : Switch := ⟨"help", some 'h', .final, "Print help"⟩

/-- The request for the version. -/
def versionSwitch : Switch := ⟨"version", some 'V', .final, "Print version"⟩

/-- The choice of JSON output. -/
def jsonSwitch : Switch := ⟨"json", some 'j', .flag, "Output as JSON"⟩

/-- The word that names a type. -/
def typeOperand : Operand := ⟨"<TYPE>", "Message type (full or short name)"⟩

/-- Lists the type names. -/
def types : Shape where
  name := "types"
  summary := "List registered message types"
  operands := []
  switches := [configSwitch, jsonSwitch, helpSwitch]

/-- Encodes an object. -/
def encode : Shape where
  name := "encode"
  summary := "Encode a JSON object to a hex protobuf payload"
  operands := [typeOperand]
  switches := [
    configSwitch,
    ⟨"input", some 'i', .value "FILE", "JSON input file (defaults to stdin)"⟩,
    ⟨"strict", none, .flag, "Require correctly typed values and reject unknown keys"⟩,
    helpSwitch]

/-- Decodes a payload. -/
def decode : Shape where
  name := "decode"
  summary := "Decode a hex protobuf payload to JSON"
  operands := [typeOperand, ⟨"<HEX>", "Payload as hex"⟩]
  switches := [
    configSwitch,
    ⟨"full-range", none, .flag, "Accept 64-bit ids above 2^53-1"⟩,
    ⟨"pretty", none, .flag, "Pretty-print the JSON"⟩,
    helpSwitch]

/-- Describes types. -/
def schema : Shape where
  name := "schema"
  summary := "Show message descriptors"
  operands := [⟨"[TYPE]", "Message type (full or short name); all types when omitted"⟩]
  switches := [configSwitch, jsonSwitch, helpSwitch]

/-- Prints help. Its words are looked up at once, so it has no options. -/
def help : Shape where
  name := "help"
  summary := "Print this message or the help of the given subcommand(s)"
  operands := [⟨"[COMMAND]...", "Print help for the subcommand(s)"⟩]
  switches := []

/-- The commands, in the order of help texts. -/
def all : List Shape :=
  [types, encode, decode, schema, help]

/-- The command with a name. -/
def ofName? (name : String) : Option Shape :=
  all.find? fun s => s.name == name

end Shape

/-- The command of a shape with what was found behind it, if nothing is missing. -/
def Command.ofFound? (shape : Shape) (found : Switch.Found) : Option Command :=
  match shape.name, found.words with
  | "types", [] => some (.types (found.flags.contains "json"))
  | "encode", [t] =>
    some (.encode t (found.values.lookup "input") (found.flags.contains "strict"))
  | "decode", [t, payload] =>
    some (.decode t payload (found.flags.contains "full-range") (found.flags.contains "pretty"))
  | "schema", [] => some (.schema none (found.flags.contains "json"))
  | "schema", [t] => some (.schema (some t) (found.flags.contains "json"))
  | _, _ => none

/-! ## Command lines -/

/-- What a command line asks for. -/
inductive Request where
  /-- a help text, of a command or of the program -/
  | help (shape : Option Shape)
  | version
  | run (invocation : Invocation)
  deriving DecidableEq, Repr

namespace Request

/-- The options in front of a command. -/
def frontSwitches : List Switch :=
  [Shape.configSwitch, Shape.helpSwitch, Shape.versionSwitch]

/-- The request for help in words: of the program, or of one command. -/
def ofHelpWords? : List String → Option Request
  | [] => some (.help none)
  | [name] => (Shape.ofName? name).map fun shape => .help (some shape)
  | _ => none

/-- The request that a command makes with the arguments behind it. A settings file named there takes
the place of one named in front. -/
def ofArguments? (shape : Shape) (settings : Option String) (args : List String) :
    Option Request :=
  match Switch.scan shape.switches shape.operands.length {} args with
  | none => none
  | some found =>
    if found.final.isSome then some (.help (some shape))
    else if found.rest.isEmpty then
      (Command.ofFound? shape found).map fun c =>
        .run ⟨(found.values.lookup "config").or settings, c⟩
    else none

/-- The request of a command line. -/
def parse? (args : List String) : Option Request :=
  match Switch.scan frontSwitches 0 {} args with
  | none => none
  | some front =>
    match front.final, front.rest with
    | some "version", _ => some .version
    | some _, _ => some (.help none)
    | none, [] => none
    | none, "help" :: rest => ofHelpWords? rest
    | none, name :: rest =>
      match Shape.ofName? name with
      | some shape => ofArguments? shape (front.values.lookup "config") rest
      | none => none

/-- The files that a request names. -/
def files : Request → List String
  | .run i =>
    i.settings.toList ++
      match i.command with
      | .encode _ input _ => input.toList
      | _ => []
  | _ => []

/-- Whether a request is answered from standard input. -/
def readsStdin : Request → Bool
  | .run ⟨_, .encode _ none _⟩ => true
  | _ => false

end Request
end SchemaCodec
