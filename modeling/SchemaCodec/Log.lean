import SchemaCodec.Settings.Limits
import SchemaCodec.Text.Quoted
import SchemaCodec.Wire.Format

/-!
# Log — what happens on the way

- `Event`: the remarks that operations make, as values.
- `Level`, `Event.level`: how serious a remark is.
- `Event.text`: the remark as a line of text.
- `Filter`: which events are shown, read from a list of directives.
-/

namespace SchemaCodec

/-! ## Events -/

/-- How serious a remark is, from the least to the most. -/
inductive Level where
  | trace
  | debug
  | info
  | warn
  | error
  deriving DecidableEq, Repr

/-- The rank of a level. -/
def Level.rank : Level → Nat
  | .trace => 0
  | .debug => 1
  | .info => 2
  | .warn => 3
  | .error => 4

/-- The name of a level. -/
def Level.label : Level → String
  | .trace => "TRACE"
  | .debug => "DEBUG"
  | .info => "INFO"
  | .warn => "WARN"
  | .error => "ERROR"

/-- A remark that an operation makes. -/
inductive Event where
  /-- a type was found by its unqualified name -/
  | shortNameResolved (requested resolved : String)
  /-- limits were installed -/
  | limitsInstalled (limits : Limits)
  /-- a key ended a message before its last byte -/
  | endMarker (message : String) (position : Nat)
  /-- a field carried a wire type that is not its own -/
  | wireTypeMismatch (message field : String) (expected actual : WireType)
  /-- a field is not in the table of its message -/
  | unknownField (message : String) (number : Nat) (wire : WireType)
  /-- a settings file was loaded -/
  | settingsLoaded (path : String)
  /-- a payload could not be decoded -/
  | malformedPayload (details : List (String × String)) (length : Nat)
  deriving DecidableEq, Repr

namespace Event

/-- How serious a remark is. -/
def level : Event → Level
  | .unknownField .. => .trace
  | .malformedPayload .. => .warn
  | _ => .debug

/-- The part of the program that makes a remark, as directives name it. -/
def target : Event → String
  | .settingsLoaded _ | .malformedPayload .. => "msgdef"
  | _ => "message_definition"

/-- Named values as a list of quoted pairs. -/
def pairs (details : List (String × String)) : String :=
  let pair (d : String × String) : String :=
    "(" ++ Text.quoted d.1 ++ ", " ++ Text.quoted d.2 ++ ")"
  "[" ++ String.intercalate ", " (details.map pair) ++ "]"

/-- The remark as a line of text, its values behind it. -/
def text : Event → String
  | .shortNameResolved requested resolved =>
    "resolved short name requested=" ++ Text.quoted requested ++ " resolved=" ++
      Text.quoted resolved
  | .limitsInstalled limits =>
    s!"installed codec configuration integer_range={limits.range.label} " ++
      s!"recursion_limit={limits.recursion}"
  | .endMarker message position =>
    s!"end-of-message marker, stopping {message} position={position}"
  | .wireTypeMismatch message field expected actual =>
    s!"wire type mismatch, skipping value {message} field=" ++ Text.quoted field ++
      s!" expected={expected.label} actual={actual.label}"
  | .unknownField message number wire =>
    s!"skipping unknown field {message} field_number={number} wire_type={wire.label}"
  | .settingsLoaded path => s!"loaded codec configuration path={path}"
  | .malformedPayload details length =>
    "malformed payload fields=" ++ pairs details ++ s!" len={length}"

end Event

/-! ## Filters -/

/-- What a directive lets through: the events of a target, or all events, from a level on, or
none. -/
structure Directive where
  target : Option String
  least : Option Level
  deriving DecidableEq, Repr

/-- The directives in force. -/
structure Filter where
  directives : List Directive
  deriving DecidableEq, Repr

namespace Filter

/-- The level that a word names, in any case; `off` names none. -/
def level? (word : List Char) : Option (Option Level) :=
  match String.ofList (word.map Char.toLower) with
  | "off" | "0" => some none
  | "error" | "1" => some (some .error)
  | "warn" | "2" => some (some .warn)
  | "info" | "3" => some (some .info)
  | "debug" | "4" => some (some .debug)
  | "trace" | "5" => some (some .trace)
  | _ => none

/-- One directive: a level for everything, a target with its level, or a target alone. -/
def directive? (s : List Char) : Option Directive :=
  match s.span (· ≠ '=') with
  | (target, '=' :: word) =>
    (level? word).map fun least => ⟨some (String.ofList target), least⟩
  | (word, _) =>
    match level? word with
    | some least => some ⟨none, least⟩
    -- A target alone asks for all of its events.
    | none => some ⟨some (String.ofList word), some .trace⟩

/-- The parts of a list separated by commas. -/
def parts : List Char → List (List Char)
  | [] => [[]]
  | c :: rest =>
    if c = ',' then [] :: parts rest
    else
      match parts rest with
      | part :: others => (c :: part) :: others
      | [] => [[c]]

/-- The filter where none is asked for: warnings and errors. -/
def standard : Filter := ⟨[⟨none, some .warn⟩]⟩

/-- The filter that a list of directives denotes. An empty list shows errors only. -/
def parse (s : String) : Filter :=
  match (((parts s.toList).filter (!·.isEmpty)).mapM directive?) with
  | some [] => ⟨[⟨none, some .error⟩]⟩
  | some directives => ⟨directives⟩
  | none => standard

/-- How closely a directive fits a target: the length of the name it asks for. -/
def fit? (target : String) (d : Directive) : Option Nat :=
  match d.target with
  | none => some 0
  | some name => if name.toList.isPrefixOf target.toList then some (name.length + 1) else none

/-- Of the directives that fit a target, the closest one, the last of equals. -/
def closest (target : String) (ds : List Directive) : Option (Nat × Directive) :=
  ds.foldl (fun best d =>
    match fit? target d, best with
    | none, best => best
    | some n, none => some (n, d)
    | some n, some (m, old) => if m ≤ n then some (n, d) else some (m, old)) none

/-- Whether an event is shown: the directive closest to its target decides. -/
def shows (f : Filter) (e : Event) : Bool :=
  match closest e.target f.directives with
  | some (_, ⟨_, some least⟩) => least.rank ≤ e.level.rank
  | _ => false

end Filter
end SchemaCodec
