import SchemaCodec.Command.Arguments

/-!
# Command.Help — help texts

- `Switch.label`: an option as help texts spell it.
- `Help.columns`: lines of two columns.
- `Help.page`: a help text from its parts.
- `Help.ofShape`, `Help.ofProgram`: the help texts of a command and of the program.
-/

namespace SchemaCodec

/-- Lines, each with its end. -/
def unlines (lines : List String) : String :=
  String.join (lines.map (· ++ "\n"))

/-- The name of the program. -/
def programName : String := "msgdef"

/-- An option as help texts spell it: its letter, its name and its value. -/
def Switch.label (s : Switch) : String :=
  let letter := match s.letter with
    | some c => String.ofList ['-', c, ',', ' ']
    | none => "    "
  let value := match s.role with
    | .value what => " <" ++ what ++ ">"
    | _ => ""
  letter ++ "--" ++ s.name ++ value

namespace Help

/-- A text with blanks behind it up to a width. -/
def padded (width : Nat) (s : String) : String :=
  s ++ String.ofList (List.replicate (width - s.length) ' ')

/-- Lines of two columns, the first as wide as its longest text. -/
def columns (rows : List (String × String)) : List String :=
  let width := (rows.map fun row => row.1.length).foldl max 0
  rows.map fun row => "  " ++ padded width row.1 ++ "  " ++ row.2

/-- A list with its title and an empty line in front; without rows there is none. -/
def titled (title : String) (rows : List (String × String)) : List String :=
  if rows.isEmpty then [] else ["", title ++ ":"] ++ columns rows

/-- A help text: what it is about, the usage, and lists. -/
def page (summary : String) (usage : List String) (lists : List (List String)) : String :=
  unlines ([summary, "", "Usage: " ++ String.intercalate " " (programName :: usage)] ++
    lists.flatten)

/-- The rows about options. -/
def switchRows (switches : List Switch) : List (String × String) :=
  switches.map fun s => (s.label, s.summary)

/-- The help text of a command. -/
def ofShape (s : Shape) : String :=
  let options := if s.switches.isEmpty then [] else ["[OPTIONS]"]
  page s.summary (s.name :: options ++ s.operands.map (·.label)) [
    titled "Arguments" (s.operands.map fun o => (o.label, o.summary)),
    titled "Options" (switchRows s.switches)]

/-- The help text of the program. -/
def ofProgram : String :=
  page "Encode, decode and inspect queue message payloads" ["[OPTIONS]", "<COMMAND>"] [
    titled "Commands" (Shape.all.map fun s => (s.name, s.summary)),
    titled "Options" (switchRows Request.frontSwitches)]

end Help
end SchemaCodec
