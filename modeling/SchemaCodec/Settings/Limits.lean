import SchemaCodec.Fault

/-!
# Settings.Limits — what a reader accepts

- `IntegerRange`: which unsigned 64-bit numbers are accepted.
- `Limits`: the range and the greatest depth of nesting; every reader takes them.
- `Process`: an action of a process that may have installed limits.
- `Process.hold`, `Process.install`: the one-time choice of the limits of a process.
- `Limits.install`: the same choice, for what is installed before it.
- `Limits.current`: the limits in force.

Nothing is installed at first. The first valid choice stays, the same choice again is harmless,
and any other is refused without an effect.
-/

namespace SchemaCodec

/-- The largest integer up to which every integer is a double. -/
def maxSafeInteger : UInt64 := 9007199254740991

/-- Which unsigned 64-bit numbers are accepted. -/
inductive IntegerRange where
  | safe
  | full
  deriving DecidableEq, Repr

namespace IntegerRange

/-- The safe range ends where doubles stop telling integers apart. -/
def accepts : IntegerRange → UInt64 → Bool
  | .safe, n => n ≤ maxSafeInteger
  | .full, _ => true

/-- The name shown for a range. -/
def label : IntegerRange → String
  | .safe => "Safe"
  | .full => "Full"

/-- The name of a range in a settings file. -/
def settingName : IntegerRange → String
  | .safe => "safe"
  | .full => "full"

end IntegerRange

/-- The limits of one read: the accepted integers, and how many submessages or groups may be open
at once. -/
structure Limits where
  range : IntegerRange := .safe
  recursion : Nat := 100
  deriving DecidableEq, Repr

namespace Limits

/-- The limits without any restriction on integers. -/
def withFullRange (l : Limits) : Limits :=
  { l with range := .full }

/-- The text of a set of limits in messages. -/
def describe (l : Limits) : String :=
  "CodecConfig \x7b integer_range: " ++ l.range.label ++ ", recursion_limit: " ++
    toString l.recursion ++ " \x7d"

/-- Limits that may be installed let at least one submessage open. -/
def validate (l : Limits) : Except Fault Unit :=
  if l.recursion = 0 then .error (.configuration "recursion_limit must be at least 1") else .ok ()

/-- The installed limits, or the default ones. -/
def current (installed : Option Limits) : Limits :=
  installed.getD {}

end Limits

/-! ## Installing -/

/-- An action of a process that may have installed limits. -/
abbrev Process := EStateM Fault (Option Limits)

namespace Process

/-- A result that does not depend on the process. -/
def ofResult {α : Type} (r : Except Fault α) : Process α :=
  match r with
  | .ok a => pure a
  | .error f => throw f

/-- The limits that the process holds. It takes these if it holds none. -/
def hold (l : Limits) : Process Limits :=
  modifyGet fun installed => (installed.getD l, some (installed.getD l))

/-- Installs limits. They have to be valid before anything is held, and what is held has to be the
same afterwards. -/
def install (l : Limits) : Process Unit := do
  ofResult l.validate
  let held ← hold l
  unless held = l do
    throw (.configuration s!"configuration already installed as {held.describe}")

end Process

/-- Installs limits over those installed before, if any. The result is what is installed after a
success; a failure changes nothing. -/
def Limits.install (installed : Option Limits) (l : Limits) : Except Fault Limits :=
  match (Process.install l).run installed with
  | .ok () held => .ok (.current held)
  | .error e _ => .error e

end SchemaCodec
