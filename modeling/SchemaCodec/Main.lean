import SchemaCodec.Command.Run

/-!
# Main — the program

Reads what a command line needs from the outside world, and writes the response.
-/

namespace SchemaCodec
namespace Program

/-- The reason that the system gives for a failure. Some failures carry their number negated. -/
def systemReason (code : UInt32) (details : String) : String :=
  s!"{details.capitalize} (os error {min code (0 - code)})"

/-- The bytes of a file, or the reason why it cannot be read. -/
def readFile (path : String) : IO (Except String (List UInt8)) := do
  try
    let bytes ← IO.FS.readBinFile path
    return .ok bytes.data.toList
  catch
    | .noFileOrDirectory _ code details => return .error (systemReason code details)
    | .inappropriateType _ code details => return .error (systemReason code details)
    | .permissionDenied _ code details => return .error (systemReason code details)
    | e => return .error (toString e)

/-- The rest of a stream. -/
partial def readAll (stream : IO.FS.Stream) (bytes : ByteArray) : IO ByteArray := do
  let chunk ← stream.read 65536
  if chunk.isEmpty then return bytes else readAll stream (bytes ++ chunk)

/-- The files that a request names, with what they hold. -/
def readFiles (paths : List String) : IO (List (String × Except String (List UInt8))) :=
  paths.mapM fun path => do return (path, ← readFile path)

/-- What a request needs of its surroundings. -/
def surroundings (request : Option Request) : IO Surroundings := do
  let files ← readFiles (request.elim [] Request.files)
  let stdin ← if request.any Request.readsStdin then readAll (← IO.getStdin) .empty else pure .empty
  return {
    stdin := stdin.data.toList
    file := fun path => (files.lookup path).getD (.error "not read") }

/-- Answers a command line: remarks and messages go to standard error. -/
def run (args : List String) : IO UInt32 := do
  let filter := Filter.ofSetting (← IO.getEnv "RUST_LOG")
  let response := respond filter (← surroundings (Request.parse? args)) args
  for e in response.log do
    IO.eprintln (e.level.label ++ " " ++ e.text)
  IO.print response.stdout
  IO.eprint response.stderr
  return UInt32.ofNat response.exitCode

end Program
end SchemaCodec

/-- The program. -/
def main (args : List String) : IO UInt32 :=
  SchemaCodec.Program.run args
