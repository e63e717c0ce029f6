import SchemaCodec.Registry.Codec

/-!
# Registry.Process — codecs under the limits of a process

- `Process.current`: the limits in force.
- `Process.decode`, `Process.readJson`, `Process.build`: readers under the limits in force.

What is installed stays installed after a failure, and is not taken back by one.
-/

namespace SchemaCodec
namespace Process

/-- The limits in force. -/
def current : Process Limits :=
  return .current (← get)

/-- The message of a payload. -/
def decode (c : Codec) (bytes : List UInt8) : Process Message := do
  ofResult (c.decode (← current) bytes)

/-- The message that a value denotes. -/
def readJson (c : Codec) (coercion : Coercion) (v : Json) : Process Message := do
  ofResult (c.readJson coercion (← current) v)

/-- The bytes of a value, read strictly. -/
def build (c : Codec) (v : Json) : Process (List UInt8) := do
  ofResult (c.build (← get) v)

end Process
end SchemaCodec
