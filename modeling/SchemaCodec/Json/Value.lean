import SchemaCodec.Numeric.Binary64

/-!
# Json.Value — JSON values

- `Number`: an integer or a double, as the spelling decides.
- `Json`: a value; the members of an object are sorted by key.
- `Json.insert`, `Json.ofMembers`: objects from members, the last of two equal keys winning.
- `Json.describe`: what kind of value was found, for messages.
-/

namespace SchemaCodec

open Numeric (Binary64 fitsInt64 fitsUInt64)

/-- A number. Documents give integers of at most 64 bits, from `-2^63` to `2^64 - 1`, and doubles
for every other spelling. -/
inductive Number where
  | integer (n : Int)
  | double (x : Binary64)
  deriving DecidableEq, Repr

namespace Number

/-- The number as a signed 64-bit integer, if it is spelled as one. -/
def toInt64? : Number → Option Int
  | .integer n => if fitsInt64 n then some n else none
  | .double _ => none

/-- The number as an unsigned 64-bit integer, if it is spelled as one. -/
def toUInt64? : Number → Option UInt64
  | .integer n => if fitsUInt64 n then some (UInt64.ofNat n.toNat) else none
  | .double _ => none

/-- The double nearest to the number. -/
def toBinary64 : Number → Binary64
  | .integer n => .ofInt n
  | .double x => x

end Number

/-- A JSON value. The members of an object are in ascending order of their keys, each key once. -/
inductive Json where
  | null
  | bool (b : Bool)
  | number (n : Number)
  | string (s : String)
  | array (items : List Json)
  | object (members : List (String × Json))
  deriving Repr, Inhabited

namespace Json

/-- Sets a key in sorted members. -/
def insert (key : String) (value : Json) : List (String × Json) → List (String × Json)
  | [] => [(key, value)]
  | (k, v) :: rest =>
    if key < k then (key, value) :: (k, v) :: rest
    -- The new value wins.
    else if key = k then (key, value) :: rest
    else (k, v) :: insert key value rest

/-- The object with the given members; a repeated key keeps its last value. -/
def ofMembers (members : List (String × Json)) : Json :=
  .object (members.foldl (fun sorted m => insert m.1 m.2 sorted) [])

/-- The integer `n` as a value. -/
def ofInt (n : Int) : Json :=
  .number (.integer n)

/-- The kind of a value, with its article. -/
def describe : Json → String
  | .null => "null"
  | .bool _ => "a boolean"
  | .number _ => "a number"
  | .string _ => "a string"
  | .array _ => "an array"
  | .object _ => "an object"

end Json
end SchemaCodec
