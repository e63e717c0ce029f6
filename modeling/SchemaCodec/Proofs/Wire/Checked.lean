import SchemaCodec.Wire.Decode

/-!
# Proofs.Wire.Checked — a reader that watches its bounds

A `Cursor` holds the bytes that are left, so nothing can be read behind their end. A `Reader` holds
a buffer, a position and a count of open messages and groups, and does by itself what a cursor gets
for free. This module defines:

- `Reader`: a buffer, a position in it, and what a cursor knows besides.
- `Trap`: what must not happen to a reader. Nothing is made up where it happens; the step ends.
- `Checked`: a step of a reader, which may fail like a step of a cursor, or trap.
- `Reader.varint`, `Reader.bytes`, …, `Reader.skip`, `Reader.message`, `Reader.fields`: the steps.

Nested groups and messages are counted up on the way in and down on the way out, whatever happens
between. A loop may go around once more than there are bytes left, and nothing may be read deeper
than the limits allow; both are traps here, so that a step without one is known to keep them.
-/

namespace SchemaCodec

/-- A reader of a buffer. A depth above the ceiling cannot be counted. -/
structure Reader where
  buffer : List UInt8
  position : Nat := 0
  limits : Limits := {}
  ceiling : Nat
  depth : Nat := 0
  path : FieldPath := ⟨"", ""⟩
  log : List Event := []
  deriving Repr

/-- What must not happen to a reader. -/
inductive Trap where
  /-- more is taken away than there is -/
  | underflow
  /-- bytes outside the buffer are asked for -/
  | outside
  /-- one more than the ceiling is counted -/
  | ceiling
  /-- something is read deeper than the limits allow -/
  | depth
  /-- a loop goes on although it had a round for each byte that was left, and one more -/
  | rounds
  deriving DecidableEq, Repr

/-- Why a step of a reader ended early. -/
inductive Halt where
  | fault (f : Fault)
  | trap (t : Trap)
  deriving DecidableEq, Repr

/-- A step of a reader. A failed step leaves the reader where it failed. -/
abbrev Checked := EStateM Halt Reader

namespace Reader

/-- A new reader of a payload. -/
def start (ceiling : Nat) (limits : Limits) (payload : List UInt8) : Reader where
  buffer := payload
  limits := limits
  ceiling := ceiling

/-- The reader with a remark added to its log. -/
def note (r : Reader) (e : Event) : Reader :=
  { r with log := r.log ++ [e] }

/-- A reader of the payload of a submessage. -/
def child (r : Reader) (payload : List UInt8) (depth : Nat) : Reader :=
  { r with buffer := payload, position := 0, depth := depth }

/-! ## Bounds -/

/-- The number of bytes left. -/
def remaining : Checked Nat := fun r =>
  if r.position ≤ r.buffer.length then .ok (r.buffer.length - r.position) r
  else .error (.trap .underflow) r

/-- The bytes between two places of the buffer. -/
def slice (first last : Nat) : Checked (List UInt8) := fun r =>
  if first ≤ last ∧ last ≤ r.buffer.length then .ok ((r.buffer.drop first).take (last - first)) r
  else .error (.trap .outside) r

/-- Nothing happens, unless the reader is deeper than its limits allow. -/
def watchDepth : Checked Unit := fun r =>
  if r.depth ≤ r.limits.recursion then .ok () r else .error (.trap .depth) r

/-- The depth of one more message or group, if the limits allow it. -/
def level : Checked Nat := fun r =>
  if r.ceiling < r.depth + 1 then .error (.trap .ceiling) r
  else if r.limits.recursion < r.depth + 1 then
    .error (.fault (.recursionLimit r.limits.recursion)) r
  else .ok (r.depth + 1) r

/-- One level up again, with the outcome of what happened below. -/
def surface {α : Type} (outcome : Except Halt α) : Checked α := fun r =>
  if r.depth = 0 then .error (.trap .underflow) r
  else
    match outcome with
    | .ok a => .ok a { r with depth := r.depth - 1 }
    | .error e => .error e { r with depth := r.depth - 1 }

/-- A step one level deeper. -/
def nested (body : Checked Unit) : Checked Unit := do
  let depth ← level
  fun r =>
    match body { r with depth := depth } with
    | .ok () r => surface (.ok ()) r
    | .error e r => surface (.error e) r

/-! ## Values -/

/-- A number of 64 bits. -/
def varint : Checked UInt64 := do
  watchDepth
  let r ← get
  let tail ← slice r.position r.buffer.length
  match Varint.decode? tail with
  | some (n, rest) => do
    if tail.length < rest.length then throw (.trap .underflow)
    set { r with position := r.position + (tail.length - rest.length) }
    return UInt64.ofNat n
  | none => throw (.fault (Varint.fault tail r.position))

/-- The next `n` bytes. -/
def take (n : Nat) : Checked (List UInt8) := do
  watchDepth
  let available ← remaining
  let r ← get
  if available < n then throw (.fault (.bufferTooShort n available r.position))
  let payload ← slice r.position (r.position + n)
  set { r with position := r.position + n }
  return payload

/-- A key: the low 32 bits of a number. -/
def key : Checked Nat := do
  let v ← varint
  return v.toUInt32.toNat

def bool : Checked Bool := do
  let v ← varint
  return v != 0

def int32 : Checked Int32 := do
  let v ← varint
  return v.toUInt32.toInt32

def uint64 : Checked UInt64 := do
  let v ← varint
  fun r =>
    if r.limits.range.accepts v then .ok v r
    else .error (.fault (.rangeOverflow r.path v)) r

/-- A count and that many bytes. -/
def bytes : Checked (List UInt8) := do
  let n ← varint
  take n.toNat

def string : Checked String := do
  let payload ← bytes
  fun r =>
    match Text.ofUtf8? payload with
    | some s => .ok s r
    | none => .error (.fault (.invalidUtf8 r.path)) r

/-! ## Skipping -/

/-- Past a value of a wire type, where `group` goes past a group. -/
def skipBy (group : Checked Unit) : WireType → Checked Unit
  | .varint => do
    let _ ← varint
  | .fixed64 => do
    let _ ← take 8
  | .lengthDelimited => do
    let _ ← bytes
  | .fixed32 => do
    let _ ← take 4
  | .startGroup => group
  | .endGroup => fun r => .error (.fault (.invalidWireType WireType.endGroup.raw r.position)) r

/-- Up to the key that ends a group, where `group` goes past the groups inside. -/
def groupBody (group : Checked Unit) : Nat → Checked Unit
  | 0 => throw (.trap .rounds)
  | rounds + 1 => fun r =>
    match key r with
    | .error e s => .error e s
    | .ok k s =>
      match WireType.ofRaw (k % 8) r.position with
      | .error e => .error (.fault e) s
      | .ok .endGroup => .ok () s
      | .ok w =>
        match skipBy group w s with
        | .error e s => .error e s
        | .ok () s => groupBody group rounds s

/-- Past a group, where the limits leave room for `levels` open ones. -/
def group : (levels : Nat) → Checked Unit
  | 0 => do
    let _ ← level
    throw (.trap .depth)
  | levels + 1 => nested do
    let n ← remaining
    groupBody (group levels) (n + 1)

/-- Past a value of a wire type. -/
def skip (w : WireType) : Checked Unit := fun r =>
  skipBy (group (r.limits.recursion - r.depth)) w r

/-! ## Messages -/

/-- What the next key says. -/
def tag : Checked Tag := fun r =>
  match key r with
  | .error e s => .error e s
  | .ok k s =>
    if k = 0 ∨ k % 8 = WireType.endGroup.raw then .ok .stop s
    else
      match WireType.ofRaw (k % 8) r.position with
      | .error e => .error (.fault e) s
      | .ok w => .ok (.field (k / 8) w) s

/-- What reading the records of a message leaves: the message as far as it was read, and how the
reading ended. -/
structure Filled where
  message : Message
  result : EStateM.Result Halt Reader Unit

section Messages

variable (σ : Schema)

/-- One value of a field of a kind, where `message` reads the submessages. -/
def elementBy (message : MessageType → Checked Message) : Kind → Checked Element
  | .string => do return .string (← string)
  | .bool => do return .bool (← bool)
  | .int32 => do return .int32 (← int32)
  | .uint64 => do return .uint64 (← uint64)
  | .enum _ => do return .enum (← int32)
  | .message name => do return .message (← message (σ.type name))

/-- Reads records into a message, where `message` reads the submessages. -/
def fieldsBy (message : MessageType → Checked Message) (t : MessageType) :
    Nat → Message → Reader → Filled
  | 0, m, r => ⟨m, .error (.trap .rounds) r⟩
  | rounds + 1, m, r =>
    if r.buffer.length ≤ r.position then ⟨m, .ok () r⟩
    else
      match tag r with
      | .error e s => ⟨m, .error e s⟩
      | .ok .stop s => ⟨m, .ok () (s.note (.endMarker t.name r.position))⟩
      | .ok (.field number w) s =>
        match t.field? number with
        | some f =>
          if f.wireType = w then
            match elementBy σ message f.kind { s with path := ⟨t.name, f.jsonName⟩ } with
            | .error e s' => ⟨m, .error e s'⟩
            | .ok x s' => fieldsBy message t rounds (t.put m number x) { s' with path := s.path }
          else
            match skip w (s.note (.wireTypeMismatch t.name f.jsonName f.wireType w)) with
            | .error e s' => ⟨m, .error e s'⟩
            | .ok () s' => fieldsBy message t rounds m s'
        | none =>
          match skip w (s.note (.unknownField t.name number w)) with
          | .error e s' => ⟨m, .error e s'⟩
          | .ok () s' => fieldsBy message t rounds m s'

/-- A submessage, where the limits leave room for `levels` open ones. It is read by a reader of its
own, of which only the remarks come back. -/
def messageAt : (levels : Nat) → MessageType → Checked Message
  | 0, _ => do
    let _ ← level
    throw (.trap .depth)
  | levels + 1, t => do
    let depth ← level
    let payload ← bytes
    fun r =>
      let filled := fieldsBy σ (messageAt levels) t (payload.length + 1) t.empty
        (r.child payload depth)
      match filled.result with
      | .ok () s => .ok filled.message { r with log := s.log }
      | .error e s => .error e { r with log := s.log }

/-- A submessage. -/
def message (t : MessageType) : Checked Message := fun r =>
  messageAt σ (r.limits.recursion - r.depth) t r

/-- One value of a field of a kind. -/
def element (kind : Kind) : Checked Element :=
  elementBy σ (message σ) kind

/-- A message after the value of one of its fields has been read. -/
def merge (t : MessageType) (m : Message) (number : Nat) : Checked Message :=
  match t.field? number with
  | none => return m
  | some f => do
    let e ← element σ f.kind
    return t.put m number e

/-- Reads records into a message until the buffer is empty, the message ends, or a record fails. -/
def fields (t : MessageType) (m : Message) (r : Reader) : Filled :=
  match remaining r with
  | .error e s => ⟨m, .error e s⟩
  | .ok n s => fieldsBy σ (messageAt σ (r.limits.recursion - r.depth)) t (n + 1) m s

end Messages
end Reader
end SchemaCodec
