import SchemaCodec.Wire.Cursor

/-!
# Wire.Decode — messages from bytes

- `Tag`, `Scan.tag`: a key as a field number and a wire type, or the end of a message.
- `Frame`, `Scan.frame`: a value cut out of its payload, submessages still as bytes.
- `Run`: what reading the records of a message leaves, also after a failure.
- `fill`: reads records into a message until the payload or the message ends.
- `Scan.element`: one value of a field.
- `Schema.decode`: the message that a whole payload denotes.

A record of an unknown field, or of a known field with another wire type, is skipped by the wire
type that it carries. A zero key, or one that would end a group, ends the message it stands in.
-/

namespace SchemaCodec

/-! ## Keys -/

/-- What a key says. -/
inductive Tag where
  /-- the message ends here -/
  | stop
  | field (number : Nat) (wire : WireType)
  deriving DecidableEq, Repr

/-- What the next key says. -/
def Scan.tag : Scan Tag := fun c =>
  match Scan.key c with
  | .error e d => .error e d
  | .ok k d =>
    -- No group is open between records, so the end of one can only end the message.
    if k = 0 ∨ k % 8 = WireType.endGroup.raw then .ok .stop d
    else
      match WireType.ofRaw (k % 8) c.position with
      | .error e => .error e d
      | .ok w => .ok (.field (k / 8) w) d

/-- A key takes at least one byte. -/
theorem Scan.tag_length {c c' : Cursor} {tag : Tag} (h : Scan.tag c = .ok tag c') :
    c'.rest.length < c.rest.length := by
  unfold Scan.tag at h
  split at h
  · cases h
  next k d hk =>
    have := key_length hk
    split at h
    · cases h
      exact this
    · split at h
      · cases h
      · cases h
        exact this

/-! ## Values -/

/-- A value cut out of its payload. -/
inductive Frame where
  | scalar (e : Element)
  | submessage (typeName : String) (payload : List UInt8)

/-- Cuts a value of a kind out of its payload. A submessage has to be allowed to open before
anything of it is read. -/
def Scan.frame (kind : Kind) : Scan Frame :=
  match kind with
  | .string => do return .scalar (.string (← Scan.string))
  | .bool => do return .scalar (.bool (← Scan.bool))
  | .int32 => do return .scalar (.int32 (← Scan.int32))
  | .uint64 => do return .scalar (.uint64 (← Scan.uint64))
  | .enum _ => do return .scalar (.enum (← Scan.int32))
  | .message name => fun c =>
    if c.mayOpen 0 then (do return .submessage name (← Scan.bytes) : Scan Frame) c
    else .error (.recursionLimit c.limits.recursion) c

/-- The bytes of a frame that are still to be read. -/
def Frame.size : Frame → Nat
  | .scalar _ => 0
  | .submessage _ payload => payload.length

/-- A frame and what is left behind it are shorter than what there was. -/
theorem Scan.frame_length {kind : Kind} {c c' : Cursor} {frame : Frame}
    (h : Scan.frame kind c = .ok frame c') :
    frame.size + c'.rest.length < c.rest.length := by
  cases kind with
  | string =>
    obtain ⟨_, _, hs, h⟩ := bind_eq_ok.1 h
    cases h
    simpa [Frame.size] using string_length hs
  | bool =>
    obtain ⟨_, _, hb, h⟩ := bind_eq_ok.1 h
    cases h
    simpa [Frame.size] using map_varint_length hb
  | int32 =>
    obtain ⟨_, _, hn, h⟩ := bind_eq_ok.1 h
    cases h
    simpa [Frame.size] using map_varint_length hn
  | uint64 =>
    obtain ⟨_, _, hn, h⟩ := bind_eq_ok.1 h
    cases h
    simpa [Frame.size] using uint64_length hn
  | «enum» type =>
    obtain ⟨_, _, hn, h⟩ := bind_eq_ok.1 h
    cases h
    simpa [Frame.size] using map_varint_length hn
  | message name =>
    unfold Scan.frame at h
    dsimp only at h
    split at h
    · obtain ⟨_, _, hb, h⟩ := bind_eq_ok.1 h
      cases h
      exact bytes_length hb
    · cases h

/-! ## Messages -/

/-- What reading the records of a message leaves: the message as far as it was read, the cursor
where reading stopped, and the failure that stopped it, if any. -/
structure Run where
  message : Message
  cursor : Cursor
  outcome : Except Fault Unit

/-- Reads records into a message until the payload is empty, the message ends, or a record fails.
A failed record leaves the message as it was, and the cursor keeps the path of the field that
failed. -/
def fill (σ : Schema) (t : MessageType) (m : Message) (c : Cursor) : Run :=
  if c.rest.isEmpty then ⟨m, c, .ok ()⟩
  else
    match _ht : Scan.tag c with
    | .error e d => ⟨m, d, .error e⟩
    | .ok .stop d => ⟨m, d.note (.endMarker t.name c.position), .ok ()⟩
    | .ok (.field number w) d =>
      match t.field? number with
      | some f =>
        if f.wireType = w then
          match _hf : Scan.frame f.kind { d with path := ⟨t.name, f.jsonName⟩ } with
          | .error e d' => ⟨m, d', .error e⟩
          | .ok (.scalar e) d' =>
            fill σ t (t.put m number e) { d' with path := d.path }
          | .ok (.submessage name payload) d' =>
            -- The submessage starts empty, so it replaces an earlier one as a whole.
            let run := fill σ (σ.type name) (σ.type name).empty (d'.child payload)
            match run.outcome with
            | .error e => ⟨m, { d' with log := run.cursor.log }, .error e⟩
            | .ok () =>
              fill σ t (t.put m number (.message run.message))
                { d' with path := d.path, log := run.cursor.log }
        else
          -- A known field with a foreign wire type is skipped like an unknown one.
          match _hs : Scan.skip w (d.note (.wireTypeMismatch t.name f.jsonName f.wireType w)) with
          | .error e d' => ⟨m, d', .error e⟩
          | .ok () d' => fill σ t m d'
      | none =>
        match _hs : Scan.skip w (d.note (.unknownField t.name number w)) with
        | .error e d' => ⟨m, d', .error e⟩
        | .ok () d' => fill σ t m d'
  termination_by c.rest.length
  decreasing_by
    · have := Scan.tag_length _ht
      have := Scan.frame_length _hf
      simp only at *
      omega
    · have := Scan.tag_length _ht
      have := Scan.frame_length _hf
      simp only [Cursor.child, Frame.size] at *
      omega
    · have := Scan.tag_length _ht
      have := Scan.frame_length _hf
      simp only at *
      omega
    · have := Scan.tag_length _ht
      have := Scan.skip_length _hs
      simp only [Cursor.note] at *
      omega
    · have := Scan.tag_length _ht
      have := Scan.skip_length _hs
      simp only [Cursor.note] at *
      omega

/-- One value of a field of a kind. A submessage is read from its own payload, one level deeper;
the end of it is the end of that payload whatever it holds. -/
def Scan.element (σ : Schema) (kind : Kind) : Scan Element := fun c =>
  match Scan.frame kind c with
  | .error e d => .error e d
  | .ok (.scalar e) d => .ok e d
  | .ok (.submessage name payload) d =>
    let run := fill σ (σ.type name) (σ.type name).empty (d.child payload)
    let d := { d with log := run.cursor.log }
    match run.outcome with
    | .error e => .error e d
    | .ok () => .ok (.message run.message) d

/-- A message after the value of one of its fields has been read. A number that the type lacks
reads nothing. -/
def Scan.merge (σ : Schema) (t : MessageType) (m : Message) (number : Nat) : Scan Message :=
  match t.field? number with
  | none => return m
  | some f => do
    let e ← Scan.element σ f.kind
    return t.put m number e

/-- Reading a payload from its start. -/
def Schema.run (σ : Schema) (t : MessageType) (limits : Limits) (bytes : List UInt8) : Run :=
  fill σ t t.empty (.start limits bytes)

/-- The message that a whole payload denotes. -/
def Schema.decode (σ : Schema) (t : MessageType) (limits : Limits) (bytes : List UInt8) :
    Except Fault Message :=
  let run := σ.run t limits bytes
  run.outcome.map fun _ => run.message

end SchemaCodec
