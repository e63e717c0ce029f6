import SchemaCodec.Log
import SchemaCodec.Schema.Message
import SchemaCodec.Text.Utf8
import SchemaCodec.Wire.Varint

/-!
# Wire.Cursor — a place in a payload

- `Cursor`: the bytes still to be read, with what a reader has to know.
- `Scan`: a step that moves a cursor and gives a result, or fails where the cursor then stands.
- `Scan.varint`, `Scan.bytes`, `Scan.string`, …: the values that stand in a payload.
- `Scan.skip`: past a value of any wire type, groups included.
-/

namespace SchemaCodec

/-- A place in a payload. Position and depth count from the payload itself and from the outermost
message; the path is the field being read, for messages. -/
structure Cursor where
  rest : List UInt8
  position : Nat := 0
  limits : Limits := {}
  depth : Nat := 0
  path : FieldPath := ⟨"", ""⟩
  log : List Event := []
  deriving Repr

namespace Cursor

/-- The start of a payload. -/
def start (limits : Limits) (bytes : List UInt8) : Cursor where
  rest := bytes
  limits := limits

/-- The cursor after `n` more bytes. -/
def advance (c : Cursor) (n : Nat) : Cursor :=
  { c with rest := c.rest.drop n, position := c.position + n }

/-- The cursor where only `rest` is left. -/
def moveTo (c : Cursor) (rest : List UInt8) : Cursor :=
  { c with rest := rest, position := c.position + (c.rest.length - rest.length) }

/-- The cursor with a remark added to its log. -/
def note (c : Cursor) (e : Event) : Cursor :=
  { c with log := c.log ++ [e] }

/-- Whether one more message or group may be open, where `groups` groups are open already. -/
def mayOpen (c : Cursor) (groups : Nat) : Bool :=
  c.depth + groups + 1 ≤ c.limits.recursion

/-- The start of a submessage's payload, one level deeper. -/
def child (c : Cursor) (payload : List UInt8) : Cursor :=
  { c with rest := payload, position := 0, depth := c.depth + 1 }

end Cursor

/-- A step that moves a cursor. A failed step leaves the cursor where it failed. -/
abbrev Scan := EStateM Fault Cursor

namespace Scan

/-! ## Values -/

/-- A number of 64 bits. A failure does not move the cursor. -/
def varint : Scan UInt64 := fun c =>
  match Varint.decode? c.rest with
  | some (n, rest) => .ok (UInt64.ofNat n) (c.moveTo rest)
  | none => .error (Varint.fault c.rest c.position) c

/-- A key: the low 32 bits of a number. -/
def key : Scan Nat := do
  let v ← varint
  return v.toUInt32.toNat

/-- Any number but zero is true. -/
def bool : Scan Bool := do
  let v ← varint
  return v != 0

/-- The low 32 bits of a number, as a signed one. -/
def int32 : Scan Int32 := do
  let v ← varint
  return v.toUInt32.toInt32

/-- A number in the accepted range. One outside it has been read all the same. -/
def uint64 : Scan UInt64 := do
  let v ← varint
  fun c =>
    -- The cursor stays behind the number, also where the number is refused.
    if c.limits.range.accepts v then .ok v c else .error (.rangeOverflow c.path v) c

/-- The next `n` bytes. -/
def take (n : Nat) : Scan (List UInt8) := fun c =>
  if c.rest.length < n then .error (.bufferTooShort n c.rest.length c.position) c
  else .ok (c.rest.take n) (c.advance n)

/-- A count and that many bytes. A count beyond the payload leaves the cursor behind the count. -/
def bytes : Scan (List UInt8) := do
  let n ← varint
  take n.toNat

/-- A count and that many bytes of UTF-8. -/
def string : Scan String := do
  let payload ← bytes
  fun c =>
    match Text.ofUtf8? payload with
    | some s => .ok s c
    | none => .error (.invalidUtf8 c.path) c

/-! ## Progress -/

/-- Two steps succeed together exactly when the second succeeds where the first one ends. -/
theorem bind_eq_ok {α β : Type} {x : Scan α} {f : α → Scan β} {c c' : Cursor} {b : β} :
    (x >>= f) c = .ok b c' ↔ ∃ a d, x c = .ok a d ∧ f a d = .ok b c' := by
  change EStateM.bind x f c = _ ↔ _
  unfold EStateM.bind
  cases x c with
  | ok a d => simp [and_assoc]
  | error e d => simp

/-- Reading a number takes at least one byte. -/
theorem varint_length {c c' : Cursor} {v : UInt64} (h : varint c = .ok v c') :
    c'.rest.length < c.rest.length := by
  unfold varint at h
  split at h
  next n rest hd =>
    cases h
    exact Varint.decode?_length hd
  next => cases h

/-- A number read as something else takes at least one byte too. -/
theorem map_varint_length {α : Type} {f : UInt64 → α} {c c' : Cursor} {a : α}
    (h : (do return f (← varint) : Scan α) c = .ok a c') : c'.rest.length < c.rest.length := by
  obtain ⟨v, d, hv, h⟩ := bind_eq_ok.1 h
  cases h
  exact varint_length hv

/-- Reading a number in range takes at least one byte. -/
theorem uint64_length {c c' : Cursor} {v : UInt64} (h : uint64 c = .ok v c') :
    c'.rest.length < c.rest.length := by
  obtain ⟨v, d, hv, h⟩ := bind_eq_ok.1 h
  split at h
  · cases h
    exact varint_length hv
  · cases h

/-- Reading a key takes at least one byte. -/
theorem key_length {c c' : Cursor} {k : Nat} (h : key c = .ok k c') :
    c'.rest.length < c.rest.length := by
  obtain ⟨v, d, hv, hk⟩ := bind_eq_ok.1 h
  cases hk
  exact varint_length hv

/-- What is taken and what is left make up what there was. -/
theorem take_length {n : Nat} {c c' : Cursor} {payload : List UInt8}
    (h : take n c = .ok payload c') :
    payload.length + c'.rest.length = c.rest.length := by
  unfold take at h
  split at h
  · cases h
  · cases h
    simp only [Cursor.advance, List.length_take, List.length_drop]
    omega

/-- A counted payload is shorter than what there was, by the count at least. -/
theorem bytes_length {c c' : Cursor} {payload : List UInt8} (h : bytes c = .ok payload c') :
    payload.length + c'.rest.length < c.rest.length := by
  obtain ⟨v, d, hv, h⟩ := bind_eq_ok.1 h
  have := varint_length hv
  have := take_length h
  omega

/-- Reading a string takes at least one byte. -/
theorem string_length {c c' : Cursor} {s : String} (h : string c = .ok s c') :
    c'.rest.length < c.rest.length := by
  obtain ⟨payload, d, hb, h⟩ := bind_eq_ok.1 h
  split at h
  · cases h
    have := bytes_length hb
    omega
  · cases h

/-! ## Skipping -/

/-- Past a value that is no group. The end of a group is no value. -/
def skipFlat (w : WireType) : Scan Unit :=
  match w with
  | .varint => do
    let _ ← varint
  | .fixed64 => do
    let _ ← take 8
  | .lengthDelimited => do
    let _ ← bytes
  | .fixed32 => do
    let _ ← take 4
  -- Groups are left to `skip`; the end of one that was never opened is no value.
  | w => fun c => .error (.invalidWireType w.raw c.position) c

/-- Skipping a value never adds bytes. -/
theorem skipFlat_length {w : WireType} {c c' : Cursor} (h : skipFlat w c = .ok () c') :
    c'.rest.length ≤ c.rest.length := by
  cases w with
  | varint =>
    obtain ⟨_, _, hv, h⟩ := bind_eq_ok.1 h
    cases h
    exact Nat.le_of_lt (varint_length hv)
  | fixed64 =>
    obtain ⟨_, _, ht, h⟩ := bind_eq_ok.1 h
    cases h
    have := take_length ht
    omega
  | lengthDelimited =>
    obtain ⟨_, _, hb, h⟩ := bind_eq_ok.1 h
    cases h
    have := bytes_length hb
    omega
  | fixed32 =>
    obtain ⟨_, _, ht, h⟩ := bind_eq_ok.1 h
    cases h
    have := take_length ht
    omega
  | startGroup => cases h
  | endGroup => cases h

/-- Past the rest of groups, `opened` of them one inside the other, up to the key that ends the
outermost. Any end closes the innermost open group, whatever its number. -/
def skipGroups (opened : Nat) (c : Cursor) : EStateM.Result Fault Cursor Unit :=
  match opened with
  | 0 => .ok () c
  | outer + 1 =>
    match _hk : key c with
    | .error e d => .error e d
    | .ok k d =>
      match WireType.ofRaw (k % 8) c.position with
      | .error e => .error e d
      -- The number of the end is not compared with that of the start.
      | .ok .endGroup => skipGroups outer d
      | .ok .startGroup =>
        if d.mayOpen opened then skipGroups (opened + 1) d
        else .error (.recursionLimit d.limits.recursion) d
      | .ok w =>
        match _hs : skipFlat w d with
        | .error e d => .error e d
        | .ok () d' => skipGroups opened d'
  termination_by c.rest.length
  decreasing_by
    · exact key_length _hk
    · exact key_length _hk
    · exact Nat.lt_of_le_of_lt (skipFlat_length _hs) (key_length _hk)

/-- Past a value of a wire type. -/
def skip (w : WireType) : Scan Unit := fun c =>
  match w with
  | .startGroup =>
    if c.mayOpen 0 then skipGroups 1 c else .error (.recursionLimit c.limits.recursion) c
  | w => skipFlat w c

/-- Skipping groups never adds bytes. -/
theorem skipGroups_length {opened : Nat} {c c' : Cursor} (h : skipGroups opened c = .ok () c') :
    c'.rest.length ≤ c.rest.length := by
  fun_induction skipGroups opened c with
  | case1 c => cases h; exact Nat.le_refl _
  | case2 => cases h
  | case3 => cases h
  | case4 opened c k d hk _ ih => exact Nat.le_trans (ih h) (Nat.le_of_lt (key_length hk))
  | case5 opened c k d hk _ hopen ih =>
    rw [if_pos hopen] at h
    exact Nat.le_trans (ih h) (Nat.le_of_lt (key_length hk))
  | case6 opened c k d hk _ hopen =>
    rw [if_neg hopen] at h
    cases h
  | case7 => cases h
  | case8 opened c k d hk w _ _ _ d' hs ih =>
    exact Nat.le_trans (ih h) (Nat.le_trans (skipFlat_length hs) (Nat.le_of_lt (key_length hk)))

/-- Skipping a value never adds bytes, groups included. -/
theorem skip_length {w : WireType} {c c' : Cursor} (h : skip w c = .ok () c') :
    c'.rest.length ≤ c.rest.length := by
  unfold skip at h
  split at h
  · split at h
    · exact skipGroups_length h
    · cases h
  · exact skipFlat_length h

end Scan
end SchemaCodec
