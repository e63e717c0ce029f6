import Mathlib
import SchemaCodec.Proofs.Outcome
import SchemaCodec.Proofs.Wire.Labels

/-!
# Proofs.Wire.Reading — fields from values

- `Schema.decodeAt`: the message that a payload denotes at a depth.
- `WireValue.frame`, `WireValue.read`: what a field takes from a whole value of its wire type.

`Scan.frame` and `Scan.tag` have both directions: on a whole value they do what the functions above
say (`WireValue.frame_ok`, `WireValue.frame_error`, `Scan.tag_record`), and what they pass is whole
(`Scan.exists_value_of_frame`, `Scan.exists_record`).
-/

namespace SchemaCodec

/-! ## Reading at a depth -/

/-- The message that a run leaves, or the fault that stopped it. -/
def Run.result (r : Run) : Except Fault Message :=
  r.outcome.map fun _ => r.message

/-- The message that the payload of a submessage denotes, at the depth of that submessage. -/
def Schema.decodeAt (σ : Schema) (t : MessageType) (limits : Limits) (depth : Nat)
    (bytes : List UInt8) : Except Fault Message :=
  (fill σ t t.empty { rest := bytes, limits := limits, depth := depth }).result

theorem Schema.decode_eq_decodeAt (σ : Schema) (t : MessageType) (limits : Limits)
    (bytes : List UInt8) : σ.decode t limits bytes = σ.decodeAt t limits 0 bytes := rfl

theorem Run.Agrees.result {r r' : Run} (h : r.Agrees r') : r.result = r'.result := by
  rw [Run.result, Run.result, h.message, h.outcome]

/-! ## Values -/

namespace WireValue

/-- What a field of a kind cuts out of a whole value of its wire type. -/
def frame (limits : Limits) (depth : Nat) (path : FieldPath) :
    (kind : Kind) → {w : WireType} → WireValue w → kind.wireType = w → Except Fault Frame
  | .string, _, .flat (.lengthDelimited _ payload _), _ =>
    match Text.ofUtf8? payload with
    | some s => .ok (.scalar (.string s))
    | none => .error (.invalidUtf8 path)
  | .bool, _, .flat (.varint n), _ => .ok (.scalar (.bool (UInt64.ofNat n.value != 0)))
  | .int32, _, .flat (.varint n), _ =>
    .ok (.scalar (.int32 (UInt64.ofNat n.value).toUInt32.toInt32))
  | .uint64, _, .flat (.varint n), _ =>
    if limits.range.accepts (.ofNat n.value) then .ok (.scalar (.uint64 (.ofNat n.value)))
    else .error (.rangeOverflow path (.ofNat n.value))
  | .enum _, _, .flat (.varint n), _ =>
    .ok (.scalar (.enum (UInt64.ofNat n.value).toUInt32.toInt32))
  | .message name, _, .flat (.lengthDelimited _ payload _), _ =>
    if depth + 1 ≤ limits.recursion then .ok (.submessage name payload)
    else .error (.recursionLimit limits.recursion)

/-- What a field of a kind takes from a whole value of its wire type. -/
def read (σ : Schema) (limits : Limits) (depth : Nat) (path : FieldPath) (kind : Kind)
    {w : WireType} (v : WireValue w) (h : kind.wireType = w) : Except Fault Element :=
  match v.frame limits depth path kind h with
  | .error e => .error e
  | .ok (.scalar e) => .ok e
  | .ok (.submessage name payload) =>
    (σ.decodeAt (σ.type name) limits (depth + 1) payload).map .message

section Read

variable {σ : Schema} {limits : Limits} {depth : Nat} {path : FieldPath} {kind : Kind}
  {w : WireType} {v : WireValue w} {hw : kind.wireType = w}

theorem read_of_error {e : Fault} (h : v.frame limits depth path kind hw = .error e) :
    v.read σ limits depth path kind hw = .error e := by
  simp only [read, h]

theorem read_of_scalar {x : Element}
    (h : v.frame limits depth path kind hw = .ok (.scalar x)) :
    v.read σ limits depth path kind hw = .ok x := by
  simp only [read, h]

theorem read_of_submessage {name : String} {payload : List UInt8}
    (h : v.frame limits depth path kind hw = .ok (.submessage name payload)) :
    v.read σ limits depth path kind hw =
      (σ.decodeAt (σ.type name) limits (depth + 1) payload).map .message := by
  simp only [read, h]

end Read

section ReadKind

variable (σ : Schema) (limits : Limits) (depth : Nat) (path : FieldPath) (n count : Numeral)
  {payload : List UInt8} (h : payload.length = count.value)

theorem read_bool : (flat (.varint n)).read σ limits depth path .bool rfl =
    .ok (.bool (UInt64.ofNat n.value != 0)) := rfl

theorem read_int32 : (flat (.varint n)).read σ limits depth path .int32 rfl =
    .ok (.int32 (UInt64.ofNat n.value).toUInt32.toInt32) := rfl

theorem read_enum (type : EnumType) :
    (flat (.varint n)).read σ limits depth path (.enum type) rfl =
      .ok (.enum (UInt64.ofNat n.value).toUInt32.toInt32) := rfl

theorem read_uint64 : (flat (.varint n)).read σ limits depth path .uint64 rfl =
    if limits.range.accepts (.ofNat n.value) then .ok (.uint64 (.ofNat n.value))
    else .error (.rangeOverflow path (.ofNat n.value)) := by
  split
  next hrange => exact read_of_scalar (if_pos hrange)
  next hrange => exact read_of_error (if_neg hrange)

theorem read_string :
    (flat (.lengthDelimited count payload h)).read σ limits depth path .string rfl =
      match Text.ofUtf8? payload with
      | some s => .ok (.string s)
      | none => .error (.invalidUtf8 path) := by
  cases hutf8 : Text.ofUtf8? payload with
  | some s => simp [read, frame, hutf8]
  | none => simp [read, frame, hutf8]

theorem read_message (name : String) :
    (flat (.lengthDelimited count payload h)).read σ limits depth path (.message name) rfl =
      if depth + 1 ≤ limits.recursion then
        (σ.decodeAt (σ.type name) limits (depth + 1) payload).map .message
      else .error (.recursionLimit limits.recursion) := by
  split
  next hdepth => exact read_of_submessage (if_pos hdepth)
  next hdepth => exact read_of_error (if_neg hdepth)

end ReadKind

variable {kind : Kind} {w : WireType} {c : Cursor} {s : List UInt8}

open Scan

theorem frame_ok (v : WireValue w) (hw : kind.wireType = w) (h : c.rest = v.bytes ++ s)
    {x : Frame} (hv : v.frame c.limits c.depth c.path kind hw = .ok x) :
    Scan.frame kind c = .ok x (c.moveTo s) := by
  -- The wire type of a kind leaves one form of value for each kind.
  match kind, w, v, hw with
  | .string, _, .flat (.lengthDelimited count payload hlen), _ =>
    simp only [frame] at hv
    split at hv
    next text hutf8 =>
      cases hv
      exact bind_of_ok (string_of_utf8 hlen h hutf8)
    next => cases hv
  | .bool, _, .flat (.varint n), _ =>
    cases hv
    exact ((reads_varint n).map _).map _ c s h
  | .int32, _, .flat (.varint n), _ =>
    cases hv
    exact ((reads_varint n).map _).map _ c s h
  | .uint64, _, .flat (.varint n), _ =>
    simp only [frame] at hv
    split at hv
    next hrange =>
      cases hv
      exact bind_of_ok (uint64_of_accepts n h hrange)
    next => cases hv
  | .enum _, _, .flat (.varint n), _ =>
    cases hv
    exact ((reads_varint n).map _).map _ c s h
  | .message name, _, .flat (.lengthDelimited count payload hlen), _ =>
    simp only [frame] at hv
    split at hv
    next hopen =>
      cases hv
      have hmay : c.mayOpen 0 = true := by simpa [Cursor.mayOpen] using hopen
      exact (if_pos hmay).trans ((reads_bytes hlen).map _ c s h)
    next => cases hv

theorem frame_error (v : WireValue w) (hw : kind.wireType = w) (h : c.rest = v.bytes ++ s)
    {e : Fault} (hv : v.frame c.limits c.depth c.path kind hw = .error e) :
    ∃ d, Scan.frame kind c = .error e d := by
  match kind, w, v, hw with
  | .string, _, .flat (.lengthDelimited count payload hlen), _ =>
    simp only [frame] at hv
    split at hv
    next => cases hv
    next hutf8 =>
      cases hv
      exact ⟨_, bind_of_error (string_of_not_utf8 hlen h hutf8)⟩
  | .bool, _, .flat (.varint n), _ => cases hv
  | .int32, _, .flat (.varint n), _ => cases hv
  | .uint64, _, .flat (.varint n), _ =>
    simp only [frame] at hv
    split at hv
    next => cases hv
    next hrange =>
      cases hv
      exact ⟨_, bind_of_error (uint64_of_not_accepts n h hrange)⟩
  | .enum _, _, .flat (.varint n), _ => cases hv
  | .message name, _, .flat (.lengthDelimited count payload hlen), _ =>
    simp only [frame] at hv
    split at hv
    next => cases hv
    next hopen =>
      cases hv
      have hmay : ¬ c.mayOpen 0 = true := by simpa [Cursor.mayOpen] using hopen
      exact ⟨_, if_neg hmay⟩

end WireValue

/-! ## Tags -/

namespace Scan

variable {c c' : Cursor} {s : List UInt8}

theorem tag_recordKey (r : Record) (h : c.rest = r.key.bytes ++ s) :
    tag c = .ok (.field r.number r.wire) (c.moveTo s) := by
  have hk := reads_key r.key c s h
  unfold tag
  rw [hk]
  dsimp only
  refine (if_neg r.not_isEndMarker).trans ?_
  rw [r.wire_eq, WireType.ofRaw_raw]
  rfl

theorem tag_record (r : Record) (h : c.rest = r.bytes ++ s) :
    tag c = .ok (.field r.number r.wire) (c.moveTo (r.value.bytes ++ s)) :=
  tag_recordKey r (by simpa [Record.bytes] using h)

theorem tag_endMarker {key : Numeral} (hkey : key.IsEndMarker) (h : c.rest = key.bytes ++ s) :
    tag c = .ok .stop (c.moveTo s) := by
  unfold tag
  rw [reads_key key c s h]
  dsimp only
  exact if_pos hkey

theorem tag_stop (h : tag c = .ok .stop c') :
    ∃ key : Numeral, key.IsEndMarker ∧ c.rest = key.bytes ++ c'.rest := by
  unfold tag at h
  split at h
  next => cases h
  next hk =>
    obtain ⟨key, hrest, rfl⟩ := key_ok hk
    split at h
    next hmarker =>
      cases h
      exact ⟨key, hmarker, hrest⟩
    next => split at h <;> cases h

/-- The key of a record ends nothing, and its low bits are the wire type. -/
theorem tag_key {number : Nat} {w : WireType} (h : tag c = .ok (.field number w) c') :
    ∃ key : Numeral, ¬ key.IsEndMarker ∧ key.low / 8 = number ∧ key.low % 8 = w.raw ∧
      c.rest = key.bytes ++ c'.rest := by
  unfold tag at h
  split at h
  next => cases h
  next hk =>
    obtain ⟨key, hrest, rfl⟩ := key_ok hk
    split at h
    next => cases h
    next hmarker =>
      split at h
      next => cases h
      next hw =>
        cases h
        exact ⟨key, hmarker, rfl, WireType.raw_of_ofRaw hw, hrest⟩

theorem tag_field {number : Nat} {w : WireType} (h : tag c = .ok (.field number w) c') :
    ∃ key : Numeral, key.low ≠ 0 ∧ key.low % 8 = w.raw ∧ c.rest = key.bytes ++ c'.rest := by
  obtain ⟨key, hmarker, -, hw, hrest⟩ := tag_key h
  exact ⟨key, fun hzero => hmarker (.inl hzero), hw, hrest⟩

/-- A key that starts a record and a whole value behind it are that record. -/
theorem exists_record {number : Nat} {w : WireType} (h : tag c = .ok (.field number w) c')
    {v : WireValue w} (hv : c'.rest = v.bytes ++ s) :
    ∃ r : Record, c.rest = r.bytes ++ s := by
  obtain ⟨key, hzero, hw, hrest⟩ := tag_field h
  refine ⟨⟨key, w, v, hw, hzero⟩, ?_⟩
  rw [hrest, hv, Record.bytes, List.append_assoc]

theorem exists_value_of_map_varint {α : Type} {f : UInt64 → α} {a : α}
    (h : (do return f (← varint) : Scan α) c = .ok a c') :
    ∃ v : WireValue .varint, c.rest = v.bytes ++ c'.rest := by
  obtain ⟨n, hn⟩ := map_varint_ok h
  exact ⟨.flat (.varint n), hn⟩

/-- A frame that was cut out was a whole value. -/
theorem exists_value_of_frame {kind : Kind} {x : Frame} (h : frame kind c = .ok x c') :
    ∃ v : WireValue kind.wireType, c.rest = v.bytes ++ c'.rest := by
  cases kind with
  | string =>
    obtain ⟨_, _, hs, h⟩ := bind_eq_ok.1 h
    cases h
    obtain ⟨payload, d', hb, hs⟩ := bind_eq_ok.1 hs
    obtain ⟨count, hlen, hrest⟩ := bytes_ok hb
    split at hs
    next =>
      cases hs
      exact ⟨.flat (.lengthDelimited count payload hlen), hrest⟩
    next => cases hs
  | bool =>
    obtain ⟨_, _, hv, h⟩ := bind_eq_ok.1 h
    cases h
    exact exists_value_of_map_varint hv
  | int32 =>
    obtain ⟨_, _, hv, h⟩ := bind_eq_ok.1 h
    cases h
    exact exists_value_of_map_varint hv
  | uint64 =>
    obtain ⟨_, _, hu, h⟩ := bind_eq_ok.1 h
    cases h
    obtain ⟨v, d', hv, hu⟩ := bind_eq_ok.1 hu
    obtain ⟨n, hn⟩ := varint_ok hv
    split at hu
    next =>
      cases hu
      exact ⟨.flat (.varint n), hn⟩
    next => cases hu
  | «enum» type =>
    obtain ⟨_, _, hv, h⟩ := bind_eq_ok.1 h
    cases h
    exact exists_value_of_map_varint hv
  | message name =>
    simp only [frame] at h
    split at h
    next =>
      obtain ⟨payload, _, hb, h⟩ := bind_eq_ok.1 h
      cases h
      obtain ⟨count, hlen, hrest⟩ := bytes_ok hb
      exact ⟨.flat (.lengthDelimited count payload hlen), hrest⟩
    next => cases h

end Scan
end SchemaCodec
