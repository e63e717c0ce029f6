import Mathlib
import SchemaCodec.Proofs.Wire.Filling

/-!
# Proofs.Wire.Grammar — the payloads that are read

- `Language`: the payloads of a type at a depth, given by rules on bytes.
- `Record.Merges`: a record that can be merged into any message of a type.

`Schema.decode_iff_language` says that a payload is read exactly if the rules produce it. The rules
know nothing of cursors, and what is read from a payload does not occur in them.
-/

namespace SchemaCodec

/-! ## The rules -/

/-- A key starts the record of a field: it is not zero, and has the number and the wire type of
the field. -/
structure Numeral.Announces (key : Numeral) (t : MessageType) (f : Field) : Prop where
  ne_zero : key.low ≠ 0
  field : t.field? (key.low / 8) = some f
  wire : key.low % 8 = f.wireType.raw

namespace Numeral.Announces

variable {key : Numeral} {t : MessageType} {f : Field}

theorem number_eq (h : key.Announces t f) : key.low / 8 = f.number := by
  have hfind := List.find?_some h.field
  exact (beq_iff_eq.1 hfind).symm

/-- The record of a field with a value. -/
def record (h : key.Announces t f) {w : WireType} (hw : f.kind.wireType = w) (v : WireValue w) :
    Record :=
  ⟨key, w, v, hw ▸ h.wire, h.ne_zero⟩

end Numeral.Announces

/-- The payloads of a type at a depth. A message is a sequence of records up to the end of its
bytes or an end marker; behind an end marker anything may stand. -/
inductive Language (σ : Schema) (limits : Limits) : MessageType → Nat → List UInt8 → Prop where
  | done {t : MessageType} {d : Nat} : Language σ limits t d []
  | marker {t : MessageType} {d : Nat} (key : Numeral) (hkey : key.IsEndMarker)
      (s : List UInt8) : Language σ limits t d (key.bytes ++ s)
  /-- a record that is not the type's own: groups may be open up to the limit -/
  | foreign {t : MessageType} {d : Nat} {s : List UInt8} (r : Record)
      (hforeign : t.Foreign r.number r.wire)
      (hopen : r.nesting = 0 ∨ d + r.nesting ≤ limits.recursion)
      (hs : Language σ limits t d s) : Language σ limits t d (r.bytes ++ s)
  /-- a number, in the accepted range if it is unsigned -/
  | number {t : MessageType} {d : Nat} {s : List UInt8} {f : Field} (key n : Numeral)
      (hkey : key.Announces t f) (hwire : f.wireType = .varint)
      (hrange : f.kind = .uint64 → limits.range.accepts (.ofNat n.value) = true)
      (hs : Language σ limits t d s) : Language σ limits t d (key.bytes ++ n.bytes ++ s)
  /-- a text of UTF-8 behind its length -/
  | text {t : MessageType} {d : Nat} {s : List UInt8} {f : Field} (key count : Numeral)
      (payload : List UInt8) (hkey : key.Announces t f) (hkind : f.kind = .string)
      (hlen : payload.length = count.value) (hutf8 : (Text.ofUtf8? payload).isSome = true)
      (hs : Language σ limits t d s) :
      Language σ limits t d (key.bytes ++ (count.bytes ++ payload) ++ s)
  /-- a payload of another type behind its length, one level deeper -/
  | submessage {t : MessageType} {d : Nat} {s : List UInt8} {f : Field} {name : String}
      (key count : Numeral) (payload : List UInt8) (hkey : key.Announces t f)
      (hkind : f.kind = .message name) (hlen : payload.length = count.value)
      (hdepth : d + 1 ≤ limits.recursion)
      (hpayload : Language σ limits (σ.type name) (d + 1) payload)
      (hs : Language σ limits t d s) :
      Language σ limits t d (key.bytes ++ (count.bytes ++ payload) ++ s)

/-! ## Values that are read -/

namespace WireValue

variable {σ : Schema} {limits : Limits} {d : Nat} {path : FieldPath} {kind : Kind}

theorem exists_read_varint_iff {n : Numeral} (hw : kind.wireType = .varint) :
    (∃ x, (WireValue.flat (.varint n)).read σ limits d path kind hw = .ok x) ↔
      (kind = .uint64 → limits.range.accepts (.ofNat n.value) = true) := by
  cases kind with
  | string => cases hw
  | message name => cases hw
  | uint64 =>
    by_cases h : limits.range.accepts (.ofNat n.value) = true
    · simp [read, frame, h]
    · simp [read, frame, h]
  | _ => simp [read, frame]

theorem exists_read_lengthDelimited_iff {count : Numeral} {payload : List UInt8}
    {h : payload.length = count.value} (hw : kind.wireType = .lengthDelimited) :
    (∃ x, (WireValue.flat (.lengthDelimited count payload h)).read σ limits d path kind hw =
        .ok x) ↔
      (kind = .string ∧ (Text.ofUtf8? payload).isSome = true) ∨
      ∃ name, kind = .message name ∧ d + 1 ≤ limits.recursion ∧
        ∃ m, σ.decodeAt (σ.type name) limits (d + 1) payload = .ok m := by
  cases kind with
  | string =>
    cases htext : Text.ofUtf8? payload with
    | some s => simp [read, frame, htext]
    | none => simp [read, frame, htext]
  | message name =>
    by_cases hdepth : d + 1 ≤ limits.recursion
    · simp [read, frame, hdepth, map_eq_ok_iff]
    · simp [read, frame, hdepth]
  | _ => cases hw

/-- A value that a field can have is a number or bytes behind their length. -/
theorem cases_of_kind {w : WireType} (v : WireValue w) (hw : kind.wireType = w) :
    (∃ (n : Numeral) (h : w = .varint), v = h ▸ .flat (.varint n)) ∨
    ∃ (count : Numeral) (payload : List UInt8) (hlen : payload.length = count.value)
      (h : w = .lengthDelimited), v = h ▸ .flat (.lengthDelimited count payload hlen) := by
  match kind, w, v, hw with
  | .string, _, .flat (.lengthDelimited count payload h), _ =>
    exact .inr ⟨count, payload, h, rfl, rfl⟩
  | .message _, _, .flat (.lengthDelimited count payload h), _ =>
    exact .inr ⟨count, payload, h, rfl, rfl⟩
  | .bool, _, .flat (.varint n), _ => exact .inl ⟨n, rfl, rfl⟩
  | .int32, _, .flat (.varint n), _ => exact .inl ⟨n, rfl, rfl⟩
  | .uint64, _, .flat (.varint n), _ => exact .inl ⟨n, rfl, rfl⟩
  | .enum _, _, .flat (.varint n), _ => exact .inl ⟨n, rfl, rfl⟩

end WireValue

/-! ## Records that merge -/

namespace Record

variable {σ : Schema} {t : MessageType} {limits : Limits} {d : Nat}

/-- A record can be merged into any message of a type at a depth. -/
def Merges (σ : Schema) (t : MessageType) (limits : Limits) (d : Nat) (r : Record) : Prop :=
  ∀ m, ∃ m', r.mergeInto σ t limits d m = .ok m'

theorem merges_of_foreign {r : Record} (h : t.Foreign r.number r.wire) :
    r.Merges σ t limits d ↔ r.nesting ≤ limits.room d := by
  unfold Merges
  constructor
  · intro hmerges
    obtain ⟨m', hm⟩ := hmerges t.empty
    rw [mergeInto_of_foreign h] at hm
    by_contra hdeep
    rw [if_neg hdeep] at hm
    cases hm
  · intro hfits m
    rw [mergeInto_of_foreign h, if_pos hfits]
    exact ⟨m, rfl⟩

theorem merges_of_field {r : Record} {f : Field} (hfield : t.field? r.number = some f)
    (hwire : f.kind.wireType = r.wire) :
    r.Merges σ t limits d ↔
      ∃ x, r.value.read σ limits d ⟨t.name, f.jsonName⟩ f.kind hwire = .ok x := by
  unfold Merges
  constructor
  · intro hmerges
    obtain ⟨m', hm⟩ := hmerges t.empty
    rw [mergeInto_of_field hfield hwire] at hm
    obtain ⟨x, hx, -⟩ := map_eq_ok_iff.1 hm
    exact ⟨x, hx⟩
  · rintro ⟨x, hx⟩ m
    rw [mergeInto_of_field hfield hwire, hx]
    exact ⟨_, rfl⟩

/-- Whether a record merges does not depend on the message. -/
theorem merges_of_ok {r : Record} {m m' : Message} (h : r.mergeInto σ t limits d m = .ok m') :
    r.Merges σ t limits d := by
  by_cases hforeign : t.Foreign r.number r.wire
  · rw [merges_of_foreign hforeign]
    by_contra hdeep
    rw [mergeInto_of_foreign hforeign, if_neg hdeep] at h
    cases h
  · obtain ⟨f, hfield, hwire⟩ := MessageType.exists_field_of_not_foreign hforeign
    rw [merges_of_field hfield hwire]
    rw [mergeInto_of_field hfield hwire] at h
    obtain ⟨x, hx, -⟩ := map_eq_ok_iff.1 h
    exact ⟨x, hx⟩

theorem exists_foldlM_iff {rs : List Record} {m : Message} :
    (∃ m', rs.foldlM (mergeInto σ t limits d) m = .ok m') ↔
      ∀ r ∈ rs, r.Merges σ t limits d := by
  induction rs generalizing m with
  | nil => exact ⟨fun _ r hr => absurd hr List.not_mem_nil, fun _ => ⟨m, rfl⟩⟩
  | cons r rs ih =>
    rw [List.forall_mem_cons]
    constructor
    · rintro ⟨m', hm⟩
      rw [List.foldlM_cons] at hm
      cases hr : r.mergeInto σ t limits d m with
      | error e =>
        rw [hr] at hm
        cases hm
      | ok m₁ =>
        rw [hr] at hm
        exact ⟨merges_of_ok hr, (ih (m := m₁)).1 ⟨m', hm⟩⟩
    · rintro ⟨hr, hrs⟩
      obtain ⟨m₁, hm₁⟩ := hr m
      obtain ⟨m', hm'⟩ := (ih (m := m₁)).2 hrs
      refine ⟨m', ?_⟩
      rw [List.foldlM_cons, hm₁]
      exact hm'

end Record

/-- A payload is read exactly if it is made of records that merge, up to the end of the message. -/
theorem Schema.exists_decodeAt_iff {σ : Schema} {t : MessageType} {limits : Limits} {d : Nat}
    {b : List UInt8} :
    (∃ m, σ.decodeAt t limits d b = .ok m) ↔
      ∃ rs s, b = Record.concat rs ++ s ∧ EndsMessage s ∧ ∀ r ∈ rs, r.Merges σ t limits d := by
  constructor
  · rintro ⟨m, hm⟩
    obtain ⟨rs, s, hb, hs, hfold⟩ := fill_result_eq_ok_iff.1 hm
    exact ⟨rs, s, hb, hs, Record.exists_foldlM_iff.1 ⟨m, hfold⟩⟩
  · rintro ⟨rs, s, hb, hs, hrs⟩
    obtain ⟨m, hfold⟩ := Record.exists_foldlM_iff.2 hrs
    exact ⟨m, fill_result_eq_ok_iff.2 ⟨rs, s, hb, hs, hfold⟩⟩

/-- One more record that merges in front of a payload that is read. -/
theorem Schema.exists_decodeAt_cons {σ : Schema} {t : MessageType} {limits : Limits} {d : Nat}
    {s : List UInt8} {r : Record} (hr : r.Merges σ t limits d)
    (h : ∃ m, σ.decodeAt t limits d s = .ok m) :
    ∃ m, σ.decodeAt t limits d (r.bytes ++ s) = .ok m := by
  rw [exists_decodeAt_iff] at h ⊢
  obtain ⟨rs, s', rfl, hs, hrs⟩ := h
  exact ⟨r :: rs, s', by simp, hs, List.forall_mem_cons.2 ⟨hr, hrs⟩⟩

/-! ## Both directions -/

section Directions

variable {σ : Schema} {limits : Limits}

/-- A record of a field in front of a payload that the rules produce. -/
theorem Language.of_merges {t : MessageType} {d : Nat} {s : List UInt8} {r : Record}
    (hr : r.Merges σ t limits d)
    (hinner : ∀ name payload, payload.length < r.bytes.length →
      (∃ m, σ.decodeAt (σ.type name) limits (d + 1) payload = .ok m) →
      Language σ limits (σ.type name) (d + 1) payload)
    (hs : Language σ limits t d s) : Language σ limits t d (r.bytes ++ s) := by
  by_cases hforeign : t.Foreign r.number r.wire
  · refine .foreign r hforeign ?_ hs
    have hfits := (Record.merges_of_foreign hforeign).1 hr
    simp only [Limits.room] at hfits
    omega
  · obtain ⟨f, hfield, hwire⟩ := MessageType.exists_field_of_not_foreign hforeign
    have hread := (Record.merges_of_field hfield hwire).1 hr
    have hkey : r.key.Announces t f := ⟨r.key_ne_zero, hfield, hwire ▸ r.wire_eq⟩
    -- The record is taken apart, so that the form of its value decides its wire type.
    obtain ⟨key, w, v, hw, hzero⟩ := r
    dsimp only at *
    rcases v.cases_of_kind hwire with ⟨n, rfl, rfl⟩ | ⟨count, payload, hlen, rfl, rfl⟩
    · exact .number key n hkey hwire ((WireValue.exists_read_varint_iff hwire).1 hread) hs
    · rcases (WireValue.exists_read_lengthDelimited_iff hwire).1 hread with
        ⟨hkind, hutf8⟩ | ⟨name, hkind, hdepth, hpayload⟩
      · exact .text key count payload hkey hkind hlen hutf8 hs
      · refine .submessage key count payload hkey hkind hlen hdepth ?_ hs
        refine hinner name payload ?_ hpayload
        have := key.length_pos
        simp only [Record.bytes, WireValue.bytes, FlatValue.bytes, List.length_append]
        omega

/-- What is read is produced by the rules. -/
theorem language_of_decodeAt {t : MessageType} {d : Nat} {b : List UInt8}
    (h : ∃ m, σ.decodeAt t limits d b = .ok m) : Language σ limits t d b := by
  -- The payload of a submessage is shorter than the payload that it stands in.
  induction hn : b.length using Nat.strong_induction_on generalizing t d b with
  | _ n ih =>
    obtain ⟨rs, s, rfl, hs, hrs⟩ := Schema.exists_decodeAt_iff.1 h
    have hle : (Record.concat rs).length ≤ n := by
      rw [← hn, List.length_append]
      omega
    clear h hn
    induction rs with
    | nil =>
      rcases hs with rfl | ⟨marker, rest, hmarker, rfl⟩
      · exact .done
      · exact .marker marker hmarker rest
    | cons r rs ihRecords =>
      rw [Record.concat_cons, List.length_append] at hle
      rw [Record.concat_cons, List.append_assoc]
      obtain ⟨hr, hrs⟩ := List.forall_mem_cons.1 hrs
      refine .of_merges hr ?_ (ihRecords hrs (by omega))
      intro name payload hlt hpayload
      exact ih payload.length (by omega) hpayload rfl

/-- What the rules produce is read. -/
theorem Language.exists_decodeAt {t : MessageType} {d : Nat} {b : List UInt8}
    (h : Language σ limits t d b) : ∃ m, σ.decodeAt t limits d b = .ok m := by
  induction h with
  | done => exact Schema.exists_decodeAt_iff.2 ⟨[], [], rfl, .inl rfl, by simp⟩
  | marker key hkey s =>
    exact Schema.exists_decodeAt_iff.2 ⟨[], _, rfl, .inr ⟨key, s, hkey, rfl⟩, by simp⟩
  | foreign r hforeign hopen hs ih =>
    refine Schema.exists_decodeAt_cons ?_ ih
    rw [Record.merges_of_foreign hforeign, Limits.room]
    omega
  | number key n hkey hwire hrange hs ih =>
    let r : Record := hkey.record hwire (.flat (.varint n))
    refine Schema.exists_decodeAt_cons (r := r) ?_ ih
    rw [Record.merges_of_field (r := r) hkey.field hwire]
    exact (WireValue.exists_read_varint_iff hwire).2 hrange
  | @text t d s f key count payload hkey hkind hlen hutf8 hs ih =>
    have hwire : f.wireType = .lengthDelimited := by simp [Field.wireType, Kind.wireType, hkind]
    let r : Record := hkey.record hwire (.flat (.lengthDelimited count payload hlen))
    refine Schema.exists_decodeAt_cons (r := r) ?_ ih
    rw [Record.merges_of_field (r := r) hkey.field hwire]
    exact (WireValue.exists_read_lengthDelimited_iff hwire).2 (.inl ⟨hkind, hutf8⟩)
  | @submessage t d s f name key count payload hkey hkind hlen hdepth hpayload hs ihPayload ih =>
    have hwire : f.wireType = .lengthDelimited := by simp [Field.wireType, Kind.wireType, hkind]
    let r : Record := hkey.record hwire (.flat (.lengthDelimited count payload hlen))
    refine Schema.exists_decodeAt_cons (r := r) ?_ ih
    rw [Record.merges_of_field (r := r) hkey.field hwire]
    exact (WireValue.exists_read_lengthDelimited_iff hwire).2
      (.inr ⟨name, hkind, hdepth, ihPayload⟩)

end Directions

/-- The reader accepts exactly the payloads that the rules produce. -/
theorem Schema.decode_iff_language (σ : Schema) (t : MessageType) (limits : Limits)
    (b : List UInt8) : (∃ m, σ.decode t limits b = .ok m) ↔ Language σ limits t 0 b := by
  simp only [decode_eq_decodeAt]
  exact ⟨language_of_decodeAt, Language.exists_decodeAt⟩

end SchemaCodec
