import Mathlib
import SchemaCodec.Proofs.Wire.Numeral
import SchemaCodec.Wire.Format

/-!
# Proofs.Wire.Record — what a payload is made of

A payload is a sequence of records, and where a record ends does not depend on any schema. This
module defines:

- `FlatValue`: a whole value of a wire type that is no group.
- `GroupBody`: what follows the start of a group, up to the key that ends it.
- `WireValue`: a whole value of any wire type.
- `Record`: a key and the value that it announces.
- `Record.numbered`: the records with a field number.
- `Numeral.IsEndMarker`: the keys that end a message instead of starting a record.
- `EndsMessage`: what may follow the last record of a message.

All of them carry their spelling: two records with different padding are different records.
-/

namespace SchemaCodec

/-! ## Wire types -/

namespace WireType

theorem ofRaw_raw (w : WireType) (position : Nat) : ofRaw w.raw position = .ok w := by
  cases w <;> rfl

theorem raw_of_ofRaw {raw position : Nat} {w : WireType} (h : ofRaw raw position = .ok w) :
    raw = w.raw := by
  unfold ofRaw at h
  split at h <;> cases h <;> rfl

theorem raw_injective : Function.Injective raw := by
  intro v w h
  have hv := ofRaw_raw v 0
  rw [h, ofRaw_raw] at hv
  exact (Except.ok.inj hv).symm

end WireType

/-! ## Values -/

/-- A whole value that is no group. There is none for the end of a group. -/
inductive FlatValue : WireType → Type where
  | varint (n : Numeral) : FlatValue .varint
  | fixed64 (bytes : List UInt8) (h : bytes.length = 8) : FlatValue .fixed64
  | lengthDelimited (count : Numeral) (payload : List UInt8) (h : payload.length = count.value) :
      FlatValue .lengthDelimited
  | fixed32 (bytes : List UInt8) (h : bytes.length = 4) : FlatValue .fixed32

def FlatValue.bytes {w : WireType} : FlatValue w → List UInt8
  | .varint n => n.bytes
  | .fixed64 bytes _ => bytes
  | .lengthDelimited count payload _ => count.bytes ++ payload
  | .fixed32 bytes _ => bytes

theorem FlatValue.wire_ne_startGroup {w : WireType} (v : FlatValue w) : w ≠ .startGroup := by
  rintro rfl
  cases v

/-- What follows the start of a group: keys with their values up to a key that ends a group, of
any number. Inside a group a zero key is a key like all others. -/
inductive GroupBody where
  | close (key : Numeral) (h : key.low % 8 = WireType.endGroup.raw)
  | flat {w : WireType} (key : Numeral) (h : key.low % 8 = w.raw) (v : FlatValue w)
      (rest : GroupBody)
  | group (key : Numeral) (h : key.low % 8 = WireType.startGroup.raw) (inner rest : GroupBody)

namespace GroupBody

def bytes : GroupBody → List UInt8
  | .close key _ => key.bytes
  | .flat key _ v rest => key.bytes ++ v.bytes ++ rest.bytes
  | .group key _ inner rest => key.bytes ++ inner.bytes ++ rest.bytes

/-- How many groups are open at once inside a group. -/
def nesting : GroupBody → Nat
  | .close _ _ => 0
  | .flat _ _ _ rest => rest.nesting
  | .group _ _ inner rest => max (inner.nesting + 1) rest.nesting

end GroupBody

/-- A whole value of a wire type. -/
inductive WireValue : WireType → Type where
  | flat {w : WireType} (v : FlatValue w) : WireValue w
  | group (body : GroupBody) : WireValue .startGroup

namespace WireValue

def bytes {w : WireType} : WireValue w → List UInt8
  | .flat v => v.bytes
  | .group body => body.bytes

/-- How many groups of a value are open at once. -/
def nesting {w : WireType} : WireValue w → Nat
  | .flat _ => 0
  | .group body => body.nesting + 1

theorem wire_ne_endGroup {w : WireType} (v : WireValue w) : w ≠ .endGroup := by
  rintro rfl
  cases v with
  | flat v => cases v

end WireValue

/-! ## Records -/

/-- A key that ends the message it stands in: its low 32 bits are zero, or it would end a group. -/
def Numeral.IsEndMarker (key : Numeral) : Prop :=
  key.low = 0 ∨ key.low % 8 = WireType.endGroup.raw

/-- A complete record: a key that ends nothing, and a whole value of its wire type. -/
structure Record where
  key : Numeral
  wire : WireType
  value : WireValue wire
  wire_eq : key.low % 8 = wire.raw
  key_ne_zero : key.low ≠ 0

namespace Record

/-- The field number of a record. -/
def number (r : Record) : Nat :=
  r.key.low / 8

def bytes (r : Record) : List UInt8 :=
  r.key.bytes ++ r.value.bytes

/-- How many groups of a record are open at once. -/
def nesting (r : Record) : Nat :=
  r.value.nesting

/-- The bytes of records one after the other. -/
def concat (rs : List Record) : List UInt8 :=
  rs.flatMap bytes

@[simp] theorem concat_nil : concat [] = [] := rfl

@[simp] theorem concat_cons (r : Record) (rs : List Record) :
    concat (r :: rs) = r.bytes ++ concat rs := rfl

@[simp] theorem concat_append (rs qs : List Record) :
    concat (rs ++ qs) = concat rs ++ concat qs :=
  List.flatMap_append

theorem length_pos (r : Record) : 0 < r.bytes.length := by
  have := r.key.length_pos
  simp only [bytes, List.length_append]
  omega

/-- No value ends a group, so the key of a record is no end marker. -/
theorem not_isEndMarker (r : Record) : ¬ r.key.IsEndMarker := by
  rintro (hzero | hend)
  · exact r.key_ne_zero hzero
  · exact r.value.wire_ne_endGroup (WireType.raw_injective (r.wire_eq.symm.trans hend))

/-! ### Records of one field -/

/-- The records with a field number. -/
def numbered (number : Nat) (rs : List Record) : List Record :=
  rs.filter fun r => r.number == number

theorem numbered_eq_self {number : Nat} {rs : List Record}
    (h : ∀ r ∈ rs, r.number = number) : numbered number rs = rs := by
  refine List.filter_eq_self.2 ?_
  intro r hr
  rw [h r hr, beq_self_eq_true]

theorem numbered_eq_nil {number : Nat} {rs : List Record}
    (h : ∀ r ∈ rs, r.number ≠ number) : numbered number rs = [] := by
  refine List.filter_eq_nil_iff.2 ?_
  intro r hr
  simpa using h r hr

theorem numbered_cons_self (r : Record) (rs : List Record) :
    numbered r.number (r :: rs) = r :: numbered r.number rs := by
  simp [numbered]

theorem numbered_cons_of_ne {r : Record} {number : Nat} (h : r.number ≠ number)
    (rs : List Record) : numbered number (r :: rs) = numbered number rs := by
  simp [numbered, h]

theorem numbered_append (number : Nat) (rs qs : List Record) :
    numbered number (rs ++ qs) = numbered number rs ++ numbered number qs :=
  List.filter_append _ _

end Record

/-- What may follow the last record of a message: nothing, or an end marker and anything. -/
def EndsMessage (tail : List UInt8) : Prop :=
  tail = [] ∨ ∃ (marker : Numeral) (rest : List UInt8),
    marker.IsEndMarker ∧ tail = marker.bytes ++ rest

end SchemaCodec
