import Mathlib
import SchemaCodec.Proofs.Wire.Alike
import SchemaCodec.Proofs.Wire.RoundTrip

/-!
# Proofs.Wire.Spelling — messages under other spellings

- `Kind.SameNumber`: two numbers that a field of a kind does not tell apart.
- `Schema.Respells`: a payload with each of its numbers spelled anew, at every depth.

A key is read by its low 32 bits, a length and an unsigned number by its value, a signed one by its
low 32 bits, and a truth value by being zero or not. So a payload that is respelled denotes the same
message (`Schema.Respells.alike`), and every spelling of an encoded message is read as that message
(`Catalog.decode_respelled`).
-/

namespace SchemaCodec

/-- Two numbers are the same to a field of a kind. -/
def Kind.SameNumber : Kind → Numeral → Numeral → Prop
  | .uint64, n, n' => n'.value = n.value
  | .bool, n, n' => n'.value = 0 ↔ n.value = 0
  | .int32, n, n' => n'.low = n.low
  | .enum _, n, n' => n'.low = n.low
  | .string, _, _ => False
  | .message _, _, _ => False

/-- The same records under other spellings of their keys, lengths and numbers. The length of a
submessage is that of its own respelled payload. -/
inductive Schema.Respells (σ : Schema) : MessageType → List UInt8 → List UInt8 → Prop where
  | done {t : MessageType} : Schema.Respells σ t [] []
  /-- a number that is the same to its field -/
  | number {t : MessageType} {f : Field} {s s' : List UInt8} (key key' n n' : Numeral)
      (hkey : key.Announces t f) (hlow : key'.low = key.low) (hsame : f.kind.SameNumber n n')
      (hs : Schema.Respells σ t s s') :
      Schema.Respells σ t (key.bytes ++ n.bytes ++ s) (key'.bytes ++ n'.bytes ++ s')
  /-- a text of the same bytes -/
  | text {t : MessageType} {f : Field} {s s' : List UInt8} (key key' count count' : Numeral)
      (payload : List UInt8) (hkey : key.Announces t f) (hlow : key'.low = key.low)
      (hkind : f.kind = .string) (hlen : payload.length = count.value)
      (hlen' : payload.length = count'.value) (hs : Schema.Respells σ t s s') :
      Schema.Respells σ t (key.bytes ++ (count.bytes ++ payload) ++ s)
        (key'.bytes ++ (count'.bytes ++ payload) ++ s')
  /-- a submessage whose payload is respelled -/
  | submessage {t : MessageType} {f : Field} {name : String} {s s' : List UInt8}
      (key key' count count' : Numeral) (payload payload' : List UInt8)
      (hkey : key.Announces t f) (hlow : key'.low = key.low) (hkind : f.kind = .message name)
      (hlen : payload.length = count.value) (hlen' : payload'.length = count'.value)
      (hpayload : Schema.Respells σ (σ.type name) payload payload')
      (hs : Schema.Respells σ t s s') :
      Schema.Respells σ t (key.bytes ++ (count.bytes ++ payload) ++ s)
        (key'.bytes ++ (count'.bytes ++ payload') ++ s')

/-! ## Numbers -/

namespace Numeral

theorem ofNat_value_eq_zero_iff (n : Numeral) : UInt64.ofNat n.value = 0 ↔ n.value = 0 := by
  rw [← UInt64.toNat_inj, n.toNat_ofNat_value]
  rfl

theorem toUInt32_eq_of_low_eq {n n' : Numeral} (h : n'.low = n.low) :
    (UInt64.ofNat n'.value).toUInt32 = (UInt64.ofNat n.value).toUInt32 := by
  rw [← UInt32.toNat_inj]
  simpa [low] using h

/-- Keys with the same low bits start records of the same field. -/
theorem Announces.of_low_eq {key key' : Numeral} {t : MessageType} {f : Field}
    (h : key.Announces t f) (hlow : key'.low = key.low) : key'.Announces t f where
  ne_zero := hlow ▸ h.ne_zero
  field := hlow ▸ h.field
  wire := hlow ▸ h.wire

end Numeral

namespace Kind

theorem SameNumber.wireType {kind : Kind} {n n' : Numeral} (h : kind.SameNumber n n') :
    kind.wireType = .varint := by
  cases kind with
  | string => cases h
  | message name => cases h
  | _ => rfl

theorem sameNumber_self {kind : Kind} (h : kind.wireType = .varint) (n : Numeral) :
    kind.SameNumber n n := by
  cases kind with
  | string => cases h
  | message name => cases h
  | bool => exact Iff.rfl
  | _ => rfl

end Kind

/-- Numbers that are the same to a field are read as the same value. -/
theorem WireValue.read_of_sameNumber {kind : Kind} {n n' : Numeral} (h : kind.SameNumber n n')
    (σ : Schema) (limits : Limits) (d : Nat) (path : FieldPath) (hw : kind.wireType = .varint) :
    (WireValue.flat (.varint n')).read σ limits d path kind hw =
      (WireValue.flat (.varint n)).read σ limits d path kind hw := by
  cases kind with
  | string => cases h
  | message name => cases h
  | bool =>
    have hzero : UInt64.ofNat n'.value = 0 ↔ UInt64.ofNat n.value = 0 := by
      rw [n'.ofNat_value_eq_zero_iff, n.ofNat_value_eq_zero_iff]
      exact h
    have hbool : (UInt64.ofNat n'.value != 0) = (UInt64.ofNat n.value != 0) := by
      rw [Bool.eq_iff_iff, bne_iff_ne, bne_iff_ne]
      exact not_congr hzero
    rw [read_bool, read_bool, hbool]
  | int32 => rw [read_int32, read_int32, Numeral.toUInt32_eq_of_low_eq h]
  | «enum» type => rw [read_enum, read_enum, Numeral.toUInt32_eq_of_low_eq h]
  | uint64 =>
    have hvalue : n'.value = n.value := h
    rw [read_uint64, read_uint64, hvalue]

/-! ## Payloads -/

/-- A respelled payload does the same to every message, at any depth. -/
theorem Schema.Respells.alike {σ : Schema} {t : MessageType} {b b' : List UInt8}
    (h : σ.Respells t b b') (limits : Limits) : ∀ d, σ.Alike t limits d b b' := by
  induction h with
  | done => exact fun d => .refl σ _ limits d []
  | @number t f s s' key key' n n' hkey hlow hsame hs ih =>
    intro d
    refine Schema.Alike.field hkey (hkey.of_low_eq hlow) (ih d) hsame.wireType
      (.flat (.varint n)) (.flat (.varint n')) fun x => ?_
    rw [WireValue.read_of_sameNumber hsame]
  | @text t f s s' key key' count count' payload hkey hlow hkind hlen hlen' hs ih =>
    intro d
    have hw : f.kind.wireType = .lengthDelimited := by rw [hkind]; rfl
    refine Schema.Alike.field hkey (hkey.of_low_eq hlow) (ih d) hw
      (.flat (.lengthDelimited count payload hlen))
      (.flat (.lengthDelimited count' payload hlen')) fun x => ?_
    -- The bytes of a text are its own, however their number is spelled.
    simp only [hkind, WireValue.read_string]
  | submessage key key' count count' payload payload' hkey hlow hkind hlen hlen' hpayload hs
      ihPayload ih =>
    intro d
    exact Schema.Alike.submessage hkey (hkey.of_low_eq hlow) (ih d) hkind hlen hlen'
      (ihPayload (d + 1))

/-! ## Encoded messages -/

/-- The record of a value is one of the records that may be respelled. -/
def Element.Spelled (σ : Schema) (kind : Kind) (e : Element) : Prop :=
  ∀ ⦃t : MessageType⦄ ⦃f : Field⦄ ⦃key : Numeral⦄ ⦃s : List UInt8⦄, key.Announces t f →
    f.kind = kind → σ.Respells t s s →
    σ.Respells t (key.bytes ++ e.payload σ kind ++ s) (key.bytes ++ e.payload σ kind ++ s)

section Encoded

variable {σ : Schema}

theorem Element.spelled_of_varint {kind : Kind} (hkind : kind.wireType = .varint) {e : Element}
    {v : Nat} (hv : v < 2 ^ 64) (hpayload : e.payload σ kind = Varint.encode v) :
    e.Spelled σ kind := by
  intro t f key s hkey hf hs
  obtain ⟨n, hbytes, -⟩ := Varint.exists_numeral_encode hv
  rw [hpayload, ← hbytes]
  exact .number key key n n hkey rfl (hf ▸ Kind.sameNumber_self hkind n) hs

section Fields

variable {t : MessageType} (ht : t.WellFormed)

include ht

theorem respells_slotRecords {f : Field} {pre post : List Field}
    (hfields : t.fields = pre ++ f :: post) {es : List Element}
    (hes : ∀ e ∈ es, e.Spelled σ f.kind) {s : List UInt8} (hs : σ.Respells t s s) :
    σ.Respells t (slotRecords σ f es ++ s) (slotRecords σ f es ++ s) := by
  obtain ⟨key, hbytes, hkey⟩ := exists_announces ht hfields
  induction es with
  | nil => exact hs
  | cons e es ih =>
    obtain ⟨he, hes⟩ := List.forall_mem_cons.1 hes
    rw [slotRecords, List.append_assoc, ← hbytes]
    exact he hkey rfl (ih hes)

theorem respells_fieldRecords (pre post : List Field) (hfields : t.fields = pre ++ post)
    {slots : List Slot} (hvalues : ∀ q ∈ post.zip slots, ∀ e ∈ q.2, e.Spelled σ q.1.kind) :
    σ.Respells t (fieldRecords σ post slots) (fieldRecords σ post slots) := by
  induction post generalizing pre slots with
  | nil => cases slots <;> exact .done
  | cons f post ih =>
    cases slots with
    | nil => exact .done
    | cons slot slots =>
      rw [List.zip_cons_cons, List.forall_mem_cons] at hvalues
      rw [fieldRecords]
      exact respells_slotRecords ht hfields hvalues.1
        (ih (pre ++ [f]) (by simp [hfields]) hvalues.2)

end Fields

theorem Element.Conforms.spelled (hσ : σ.WellFormed) {kind : Kind} {e : Element}
    (h : e.Conforms σ kind) (hlen : (e.payload σ kind).length < 2 ^ 64) : e.Spelled σ kind := by
  induction h with
  | string s =>
    intro t f key rest hkey hf hs
    have hbytes : (Text.utf8 s).length < 2 ^ 64 := by
      simp only [payload, counted, List.length_append] at hlen
      omega
    obtain ⟨count, hcount, hvalue⟩ := Varint.exists_numeral_encode hbytes
    rw [payload, counted, ← hcount]
    exact .text key key count count _ hkey rfl hf hvalue.symm hvalue.symm hs
  | bool b =>
    have hlt : (if b then 1 else 0) < 2 ^ 64 := by split <;> norm_num
    exact spelled_of_varint rfl hlt rfl
  | int32 n => exact spelled_of_varint rfl (signExtend_lt n) rfl
  | uint64 n => exact spelled_of_varint rfl n.toNat_lt rfl
  | enum type n => exact spelled_of_varint rfl (signExtend_lt n) rfl
  | message name slots hslots hadmits hvalues ih =>
    intro t f key rest hkey hf hs
    -- Every payload inside is shorter, so its length fits into 64 bits as well.
    have hinner : (fieldRecords σ (σ.type name).fields slots).length < 2 ^ 64 := by
      simp only [payload, counted, List.length_append, Kind.typeName] at hlen
      omega
    have hspelled : ∀ q ∈ (σ.type name).fields.zip slots, ∀ e ∈ q.2, e.Spelled σ q.1.kind :=
      fun q hq e he => ih q hq e he
        (Nat.lt_of_le_of_lt (payload_length_le_fieldRecords hq he) hinner)
    obtain ⟨count, hcount, hvalue⟩ := Varint.exists_numeral_encode hinner
    rw [payload, Kind.typeName, counted, ← hcount]
    exact .submessage key key count count _ _ hkey rfl hf hvalue.symm hvalue.symm
      (respells_fieldRecords (hσ.type name) [] _ rfl hspelled) hs

/-- An encoded message is made of records that may be respelled. -/
theorem Schema.Conforms.respells_encode (hσ : σ.WellFormed) {t : MessageType} (ht : t.WellFormed)
    {m : Message} (h : σ.Conforms t m) (hlen : (σ.encode t m).length < 2 ^ 64) :
    σ.Respells t (σ.encode t m) (σ.encode t m) := by
  refine respells_fieldRecords ht [] t.fields rfl fun q hq e he => ?_
  exact (h.values q hq e he).spelled hσ
    (Nat.lt_of_le_of_lt (payload_length_le_fieldRecords hq he) hlen)

end Encoded

/-! ## The catalogue -/

namespace Catalog

/-- Every spelling of an encoded message of the catalogue is read as that message, if it is not too
deep and all of its unsigned numbers are accepted. The spelling that is written is one of them. -/
theorem decode_respelled {t : MessageType} (ht : t ∈ types) {m : Message}
    (h : standard.Conforms t m) (hlen : (standard.encode t m).length < 2 ^ 63) (limits : Limits)
    (hdepth : m.depth ≤ limits.recursion)
    (hnumbers : ∀ p ∈ standard.numbers t m, limits.range.accepts p.2 = true) :
    standard.Respells t (standard.encode t m) (standard.encode t m) ∧
      ∀ b, standard.Respells t (standard.encode t m) b →
        standard.decode t limits b = .ok m := by
  have hfits : (standard.encode t m).length < 2 ^ 64 := Nat.lt_trans hlen (by norm_num)
  have hread := decode_encode_of_within ht h hfits hdepth hnumbers
  refine ⟨h.respells_encode standard_wellFormed (standard_wellFormed t ht) hfits, ?_⟩
  intro b hb
  exact ((hb.alike limits 0).decodeAt m).1 hread

/-- A number below 128 with a byte of padding. -/
def padded (b : UInt8) (h : Varint.continues b = true) : Numeral where
  marked := [b]
  last := 0
  marked_continues := by simpa using h
  last_ends := by decide
  length_le := by simp
  tenth := by simp

/-- The key of a user id, 34 bits wide. -/
def wideKey : Numeral where
  marked := [0x98, 0x80, 0x80, 0x80]
  last := 0x20
  marked_continues := by simp [Varint.continues]
  last_ends := by decide
  length_le := by decide
  tenth := by decide

/-- The number -7 with its sign extended. -/
def minusSeven : Numeral where
  marked := [0xf9, 0xff, 0xff, 0xff, 0xff, 0xff, 0xff, 0xff, 0xff]
  last := 0x01
  marked_continues := by simp [Varint.continues]
  last_ends := by decide
  length_le := by decide
  tenth := by decide

/-- The number -7 in 32 bits. -/
def narrowMinusSeven : Numeral where
  marked := [0xf9, 0xff, 0xff, 0xff]
  last := 0x0f
  marked_continues := by simp [Varint.continues]
  last_ends := by decide
  length_le := by decide
  tenth := by decide

/-- A request with a user id and a negative number without a symbol. -/
def negativeRequest : Message :=
  [[], [], [.uint64 7], [.enum (-7)]]

/-- A column that is part of the primary key. -/
def keyColumn : Message :=
  [[], [.string "a"], [.message (columnTag.put columnTag.empty 5 (.bool true))], []]

/-- A request with a wide key, a padded number and a negative number of five bytes, and a column
with padded keys and lengths whose flag is 2. -/
theorem decode_respelled_instances :
    standard.decode deleteAccount {}
      [0x98, 0x80, 0x80, 0x80, 0x20, 0x87, 0x00, 0x20, 0xf9, 0xff, 0xff, 0xff, 0x0f] =
        .ok negativeRequest ∧
    standard.decode extraField {}
      [0x92, 0x00, 0x81, 0x00, 0x61, 0x1a, 0x84, 0x00, 0xa8, 0x00, 0x82, 0x00] =
        .ok keyColumn := by
  have hrequest : standard.Respells deleteAccount (standard.encode deleteAccount negativeRequest)
      [0x98, 0x80, 0x80, 0x80, 0x20, 0x87, 0x00, 0x20, 0xf9, 0xff, 0xff, 0xff, 0x0f] := by
    have hencode : standard.encode deleteAccount negativeRequest =
        [0x18, 0x07, 0x20, 0xf9, 0xff, 0xff, 0xff, 0xff, 0xff, 0xff, 0xff, 0xff, 0x01] := by cbv
    rw [hencode]
    exact .number (f := ⟨3, "user_id", "userId", .uint64, false⟩) (.single 0x18 rfl) wideKey
      (.single 0x07 rfl) (padded 0x87 rfl) ⟨by decide, by decide, by decide⟩ (by cbv) (by cbv)
      (.number (f := ⟨4, "profile_type", "profileType", .enum profileType, false⟩)
        (.single 0x20 rfl) (.single 0x20 rfl) minusSeven narrowMinusSeven
        ⟨by decide, by decide, by decide⟩ rfl (by cbv) .done)
  have hcolumn : standard.Respells extraField (standard.encode extraField keyColumn)
      [0x92, 0x00, 0x81, 0x00, 0x61, 0x1a, 0x84, 0x00, 0xa8, 0x00, 0x82, 0x00] := by
    have hencode : standard.encode extraField keyColumn =
        [0x12, 0x01, 0x61, 0x1a, 0x02, 0x28, 0x01] := by cbv
    rw [hencode]
    exact .text (f := ⟨2, "name", "name", .string, false⟩) (.single 0x12 rfl) (padded 0x92 rfl)
      (.single 0x01 rfl) (padded 0x81 rfl) [0x61] ⟨by decide, by decide, by decide⟩ (by cbv) rfl
      (by decide) (by cbv)
      (.submessage (f := ⟨3, "tag", "tag", .message "gorm.GormTag", false⟩) (.single 0x1a rfl)
        (.single 0x1a rfl) (.single 0x02 rfl) (padded 0x84 rfl) [0x28, 0x01]
        [0xa8, 0x00, 0x82, 0x00] ⟨by decide, by decide, by decide⟩ rfl rfl (by decide) (by cbv)
        (.number (f := ⟨5, "primary_key", "primaryKey", .bool, false⟩) (.single 0x28 rfl)
          (padded 0xa8 rfl) (.single 0x01 rfl) (padded 0x82 rfl)
          ⟨by decide, by decide, by decide⟩ (by cbv) (iff_of_false (by decide) (by decide))
          .done)
        .done)
  exact ⟨(decode_respelled (by decide) (by decide) (by cbv) {} (by decide) (by decide)).2 _ hrequest,
    (decode_respelled (by decide) (by decide) (by cbv) {} (by decide) (by decide)).2 _ hcolumn⟩

end Catalog
end SchemaCodec
