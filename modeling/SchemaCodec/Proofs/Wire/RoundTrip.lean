import Mathlib
import SchemaCodec.Proofs.Catalog.Kinds
import SchemaCodec.Proofs.Schema.Entries
import SchemaCodec.Proofs.Schema.Merging
import SchemaCodec.Proofs.Wire.Grammar
import SchemaCodec.Wire.Encode

/-!
# Proofs.Wire.RoundTrip — what is written is read

- `Element.Returns`: the payload of a value is a whole value, and is read as that value wherever
  the limits let it.
- `Schema.decodeAt_fieldRecords`: the same for messages, from values to slots to tables.

`Schema.decode_encode` is the round trip of a schema, and `Catalog.wire_round_trip` says for the
catalogue which messages come back, and with what fault the others are refused.
-/

namespace SchemaCodec

/-! ## Scalars -/

theorem Text.ofUtf8?_utf8 (s : String) : Text.ofUtf8? (Text.utf8 s) = some s := by
  have hbytes : (⟨(Text.utf8 s).toArray⟩ : ByteArray) = s.toUTF8 := by
    simp [Text.utf8]
  rw [Text.ofUtf8?, hbytes]
  exact dif_pos s.isValidUTF8

/-- The sign that is extended when a number is written is cut off when it is read. -/
theorem toInt32_signExtend (n : Int32) : (UInt64.ofNat (signExtend n)).toUInt32.toInt32 = n := by
  rw [signExtend, UInt64.ofNat_toNat]
  refine Eq.trans ?_ (Int32.toInt32_toInt64 n)
  apply Int32.toBitVec_inj.1
  rw [Int64.toBitVec_toInt32, BitVec.signExtend_eq_setWidth_of_le _ (by decide)]
  rfl

theorem signExtend_lt (n : Int32) : signExtend n < 2 ^ 64 :=
  UInt64.toNat_lt _

/-- Bytes behind their length are a whole value. -/
theorem exists_value_counted {bytes : List UInt8} (h : bytes.length < 2 ^ 64) :
    ∃ (count : Numeral) (hlen : bytes.length = count.value),
      (FlatValue.lengthDelimited count bytes hlen).bytes = counted bytes := by
  obtain ⟨count, hbytes, hvalue⟩ := Varint.exists_numeral_encode h
  exact ⟨count, hvalue.symm, by simp [FlatValue.bytes, counted, hbytes]⟩

/-! ## Values -/

/-- The payload of a value is a whole value, and reading it gives the value back or the fault of
the first place in it that is refused. -/
def Element.Returns (σ : Schema) (kind : Kind) (e : Element) : Prop :=
  ∃ (w : WireType) (hw : kind.wireType = w) (v : WireValue w), v.bytes = e.payload σ kind ∧
    ∀ limits d path,
      v.read σ limits d path kind hw = settle limits.fault? (e.places σ path kind d) e

namespace Element

variable {σ : Schema}

theorem returns_string {s : String} (h : ((string s).payload σ .string).length < 2 ^ 64) :
    (string s).Returns σ .string := by
  have hlen : (Text.utf8 s).length < 2 ^ 64 := by
    simp only [payload, counted, List.length_append] at h
    omega
  obtain ⟨count, hcount, hbytes⟩ := exists_value_counted hlen
  refine ⟨.lengthDelimited, rfl, .flat (.lengthDelimited count _ hcount), hbytes, ?_⟩
  intro limits d path
  rw [WireValue.read_string, Text.ofUtf8?_utf8]
  rfl

theorem returns_bool (b : Bool) : (bool b).Returns σ .bool := by
  have hlt : (if b then 1 else 0) < 2 ^ 64 := by split <;> norm_num
  obtain ⟨n, hbytes, hvalue⟩ := Varint.exists_numeral_encode hlt
  refine ⟨.varint, rfl, .flat (.varint n), hbytes, ?_⟩
  intro limits d path
  rw [WireValue.read_bool, hvalue]
  cases b <;> rfl

theorem returns_int32 (n : Int32) : (int32 n).Returns σ .int32 := by
  obtain ⟨v, hbytes, hvalue⟩ := Varint.exists_numeral_encode (signExtend_lt n)
  refine ⟨.varint, rfl, .flat (.varint v), hbytes, ?_⟩
  intro limits d path
  rw [WireValue.read_int32, hvalue, toInt32_signExtend]
  rfl

theorem returns_enum (type : EnumType) (n : Int32) : (enum n).Returns σ (.enum type) := by
  obtain ⟨v, hbytes, hvalue⟩ := Varint.exists_numeral_encode (signExtend_lt n)
  refine ⟨.varint, rfl, .flat (.varint v), hbytes, ?_⟩
  intro limits d path
  rw [WireValue.read_enum, hvalue, toInt32_signExtend]
  rfl

theorem returns_uint64 (n : UInt64) : (uint64 n).Returns σ .uint64 := by
  obtain ⟨v, hbytes, hvalue⟩ := Varint.exists_numeral_encode n.toNat_lt
  refine ⟨.varint, rfl, .flat (.varint v), hbytes, ?_⟩
  intro limits d path
  rw [WireValue.read_uint64, hvalue, UInt64.ofNat_toNat]
  exact (settle_number path d _ n _).symm

end Element

/-! ## Records -/

/-- The bytes of a value of a message: its key and its payload. -/
def Schema.entryBytes (σ : Schema) (p : Field × Element) : List UInt8 :=
  recordKey p.1.number p.1.wireType ++ p.2.payload σ p.1.kind

theorem slotRecords_eq_flatMap (σ : Schema) (f : Field) (es : List Element) :
    slotRecords σ f es = (es.map (Prod.mk f)).flatMap σ.entryBytes := by
  induction es with
  | nil => rfl
  | cons e es ih =>
    rw [slotRecords, ih, List.map_cons, List.flatMap_cons]
    rfl

theorem fieldRecords_eq_flatMap (σ : Schema) (fields : List Field) (slots : List Slot) :
    fieldRecords σ fields slots = (fieldEntries fields slots).flatMap σ.entryBytes := by
  induction slots generalizing fields with
  | nil => simp [fieldRecords]
  | cons slot slots ih =>
    cases fields with
    | nil => rfl
    | cons f fields =>
      rw [fieldRecords, fieldEntries_cons, List.flatMap_append, ← ih, slotRecords_eq_flatMap]

theorem fieldRecords_eq_zip (σ : Schema) (fields : List Field) (slots : List Slot) :
    fieldRecords σ fields slots = (fields.zip slots).flatMap fun q => slotRecords σ q.1 q.2 := by
  rw [fieldRecords_eq_flatMap, fieldEntries, List.flatMap_assoc]
  exact List.flatMap_congr fun q _ => (slotRecords_eq_flatMap σ q.1 q.2).symm

/-- The key of a field is the key of its number and wire type. -/
theorem exists_numeral_recordKey {number : Nat} (hbound : number < 2 ^ 29) (w : WireType) :
    ∃ key : Numeral, key.bytes = recordKey number w ∧ key.low / 8 = number ∧
      key.low % 8 = w.raw := by
  have hraw : w.raw < 8 := by cases w <;> decide
  have hlt : 8 * number + w.raw < 2 ^ 32 := by omega
  obtain ⟨key, hbytes, hvalue⟩ := Varint.exists_numeral_encode (v := 8 * number + w.raw) (by omega)
  have hlow : key.low = 8 * number + w.raw := by
    rw [Numeral.low, hvalue]
    exact Nat.mod_eq_of_lt hlt
  exact ⟨key, hbytes, by omega, by omega⟩

section Fields

variable {σ : Schema} {t : MessageType} (ht : t.WellFormed)

include ht

/-- The key of a field starts its records. -/
theorem exists_announces {f : Field} {pre post : List Field}
    (hfields : t.fields = pre ++ f :: post) :
    ∃ key : Numeral, key.bytes = recordKey f.number f.wireType ∧ key.Announces t f := by
  have hmem : f ∈ t.fields := by simp [hfields]
  have hpos := ht.positive f hmem
  obtain ⟨key, hbytes, hnumber, hwire⟩ := exists_numeral_recordKey (ht.bounded f hmem) f.wireType
  exact ⟨key, hbytes, by omega, hnumber ▸ ht.field?_number hfields, hwire⟩

/-- The record of a value puts it into the message, as far as the limits let it. -/
theorem exists_record_of_returns {f : Field} {pre post : List Field}
    (hfields : t.fields = pre ++ f :: post) {e : Element} (he : e.Returns σ f.kind) :
    ∃ r : Record, r.bytes = recordKey f.number f.wireType ++ e.payload σ f.kind ∧
      ∀ limits d m, r.mergeInto σ t limits d m =
        settle limits.fault? (e.places σ ⟨t.name, f.jsonName⟩ f.kind d) (t.put m f.number e) := by
  obtain ⟨key, hbytes, hkey⟩ := exists_announces ht hfields
  obtain ⟨w, hw, v, hv, hread⟩ := he
  let r : Record := hkey.record hw v
  refine ⟨r, by rw [← hbytes, ← hv]; rfl, ?_⟩
  intro limits d m
  rw [Record.mergeInto_of_field (r := r) hkey.field hw, ← hkey.number_eq, ← settle_map, ← hread]
  rfl

/-- The records of a slot collect its values behind those that the slot holds already. -/
theorem exists_records_of_slot {f : Field} {pre post : List Field}
    (hfields : t.fields = pre ++ f :: post) {es : List Element}
    (hes : ∀ e ∈ es, e.Returns σ f.kind) :
    ∃ rs, Record.concat rs = slotRecords σ f es ∧
      ∀ (limits : Limits) (d : Nat) (before after : List Slot) (slot : Slot),
        pre.length = before.length → post.length = after.length →
        rs.foldlM (Record.mergeInto σ t limits d) (before ++ slot :: after) =
          settle limits.fault? (slotPlaces σ ⟨t.name, f.jsonName⟩ f.kind d es)
            (before ++ es.foldl f.put slot :: after) := by
  induction es with
  | nil => exact ⟨[], rfl, by simp [slotPlaces, pure, Except.pure]⟩
  | cons e es ih =>
    obtain ⟨he, hes⟩ := List.forall_mem_cons.1 hes
    obtain ⟨r, hr, hmerge⟩ := exists_record_of_returns ht hfields he
    obtain ⟨rs, hrs, hfold⟩ := ih hes
    refine ⟨r :: rs, by rw [Record.concat_cons, hr, hrs, slotRecords], ?_⟩
    intro limits d before after slot hbefore hafter
    rw [List.foldlM_cons, hmerge, ht.put_middle hfields hbefore hafter, slotPlaces,
      settle_append _ _ (before ++ f.put slot e :: after), List.foldl_cons]
    cases hsettle : settle limits.fault? (e.places σ ⟨t.name, f.jsonName⟩ f.kind d)
      (before ++ f.put slot e :: after) with
    | error fault => rfl
    | ok m =>
      obtain ⟨-, rfl⟩ := settle_eq_ok_iff.1 hsettle
      exact hfold limits d before after (f.put slot e) hbefore hafter

/-- The records of the last fields of a table are merged into their slots. -/
theorem exists_records_of_fields (pre post : List Field) (hfields : t.fields = pre ++ post)
    {slots : List Slot} (hlen : slots.length = post.length)
    (hadmits : ∀ q ∈ post.zip slots, q.1.Admits q.2)
    (hvalues : ∀ q ∈ post.zip slots, ∀ e ∈ q.2, e.Returns σ q.1.kind) :
    ∃ rs, Record.concat rs = fieldRecords σ post slots ∧
      ∀ (limits : Limits) (d : Nat) (before olds : List Slot), pre.length = before.length →
        olds.length = post.length →
        rs.foldlM (Record.mergeInto σ t limits d) (before ++ olds) =
          settle limits.fault? (fieldPlaces σ t.name d post slots)
            (before ++ mergeSlots post olds slots) := by
  -- The slots of the fields in front are merged already, and those behind are the old ones.
  induction post generalizing pre slots with
  | nil =>
    cases slots with
    | nil =>
      refine ⟨[], rfl, ?_⟩
      intro limits d before olds hbefore holds
      rw [List.length_eq_zero_iff.1 holds]
      rfl
    | cons slot slots => cases hlen
  | cons f post ih =>
    cases slots with
    | nil => cases hlen
    | cons slot slots =>
      rw [List.zip_cons_cons, List.forall_mem_cons] at hadmits hvalues
      obtain ⟨rs, hrs, hslot⟩ := exists_records_of_slot ht hfields hvalues.1
      obtain ⟨qs, hqs, hrest⟩ := ih (pre ++ [f]) (by simp [hfields]) (Nat.succ.inj hlen)
        hadmits.2 hvalues.2
      refine ⟨rs ++ qs, by rw [Record.concat_append, hrs, hqs, fieldRecords], ?_⟩
      intro limits d before olds hbefore holds
      cases olds with
      | nil => cases holds
      | cons old olds =>
        have hafter : post.length = olds.length := (Nat.succ.inj holds).symm
        have hfirst := hslot limits d before olds old hbefore hafter
        rw [hadmits.1.foldl_put] at hfirst
        rw [List.foldlM_append, hfirst, fieldPlaces,
          settle_append _ _ (before ++ f.merge old slot :: olds)]
        cases hsettle : settle limits.fault? (slotPlaces σ ⟨t.name, f.jsonName⟩ f.kind d slot)
          (before ++ f.merge old slot :: olds) with
        | error fault => rfl
        | ok m =>
          obtain ⟨-, rfl⟩ := settle_eq_ok_iff.1 hsettle
          have hgo := hrest limits d (before ++ [f.merge old slot]) olds (by simp [hbefore])
            hafter.symm
          rw [List.append_assoc, List.append_assoc] at hgo
          exact hgo

/-- The records of a message are merged into another one, as far as the limits let them. -/
theorem exists_records_of_message {m : Message} (hlen : m.length = t.fields.length)
    (hadmits : ∀ q ∈ t.fields.zip m, q.1.Admits q.2)
    (hvalues : ∀ q ∈ t.fields.zip m, ∀ e ∈ q.2, e.Returns σ q.1.kind) :
    ∃ rs, Record.concat rs = σ.encode t m ∧
      ∀ (limits : Limits) (d : Nat) (old : Message), old.length = t.fields.length →
        rs.foldlM (Record.mergeInto σ t limits d) old =
          settle limits.fault? (fieldPlaces σ t.name d t.fields m) (t.merge old m) := by
  obtain ⟨rs, hrs, hfold⟩ := exists_records_of_fields ht [] t.fields rfl hlen hadmits hvalues
  exact ⟨rs, hrs, fun limits d old hold => hfold limits d [] old rfl hold⟩

/-- The records of a message are read as that message, as far as the limits let them. -/
theorem Schema.decodeAt_fieldRecords {slots : List Slot} (hlen : slots.length = t.fields.length)
    (hadmits : ∀ q ∈ t.fields.zip slots, q.1.Admits q.2)
    (hvalues : ∀ q ∈ t.fields.zip slots, ∀ e ∈ q.2, e.Returns σ q.1.kind)
    (limits : Limits) (d : Nat) :
    σ.decodeAt t limits d (fieldRecords σ t.fields slots) =
      settle limits.fault? (fieldPlaces σ t.name d t.fields slots) slots := by
  obtain ⟨rs, hrs, hfold⟩ := exists_records_of_message ht hlen hadmits hvalues
  have hrun := hfold limits d t.empty (by simp [MessageType.empty])
  rw [MessageType.merge_empty hlen] at hrun
  have hbytes : fieldRecords σ t.fields slots = Record.concat rs := hrs.symm
  rw [hbytes, decodeAt_concat]
  exact hrun

end Fields

/-! ## Messages -/

theorem payload_length_le_slotRecords {σ : Schema} {f : Field} {es : List Element} {e : Element}
    (he : e ∈ es) : (e.payload σ f.kind).length ≤ (slotRecords σ f es).length := by
  induction es with
  | nil => cases he
  | cons e' es ih =>
    simp only [slotRecords, List.length_append]
    rcases List.mem_cons.1 he with rfl | he
    · omega
    · have := ih he
      omega

theorem payload_length_le_fieldRecords {σ : Schema} {fields : List Field} {slots : List Slot}
    {q : Field × Slot} (hq : q ∈ fields.zip slots) {e : Element} (he : e ∈ q.2) :
    (e.payload σ q.1.kind).length ≤ (fieldRecords σ fields slots).length := by
  induction slots generalizing fields with
  | nil => simp at hq
  | cons slot slots ih =>
    cases fields with
    | nil => simp at hq
    | cons f fs =>
      rw [List.zip_cons_cons] at hq
      simp only [fieldRecords, List.length_append]
      rcases List.mem_cons.1 hq with rfl | hq
      · have hslot := payload_length_le_slotRecords (σ := σ) (f := f) he
        exact Nat.le_add_right_of_le hslot
      · have hrest := ih hq
        exact Nat.le_add_left_of_le hrest

/-- Every value of a schema that fits into 64 bits of length is read as it was written. -/
theorem Element.Conforms.returns {σ : Schema} (hσ : σ.WellFormed) {kind : Kind} {e : Element}
    (h : e.Conforms σ kind) (hlen : (e.payload σ kind).length < 2 ^ 64) : e.Returns σ kind := by
  induction h with
  | string s => exact returns_string hlen
  | bool b => exact returns_bool b
  | int32 n => exact returns_int32 n
  | uint64 n => exact returns_uint64 n
  | enum type n => exact returns_enum type n
  | message name slots hslots hadmits hvalues ih =>
    -- Every payload inside is shorter, so its length fits into 64 bits as well.
    have hinner : (fieldRecords σ (σ.type name).fields slots).length < 2 ^ 64 := by
      simp only [payload, counted, List.length_append, Kind.typeName] at hlen
      omega
    have hreturns : ∀ q ∈ (σ.type name).fields.zip slots, ∀ e ∈ q.2, e.Returns σ q.1.kind :=
      fun q hq e he => ih q hq e he
        (Nat.lt_of_le_of_lt (payload_length_le_fieldRecords hq he) hinner)
    obtain ⟨count, hcount, hbytes⟩ := exists_value_counted hinner
    refine ⟨.lengthDelimited, rfl, .flat (.lengthDelimited count _ hcount), hbytes, ?_⟩
    intro limits d path
    have hread := Schema.decodeAt_fieldRecords (hσ.type name) hslots hadmits hreturns limits (d + 1)
    rw [WireValue.read_message, hread, settle_map]
    exact (settle_submessage path (d + 1) _ slots _ _).symm

theorem Schema.Conforms.returns {σ : Schema} (hσ : σ.WellFormed) {t : MessageType} {m : Message}
    (h : σ.Conforms t m) (hlen : (σ.encode t m).length < 2 ^ 64) :
    ∀ q ∈ t.fields.zip m, ∀ e ∈ q.2, e.Returns σ q.1.kind := by
  intro q hq e he
  exact (h.values q hq e he).returns hσ
    (Nat.lt_of_le_of_lt (payload_length_le_fieldRecords hq he) hlen)

/-- Reading what was written gives the message back, or the fault of the first place in it that is
refused. -/
theorem Schema.decode_encode {σ : Schema} (hσ : σ.WellFormed) {t : MessageType}
    (ht : t.WellFormed) {m : Message} (h : σ.Conforms t m)
    (hlen : (σ.encode t m).length < 2 ^ 64) (limits : Limits) :
    σ.decode t limits (σ.encode t m) = settle limits.fault? (σ.places t m) m := by
  rw [decode_eq_decodeAt]
  exact Schema.decodeAt_fieldRecords ht h.length_eq h.admits (h.returns hσ hlen) limits 0

/-! ## The catalogue -/

namespace Catalog

/-- A message of the catalogue that is within the limits comes back from its bytes. -/
theorem decode_encode_of_within {t : MessageType} (ht : t ∈ types) {m : Message}
    (h : standard.Conforms t m) (hlen : (standard.encode t m).length < 2 ^ 64) {limits : Limits}
    (hdepth : m.depth ≤ limits.recursion)
    (hnumbers : ∀ p ∈ standard.numbers t m, limits.range.accepts p.2 = true) :
    standard.decode t limits (standard.encode t m) = .ok m := by
  rw [Schema.decode_encode standard_wellFormed (standard_wellFormed t ht) h hlen]
  exact (settle_places ht h limits m).1.2 ⟨hdepth, hnumbers⟩

/-- Each message of the catalogue comes back from its bytes exactly if it is not too deep and all
of its unsigned numbers are accepted. A message that is too deep is refused for its depth, and one
with a number out of range for its first such number. -/
theorem wire_round_trip {t : MessageType} (ht : t ∈ types) {m : Message}
    (h : standard.Conforms t m) (hlen : (standard.encode t m).length < 2 ^ 63)
    (limits : Limits) :
    (standard.decode t limits (standard.encode t m) = .ok m ↔ m.depth ≤ limits.recursion ∧
      ∀ p ∈ standard.numbers t m, limits.range.accepts p.2 = true) ∧
    (limits.recursion < m.depth →
      standard.decode t limits (standard.encode t m) =
        .error (.recursionLimit limits.recursion)) ∧
    ∀ path n,
      (standard.numbers t m).find? (fun p => !limits.range.accepts p.2) = some (path, n) →
      standard.decode t limits (standard.encode t m) = .error (.rangeOverflow path n) := by
  have hfits : (standard.encode t m).length < 2 ^ 64 := Nat.lt_trans hlen (by norm_num)
  rw [Schema.decode_encode standard_wellFormed (standard_wellFormed t ht) h hfits]
  exact settle_places ht h limits m

/-- A request with a number beyond the safe range and a negative number without a symbol. -/
def unsafeRequest : Message :=
  [[], [.string "a"], [.uint64 9007199254740992], [.enum (-7)]]

/-- Options with an empty column and a column that has a name only. -/
def columnOptions : Message :=
  [[.bool true], [.message [[], [], [], []], .message [[], [.string "id"], [], []]], [], []]

/-- The request comes back in the full range only, and the options where one submessage may be
open. -/
theorem wire_round_trip_instances :
    standard.decode deleteAccount {} (standard.encode deleteAccount unsafeRequest) =
      .error (.rangeOverflow ⟨deleteAccount.name, "userId"⟩ 9007199254740992) ∧
    standard.decode deleteAccount { range := .full }
      (standard.encode deleteAccount unsafeRequest) = .ok unsafeRequest ∧
    standard.decode messageOptions { recursion := 1 }
      (standard.encode messageOptions columnOptions) = .ok columnOptions ∧
    standard.decode messageOptions { recursion := 0 }
      (standard.encode messageOptions columnOptions) = .error (.recursionLimit 0) := by
  have hrequest := wire_round_trip (t := deleteAccount) (by decide) (m := unsafeRequest)
    (by decide) (by cbv)
  have hoptions := wire_round_trip (t := messageOptions) (by decide) (m := columnOptions)
    (by decide) (by cbv)
  exact ⟨(hrequest {}).2.2 _ _ (by decide), (hrequest { range := .full }).1.2 (by decide),
    (hoptions { recursion := 1 }).1.2 (by decide), (hoptions { recursion := 0 }).2.1 (by decide)⟩

end Catalog
end SchemaCodec
