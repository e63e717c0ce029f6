import Mathlib
import SchemaCodec.Proofs.Numeric.Exact
import SchemaCodec.Proofs.Projection.Members
import SchemaCodec.Proofs.Projection.Refusals

/-!
# Proofs.Projection.RoundTrip — what is projected is read

- `Element.ReadsBack`: the projection of a value is read as its normal form, wherever the limits
  and the coercion let it.
- `message_of_members`: the same for messages, from values to slots to tables.

`Catalog.json_round_trip` is the round trip of the catalogue in both readings.
-/

namespace SchemaCodec

/-- The projection of a value is read as its normal form, or refused for the first place in it that
the source refuses. -/
def Element.ReadsBack (σ : Schema) (kind : Kind) (e : Element) : Prop :=
  ∀ (src : FieldSource) (key : String), src.element σ key kind (e.toJson σ kind) =
    settle src.fault? (e.places σ ⟨src.typeName, key⟩ kind src.depth) (e.normalize σ kind)

namespace Element

variable {σ : Schema}

/-! ## Scalars -/

theorem fault?_eq_none (src : FieldSource) {p : Place} (hlimits : src.limits.fault? p = none)
    (hsymbol : p.hasSymbol = true) : src.fault? p = none := by
  unfold FieldSource.fault?
  cases src.coercion with
  | loose => exact hlimits
  | strict => simp [Coercion.fault?, hlimits, Place.symbolFault?, hsymbol]

/-- A scalar that no reading refuses is read back. -/
theorem readsBack_of_ok {kind : Kind} {e : Element}
    (hplaces : ∀ path d, e.places σ path kind d = [⟨path, d, kind, e⟩])
    (hlimits : ∀ (limits : Limits) path d, limits.fault? ⟨path, d, kind, e⟩ = none)
    (hsymbol : ∀ path d, Place.hasSymbol ⟨path, d, kind, e⟩ = true)
    (hread : ∀ (src : FieldSource) (key : String),
      src.element σ key kind (e.toJson σ kind) = .ok (e.normalize σ kind)) :
    e.ReadsBack σ kind := by
  intro src key
  have hfault := fault?_eq_none src (hlimits src.limits ⟨src.typeName, key⟩ src.depth)
    (hsymbol ⟨src.typeName, key⟩ src.depth)
  rw [hread, hplaces, settle_cons_of_none hfault, settle_nil]

theorem readsBack_string (s : String) : (string s).ReadsBack σ .string := by
  refine readsBack_of_ok (fun _ _ => rfl) (fun _ _ _ => rfl) (fun _ _ => rfl) ?_
  intro src key
  rw [FieldSource.element]
  cases src.coercion <;> rfl

theorem readsBack_bool (b : Bool) : (bool b).ReadsBack σ .bool := by
  refine readsBack_of_ok (fun _ _ => rfl) (fun _ _ _ => rfl) (fun _ _ => rfl) ?_
  intro src key
  rw [FieldSource.element]
  cases src.coercion <;> rfl

/-- A signed 32-bit number is read in both readings, loosely through a double. -/
theorem int32_ofInt (coercion : Coercion) (n : Int32) :
    coercion.int32 (.ofInt n.toInt) = .ok n := by
  have hlow := n.le_toInt
  have hhigh := n.toInt_lt
  have hfits : Numeric.fitsInt32 n.toInt = true := by
    simp [Numeric.fitsInt32]
    omega
  have hwide : Numeric.fitsInt64 n.toInt = true := by
    simp [Numeric.fitsInt64]
    omega
  have hback : Coercion.toInt32? n.toInt = some n := by
    simp [Coercion.toInt32?, hfits]
  cases coercion with
  | strict => simp [Coercion.int32, Json.ofInt, Number.toInt64?, hwide, hback]
  | loose =>
    -- 32 bits fit into the 53 of a double.
    have htrunc := Numeric.Binary64.trunc_ofInt (n := n.toInt) (by omega)
    simp [Coercion.int32, Json.ofInt, Number.toBinary64, Coercion.truncInt32, htrunc, hback]

theorem readsBack_int32 (n : Int32) : (int32 n).ReadsBack σ .int32 := by
  refine readsBack_of_ok (fun _ _ => rfl) (fun _ _ _ => rfl) (fun _ _ => rfl) ?_
  intro src key
  rw [FieldSource.element, toJson, int32_ofInt]
  rfl

/-- An unsigned number is read in both readings, whether it was written as a number or as digits. -/
theorem uint64_unsignedJson (coercion : Coercion) (n : UInt64) :
    coercion.uint64 (unsignedJson n) = .ok n := by
  have hlt := n.toNat_lt
  have hfits : Numeric.fitsUInt64 n.toNat = true := by
    simp [Numeric.fitsUInt64]
    omega
  unfold unsignedJson
  -- Up to the safe bound a number is written, and above it its digits.
  split
  next =>
    cases coercion <;> simp [Coercion.uint64, Json.ofInt, Number.toUInt64?, hfits]
  next =>
    cases coercion with
    | strict => simp only [Coercion.uint64, Numeric.uint64?_toString]
    | loose => simp only [Coercion.uint64, Text.trim_toString, Numeric.uint64?_toString]

theorem readsBack_uint64 (n : UInt64) : (uint64 n).ReadsBack σ .uint64 := by
  intro src key
  have hfault : src.fault? ⟨⟨src.typeName, key⟩, src.depth, .uint64, .uint64 n⟩ =
      src.limits.fault? ⟨⟨src.typeName, key⟩, src.depth, .uint64, .uint64 n⟩ := by
    unfold FieldSource.fault?
    cases src.coercion with
    | loose => rfl
    | strict => exact Option.or_none
  have hread : src.uint64 key (unsignedJson n) =
      if src.limits.range.accepts n then .ok n
      else .error (.rangeOverflow ⟨src.typeName, key⟩ n) := by
    rw [FieldSource.uint64, uint64_unsignedJson]
    rfl
  have hsettle : settle src.fault? [⟨⟨src.typeName, key⟩, src.depth, .uint64, .uint64 n⟩]
      (uint64 n) = if src.limits.range.accepts n then .ok (uint64 n)
        else .error (.rangeOverflow ⟨src.typeName, key⟩ n) := by
    rw [← settle_number ⟨src.typeName, key⟩ src.depth .uint64 n]
    exact settle_congr _ (by simpa using hfault)
  rw [FieldSource.element, toJson, hread]
  refine Eq.trans ?_ hsettle.symm
  split <;> rfl

theorem enum_loose {type : EnumType} (htype : type.Faithful) (n : Int32) :
    Coercion.loose.enum type (.string (type.symbolFor n)) =
      .ok ((Kind.enum type).recognize n) := by
  rw [Coercion.enum, Coercion.defined?, htype.numberOf?_symbolFor, Kind.recognize]
  split <;> rfl

theorem enum_strict {type : EnumType} (htype : type.Faithful) (n : Int32) :
    Coercion.strict.enum type (.string (type.symbolFor n)) =
      if (type.symbolOf? n).isSome then .ok n
      else .error (.unknownSymbol EnumType.unrecognizedSymbol) := by
  have hnumber := htype.numberOf?_symbolFor n
  split
  next hsymbol =>
    rw [if_pos hsymbol] at hnumber
    simp only [Coercion.enum, hnumber]
  next hsymbol =>
    have hunnamed : type.symbolFor n = EnumType.unrecognizedSymbol := by
      rw [EnumType.symbolFor, Option.not_isSome_iff_eq_none.1 hsymbol]
      rfl
    rw [if_neg hsymbol, hunnamed] at hnumber
    rw [hunnamed]
    simp only [Coercion.enum, hnumber]

/-- A number of an enumeration is read back as its symbol tells. Without a symbol it is the
unrecognized number loosely, and refused strictly. -/
theorem readsBack_enum {type : EnumType} (htype : type.Faithful) (n : Int32) :
    (enum n).ReadsBack σ (.enum type) := by
  intro src key
  let p : Place := ⟨⟨src.typeName, key⟩, src.depth, .enum type, .enum n⟩
  have hplaces : (enum n).places σ ⟨src.typeName, key⟩ (.enum type) src.depth = [p] := rfl
  rw [FieldSource.element, toJson, hplaces, normalize, Kind.symbolFor]
  cases hcoercion : src.coercion with
  | loose =>
    have hnone : src.fault? p = none := by
      rw [FieldSource.fault?, hcoercion]
      rfl
    rw [enum_loose htype, settle_cons_of_none hnone]
    rfl
  | strict =>
    have hfault : src.fault? p = p.symbolFault? := by
      rw [FieldSource.fault?, hcoercion]
      rfl
    rw [enum_strict htype]
    split
    next hsymbol =>
      have hnone : src.fault? p = none := hfault.trans (if_pos hsymbol)
      rw [settle_cons_of_none hnone, Kind.recognize, if_pos hsymbol]
      rfl
    next hsymbol =>
      rw [settle_cons_of_some (hfault.trans (if_neg hsymbol))]
      rfl

end Element

/-! ## Messages -/

section Messages

variable {σ : Schema} {src : FieldSource}

theorem mapM_slotItems (key : String) {kind : Kind} {es : List Element}
    (hes : ∀ e ∈ es, e.ReadsBack σ kind) :
    (slotItems σ kind es).mapM (fun item => src.element σ key kind item) =
      settle src.fault? (slotPlaces σ ⟨src.typeName, key⟩ kind src.depth es)
        (normalizeSlot σ kind es) := by
  induction es with
  | nil => rfl
  | cons e es ih =>
    obtain ⟨he, hes⟩ := List.forall_mem_cons.1 hes
    rw [slotItems, List.mapM_cons, he src key, ih hes, slotPlaces, normalizeSlot,
      settle_append _ _ (e.normalize σ kind)]
    cases hsettle : settle src.fault? (e.places σ ⟨src.typeName, key⟩ kind src.depth)
      (e.normalize σ kind) with
    | error fault => rfl
    | ok e' =>
      obtain ⟨-, rfl⟩ := settle_eq_ok_iff.1 hsettle
      exact settle_map _ (fun es' => e.normalize σ kind :: es') _

/-- A slot is read from the member that it is projected to. -/
theorem slot_of_get? {f : Field} {slot : Slot}
    (hget : src.get? f.jsonName = (slotMember σ f slot).lookup f.jsonName)
    (hadmits : f.Admits slot) (hvalues : ∀ e ∈ slot, e.ReadsBack σ f.kind) :
    src.slot σ f.jsonName f.kind f.repeated =
      settle src.fault? (slotPlaces σ ⟨src.typeName, f.jsonName⟩ f.kind src.depth slot)
        (normalizeSlot σ f.kind slot) := by
  rw [FieldSource.slot, hget]
  cases slot with
  | nil => rfl
  | cons e es =>
    rw [slotMember]
    cases hrep : f.repeated with
    | true =>
      simp only [if_true, Json.lookup_cons]
      exact mapM_slotItems f.jsonName hvalues
    | false =>
      obtain ⟨hlen, hdefault⟩ := hadmits hrep
      obtain rfl : es = [] := by
        simpa using hlen
      have he := hvalues e List.mem_cons_self
      have hsingle := Element.isDefault_normalize σ f.kind (hdefault e List.mem_cons_self)
      simp only [Bool.false_eq_true, if_false, if_true, Json.lookup_cons]
      rw [he src f.jsonName, settle_map, Slot.single, hsingle, slotPlaces, slotPlaces,
        List.append_nil]
      rfl

theorem mapM_slots {fields : List Field} {slots : List Slot} (hlen : slots.length = fields.length)
    (hget : ∀ q ∈ fields.zip slots,
      src.get? q.1.jsonName = (slotMember σ q.1 q.2).lookup q.1.jsonName)
    (hadmits : ∀ q ∈ fields.zip slots, q.1.Admits q.2)
    (hvalues : ∀ q ∈ fields.zip slots, ∀ e ∈ q.2, e.ReadsBack σ q.1.kind) :
    fields.mapM (fun f => src.slot σ f.jsonName f.kind f.repeated) =
      settle src.fault? (fieldPlaces σ src.typeName src.depth fields slots)
        (normalizeSlots σ fields slots) := by
  induction slots generalizing fields with
  | nil =>
    obtain rfl : fields = [] := List.length_eq_zero_iff.1 hlen.symm
    rfl
  | cons slot slots ih =>
    cases fields with
    | nil => cases hlen
    | cons f fs =>
      rw [List.zip_cons_cons, List.forall_mem_cons] at hget hadmits hvalues
      have hslot := slot_of_get? hget.1 hadmits.1 hvalues.1
      have hslots := ih (Nat.succ.inj hlen) hget.2 hadmits.2 hvalues.2
      rw [List.mapM_cons, hslot, hslots, fieldPlaces, normalizeSlots,
        settle_append _ _ (normalizeSlot σ f.kind slot)]
      cases hsettle : settle src.fault?
        (slotPlaces σ ⟨src.typeName, f.jsonName⟩ f.kind src.depth slot)
        (normalizeSlot σ f.kind slot) with
      | error fault => rfl
      | ok slot' =>
        obtain ⟨-, rfl⟩ := settle_eq_ok_iff.1 hsettle
        exact settle_map _ (fun slots' => normalizeSlot σ f.kind slot :: slots') _

/-- A message is read from the members that it is projected to. -/
theorem message_of_members (src : FieldSource) {t : MessageType} (ht : t.WellFormed)
    {slots : List Slot} (hsrc : src.members = sortedMembers σ t.fields slots)
    (hlen : slots.length = t.fields.length) (hadmits : ∀ q ∈ t.fields.zip slots, q.1.Admits q.2)
    (hvalues : ∀ q ∈ t.fields.zip slots, ∀ e ∈ q.2, e.ReadsBack σ q.1.kind) :
    src.message σ t =
      settle src.fault? (fieldPlaces σ src.typeName src.depth t.fields slots)
        (normalizeSlots σ t.fields slots) := by
  rw [FieldSource.message]
  exact mapM_slots hlen (fun q hq => get?_sortedMembers ht.keys hq hsrc) hadmits hvalues

end Messages

/-- Every value of a schema is read back from its projection. -/
theorem Element.Conforms.readsBack {σ : Schema} (hσ : σ.WellFormed) {kind : Kind} {e : Element}
    (h : e.Conforms σ kind) (hkind : ∀ type ∈ kind.enumeration?, type.Faithful) :
    e.ReadsBack σ kind := by
  induction h with
  | string s => exact readsBack_string s
  | bool b => exact readsBack_bool b
  | int32 n => exact readsBack_int32 n
  | uint64 n => exact readsBack_uint64 n
  | enum type n => exact readsBack_enum (hkind type rfl) n
  | message name slots hlen hadmits hvalues ih =>
    intro src key
    have ht := hσ.type name
    have hreads : ∀ q ∈ (σ.type name).fields.zip slots, ∀ e ∈ q.2, e.ReadsBack σ q.1.kind :=
      fun q hq e he => ih q hq e he (ht.symbols q.1 (List.of_mem_zip hq).1)
    let inner : FieldSource :=
      { src with
        members := sortedMembers σ (σ.type name).fields slots
        typeName := (σ.type name).name
        depth := src.depth + 1 }
    have hmessage := message_of_members inner ht rfl hlen hadmits hreads
    have hjson : (Element.message slots).toJson σ (.message name) =
        .object (sortedMembers σ (σ.type name).fields slots) := rfl
    let p : Place := ⟨⟨src.typeName, key⟩, src.depth + 1, .message name, .message slots⟩
    have hplaces : (Element.message slots).places σ ⟨src.typeName, key⟩ (.message name) src.depth =
        p :: fieldPlaces σ inner.typeName inner.depth (σ.type name).fields slots := rfl
    rw [hjson, hplaces, normalize, FieldSource.element]
    -- The depth is checked before anything inside is looked at.
    by_cases hdeep : src.limits.recursion < src.depth + 1
    · have hfault : src.fault? p = some (.recursionLimit src.limits.recursion) := by
        have hlimits : src.limits.fault? p = some (.recursionLimit src.limits.recursion) :=
          if_neg (Nat.not_le_of_lt hdeep)
        unfold FieldSource.fault?
        cases src.coercion with
        | loose => exact hlimits
        | strict => simp [Coercion.fault?, hlimits]
      rw [settle_cons_of_some hfault]
      exact dif_pos hdeep
    · have hfault : src.fault? p = none :=
        fault?_eq_none src (if_pos (Nat.le_of_not_lt hdeep)) rfl
      have hkeys := unknownKey?_sortedMembers (σ := σ) (σ.type name) slots
      rw [settle_cons_of_none hfault]
      refine (dif_neg hdeep).trans ?_
      simp only [hkeys]
      split
      next hunknown => cases hunknown
      next =>
        refine (congrArg (Except.map Element.message) hmessage).trans ?_
        exact settle_map _ Element.message _

/-- Reading what was projected gives the normal form of the message, or the fault of the first
place in it that the reading refuses. -/
theorem Schema.readJson_toJson {σ : Schema} (hσ : σ.WellFormed) {t : MessageType}
    (ht : t.WellFormed) {m : Message} (h : σ.Conforms t m) (coercion : Coercion)
    (limits : Limits) :
    σ.readJson t coercion limits (σ.toJson t m) =
      settle (coercion.fault? limits) (σ.places t m) (σ.normalize t m) := by
  let src : FieldSource := ⟨sortedMembers σ t.fields m, t.name, coercion, limits, 0⟩
  have hjson : σ.toJson t m = .object (sortedMembers σ t.fields m) := rfl
  have hkeys := unknownKey?_sortedMembers (σ := σ) t m
  have hsource : FieldSource.ofJson t coercion limits 0 (σ.toJson t m) = .ok src := by
    rw [hjson, FieldSource.ofJson]
    cases coercion with
    | loose => rfl
    | strict => simp [FieldSource.membersOf?, hkeys, src]
  have hmessage := message_of_members src ht rfl h.length_eq h.admits
    fun q hq e he => (h.values q hq e he).readsBack hσ (ht.symbols q.1 (List.of_mem_zip hq).1)
  rw [Schema.readJson, hsource]
  exact hmessage

/-! ## The catalogue -/

namespace Catalog

/-- Each message of the catalogue comes back from its projection if it is not too deep and all of
its unsigned numbers are accepted: loosely in its normal form, and strictly if all numbers of
enumerations have symbols. A message that is too deep is refused for its depth in both readings,
and one with a number out of range for its first such number. -/
theorem json_round_trip {t : MessageType} (ht : t ∈ types) {m : Message}
    (h : standard.Conforms t m) (limits : Limits) :
    ((m.depth ≤ limits.recursion ∧
        ∀ p ∈ standard.numbers t m, limits.range.accepts p.2 = true) →
      standard.readJson t .loose limits (standard.toJson t m) = .ok (standard.normalize t m) ∧
      (standard.unnamed t m = [] →
        standard.readJson t .strict limits (standard.toJson t m) = .ok m) ∧
      ∀ path rest, standard.unnamed t m = path :: rest →
        standard.readJson t .strict limits (standard.toJson t m) =
          .error (.parse s!"{path.message}.{path.field}"
            (Mismatch.unknownSymbol EnumType.unrecognizedSymbol).message)) ∧
    (limits.recursion < m.depth → ∀ coercion,
      standard.readJson t coercion limits (standard.toJson t m) =
        .error (.recursionLimit limits.recursion)) ∧
    ∀ path n,
      (standard.numbers t m).find? (fun p => !limits.range.accepts p.2) = some (path, n) →
      ∀ coercion, standard.readJson t coercion limits (standard.toJson t m) =
        .error (.rangeOverflow path n) := by
  have hread := Schema.readJson_toJson standard_wellFormed (standard_wellFormed t ht) h
  obtain ⟨hok, hdeep, hrange⟩ := settle_places ht h limits (standard.normalize t m)
  have hstrict := settle_strict ht h limits (standard.normalize t m)
  have hsymbols : settle Place.symbolFault? (standard.places t m) (standard.normalize t m) =
      match standard.unnamed t m with
      | [] => .ok (standard.normalize t m)
      | path :: _ => .error (.parse s!"{path.message}.{path.field}"
          (Mismatch.unknownSymbol EnumType.unrecognizedSymbol).message) := by
    rw [settle, findSome?_symbolFault, Schema.unnamed]
    cases ((standard.places t m).filter fun p => !p.hasSymbol).map (·.path) <;> rfl
  refine ⟨?_, ?_, ?_⟩
  · intro hlimits
    have hpass := hok.2 hlimits
    rw [hpass] at hstrict
    refine ⟨(hread .loose limits).trans hpass, ?_, ?_⟩
    · intro hnamed
      rw [hread, hstrict]
      refine hsymbols.trans ?_
      rw [hnamed, h.normalize_eq_self hnamed]
    · intro path rest hunnamed
      rw [hread, hstrict]
      refine hsymbols.trans ?_
      rw [hunnamed]
  · intro hdepth coercion
    rw [hread]
    cases coercion with
    | loose => exact hdeep hdepth
    | strict =>
      rw [hstrict, hdeep hdepth]
      rfl
  · intro path n hfirst coercion
    rw [hread]
    cases coercion with
    | loose => exact hrange path n hfirst
    | strict =>
      rw [hstrict, hrange path n hfirst]
      rfl

/-- A request with a number beyond the safe range and a number without a symbol. -/
def unnamedRequest : Message :=
  [[], [], [.uint64 9007199254740993], [.enum 7]]

/-- The request comes back from its projection loosely and in the full range only, and with the
unrecognized number. -/
theorem json_round_trip_instances :
    standard.readJson deleteAccount .loose { range := .full }
      (standard.toJson deleteAccount unnamedRequest) =
        .ok [[], [], [.uint64 9007199254740993], [.enum (-1)]] ∧
    standard.readJson deleteAccount .strict { range := .full }
      (standard.toJson deleteAccount unnamedRequest) =
        .error (.parse "message_definition.v1.DeleteAccountMessageFormat.profileType"
          "unknown enum symbol 'UNRECOGNIZED'") ∧
    standard.readJson deleteAccount .strict {} (standard.toJson deleteAccount unnamedRequest) =
      .error (.rangeOverflow ⟨deleteAccount.name, "userId"⟩ 9007199254740993) := by
  have hrequest := json_round_trip (t := deleteAccount) (by decide) (m := unnamedRequest)
    (by decide)
  obtain ⟨hloose, -, hstrict⟩ := (hrequest { range := .full }).1 (by decide)
  exact ⟨hloose, hstrict ⟨deleteAccount.name, "profileType"⟩ [] (by decide),
    (hrequest {}).2.2 _ _ (by decide) .strict⟩

end Catalog
end SchemaCodec
