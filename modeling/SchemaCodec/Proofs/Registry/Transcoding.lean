import Mathlib
import SchemaCodec.Proofs.Projection.Printing
import SchemaCodec.Proofs.Registry.Acceptance
import SchemaCodec.Proofs.Registry.Lookup

/-!
# Proofs.Registry.Transcoding — payloads there and back

- `Schema.SparesUnrecognized`: no enumeration has a symbol for the unrecognized number.
- `Registry.exists_type_of_get`: a name of the standard registry leads to a type of the catalogue.

A message and its normal form have the same object (`Schema.Conforms.toJson_normalize`), and the
object of a message is read back from its text (`Registry.parseJson_toJson`). So a payload that was
made from a text gives the same text again (`Registry.transcode_there_and_back`).
-/

namespace SchemaCodec

/-! ## Normal forms -/

/-- No enumeration of a schema has a symbol for the unrecognized number. -/
def Schema.SparesUnrecognized (σ : Schema) : Prop :=
  ∀ t ∈ σ.types, ∀ f ∈ t.fields, ∀ type ∈ f.kind.enumeration?,
    type.symbolOf? EnumType.unrecognizedNumber = none

instance (σ : Schema) : Decidable σ.SparesUnrecognized :=
  inferInstanceAs (Decidable (∀ t ∈ σ.types, _))

section Normal

variable {σ : Schema}

theorem Schema.SparesUnrecognized.type (h : σ.SparesUnrecognized) (name : String) :
    ∀ f ∈ (σ.type name).fields, ∀ type ∈ f.kind.enumeration?,
      type.symbolOf? EnumType.unrecognizedNumber = none := by
  unfold Schema.type
  cases hfind : σ.types.find? fun t => t.name == name with
  | some t => exact h t (List.mem_of_find?_eq_some hfind)
  | none => simp

/-- Numbers without a symbol are all written alike, the unrecognized one among them. -/
theorem Kind.symbolFor_recognize {kind : Kind}
    (h : ∀ type ∈ kind.enumeration?, type.symbolOf? EnumType.unrecognizedNumber = none)
    (n : Int32) : kind.symbolFor (kind.recognize n) = kind.symbolFor n := by
  cases kind with
  | «enum» type =>
    -- A number with a symbol is kept, and any other becomes one that has no symbol either.
    have hspare : type.symbolOf? EnumType.unrecognizedNumber = none := h type rfl
    rw [recognize]
    split
    next => rfl
    next hunnamed =>
      have hnone : type.symbolOf? n = none := Option.not_isSome_iff_eq_none.1 hunnamed
      simp only [symbolFor, EnumType.symbolFor, hspare, hnone]
  | _ => rfl

theorem slotMember_normalizeSlot {f : Field} {slot : Slot}
    (h : ∀ e ∈ slot, (e.normalize σ f.kind).toJson σ f.kind = e.toJson σ f.kind) :
    slotMember σ f (normalizeSlot σ f.kind slot) = slotMember σ f slot := by
  have hitems : ∀ es : List Element,
      (∀ e ∈ es, (e.normalize σ f.kind).toJson σ f.kind = e.toJson σ f.kind) →
      slotItems σ f.kind (normalizeSlot σ f.kind es) = slotItems σ f.kind es := by
    intro es hes
    induction es with
    | nil => rfl
    | cons e es ih =>
      rcases List.forall_mem_cons.1 hes with ⟨he, hes⟩
      rw [normalizeSlot, slotItems, slotItems, he, ih hes]
  cases slot with
  | nil => rfl
  | cons e es =>
    rcases List.forall_mem_cons.1 h with ⟨he, hes⟩
    rw [normalizeSlot, slotMember, slotMember, he, hitems es hes]

theorem slotMembers_normalizeSlots {fields : List Field} {slots : List Slot}
    (h : ∀ q ∈ fields.zip slots, ∀ e ∈ q.2,
      (e.normalize σ q.1.kind).toJson σ q.1.kind = e.toJson σ q.1.kind) :
    slotMembers σ fields (normalizeSlots σ fields slots) = slotMembers σ fields slots := by
  induction slots generalizing fields with
  | nil => rfl
  | cons slot slots ih =>
    cases fields with
    | nil => rfl
    | cons f fs =>
      rcases List.forall_mem_cons.1 h with ⟨hslot, hslots⟩
      rw [normalizeSlots, slotMembers, slotMembers, slotMember_normalizeSlot hslot, ih hslots]

theorem Element.Conforms.toJson_normalize (hσ : σ.SparesUnrecognized) {kind : Kind} {e : Element}
    (h : e.Conforms σ kind)
    (hkind : ∀ type ∈ kind.enumeration?, type.symbolOf? EnumType.unrecognizedNumber = none) :
    (e.normalize σ kind).toJson σ kind = e.toJson σ kind := by
  induction h with
  | enum type n =>
    have hsymbol := Kind.symbolFor_recognize hkind n
    rw [normalize, toJson, toJson, hsymbol]
  | message name slots hlen hadmits hvalues ih =>
    have hmembers : slotMembers σ (σ.type name).fields
        (normalizeSlots σ (σ.type name).fields slots) =
          slotMembers σ (σ.type name).fields slots :=
      slotMembers_normalizeSlots fun q hq e he =>
        ih q hq e he (hσ.type name q.1 (List.of_mem_zip hq).1)
    rw [normalize, toJson, toJson, Kind.typeName, hmembers]
  | _ => rfl

/-- A message and its normal form have the same object. -/
theorem Schema.Conforms.toJson_normalize (hσ : σ.SparesUnrecognized) {t : MessageType}
    (ht : t ∈ σ.types) {m : Message} (h : σ.Conforms t m) :
    σ.toJson t (σ.normalize t m) = σ.toJson t m := by
  have hmembers : slotMembers σ t.fields (normalizeSlots σ t.fields m) =
      slotMembers σ t.fields m :=
    slotMembers_normalizeSlots fun q hq e he =>
      (h.values q hq e he).toJson_normalize hσ (hσ t ht q.1 (List.of_mem_zip hq).1)
  rw [toJson, toJson, normalize, hmembers]

end Normal

theorem Catalog.standard_sparesUnrecognized : standard.SparesUnrecognized := by
  decide

namespace Registry

/-! ## The standard registry -/

/-- The standard registry is that of the codecs of the catalogue. -/
theorem standard_eq_ofCodecs :
    standard = ofCodecs (Catalog.types.map (Codec.mk Catalog.standard)) := by
  rw [ofCodecs, List.foldl_map]
  rfl

/-- A name of the standard registry leads to a type of the catalogue. -/
theorem exists_type_of_get {name : String} {c : Codec} (h : standard.get name = .ok c) :
    ∃ t ∈ Catalog.types, c = ⟨Catalog.standard, t⟩ := by
  rw [standard_eq_ofCodecs] at h
  have hmem := (ofCodecs_reflects _).mem_of_get h
  rcases List.mem_map.1 hmem with ⟨t, ht, rfl⟩
  exact ⟨t, ht, rfl⟩

/-- The object of a message of the catalogue is read back from its text. -/
theorem parseJson_toJson {t : MessageType} (ht : t ∈ Catalog.types) {m : Message}
    (h : Catalog.standard.Conforms t m) :
    parseJson (Text.utf8 (Catalog.standard.toJson t m).compact) =
      .ok (Catalog.standard.toJson t m) := by
  have hprintable := (h.printable (Catalog.nestsWithin t ht)).mono (show 2 * 3 + 2 ≤ 127 by decide)
  rw [parseJson, Text.ofUtf8?_utf8, Option.bind_some, Json.parse?_compact hprintable]

/-! ## There and back -/

theorem transcode_protobuf_ok_iff {r : Registry} {name : String} {b t : List UInt8}
    {limits : Limits} :
    r.transcode name b .protobuf limits = .ok t ↔ ∃ c json, r.get name = .ok c ∧
      c.decodeToJson limits b = .ok json ∧ Text.utf8 json.compact = t := by
  rw [transcode, bind_eq_ok_iff]
  constructor
  · rintro ⟨c, hc, hread⟩
    rcases bind_eq_ok_iff.1 hread with ⟨json, hjson, htext⟩
    exact ⟨c, json, hc, hjson, Except.ok.inj htext⟩
  · rintro ⟨c, json, hc, hjson, htext⟩
    exact ⟨c, hc, bind_eq_ok_iff.2 ⟨json, hjson, congrArg Except.ok htext⟩⟩

theorem transcode_json_ok_iff {r : Registry} {name : String} {t b : List UInt8}
    {limits : Limits} :
    r.transcode name t .json limits = .ok b ↔ ∃ c v, r.get name = .ok c ∧
      parseJson t = .ok v ∧ c.encodeJson limits v = .ok b := by
  rw [transcode, bind_eq_ok_iff]
  constructor
  · rintro ⟨c, hc, hread⟩
    rcases bind_eq_ok_iff.1 hread with ⟨v, hv, hwrite⟩
    exact ⟨c, v, hc, hv, hwrite⟩
  · rintro ⟨c, v, hc, hv, hwrite⟩
    exact ⟨c, hc, bind_eq_ok_iff.2 ⟨v, hv, hwrite⟩⟩

/-- A payload that has a text is made into the canonical form of its message by that text, with
every number without a symbol replaced by the unrecognized one, and this form gives the same text
again. It is what the message is written as, if all numbers have symbols. -/
theorem transcode_there_and_back {name : String} {b t : List UInt8} {limits : Limits}
    (h : standard.transcode name b .protobuf limits = .ok t) :
    ∃ c m, standard.get name = .ok c ∧ c.decode limits b = .ok m ∧
      ∃ b', b' = c.encode (c.schema.normalize c.type m) ∧
        standard.transcode name t .json limits = .ok b' ∧
        (b'.length < 2 ^ 63 → standard.transcode name b' .protobuf limits = .ok t) ∧
        (c.schema.unnamed c.type m = [] → b' = c.encode m) := by
  rcases transcode_protobuf_ok_iff.1 h with ⟨c, json, hc, hjson, rfl⟩
  rcases map_eq_ok_iff.1 hjson with ⟨m, hm, rfl⟩
  rcases exists_type_of_get hc with ⟨type, htype, rfl⟩
  have htable := Catalog.standard_wellFormed type htype
  have hobeys := Schema.decode_obeys Catalog.standard_wellFormed htable hm
  have hparse := parseJson_toJson htype hobeys.conforms
  have hback := hobeys.readJson_toJson Catalog.standard_wellFormed htable
  have hsame := hobeys.conforms.toJson_normalize Catalog.standard_sparesUnrecognized htype
  refine ⟨_, m, hc, hm, _, rfl, ?_, ?_, ?_⟩
  · -- The text is parsed back to the object, and the object is read as the normal form.
    have hencode : (Codec.mk Catalog.standard type).encodeJson limits
        (Catalog.standard.toJson type m) =
          .ok (Catalog.standard.encode type (Catalog.standard.normalize type m)) :=
      map_eq_ok_iff.2 ⟨_, hback, rfl⟩
    exact transcode_json_ok_iff.2 ⟨_, _, hc, hparse, hencode⟩
  · intro hlen
    -- What was read from the text keeps within the same limits, so it is read from its bytes too.
    have hnormal := Schema.readJson_passes hback
    have hdecode := hnormal.decode_encode Catalog.standard_wellFormed htable
      (Nat.lt_trans hlen (by norm_num))
    have hobject : (Codec.mk Catalog.standard type).decodeToJson limits
        (Catalog.standard.encode type (Catalog.standard.normalize type m)) =
          .ok (Catalog.standard.toJson type m) :=
      map_eq_ok_iff.2 ⟨_, hdecode, hsame⟩
    exact transcode_protobuf_ok_iff.2 ⟨_, _, hc, hobject, rfl⟩
  · intro hnamed
    have hself := hobeys.conforms.normalize_eq_self hnamed
    exact congrArg (Catalog.standard.encode type) hself

/-- The text of a request with a profile type that has no symbol. -/
def unrecognizedText : List UInt8 :=
  Text.utf8 "\x7b\"profileType\":\"UNRECOGNIZED\",\"userId\":7\x7d"

/-- The canonical form of the request, with the unrecognized number in ten bytes. -/
def unrecognizedPayload : List UInt8 :=
  [0x18, 0x07, 0x20, 0xFF, 0xFF, 0xFF, 0xFF, 0xFF, 0xFF, 0xFF, 0xFF, 0xFF, 0x01]

theorem transcode_there_and_back_instances :
    standard.transcode Catalog.deleteAccount.name Catalog.paddedPayload .protobuf {} =
      .ok unrecognizedText ∧
    standard.transcode Catalog.deleteAccount.name unrecognizedText .json {} =
      .ok unrecognizedPayload ∧
    standard.transcode Catalog.deleteAccount.name unrecognizedPayload .protobuf {} =
      .ok unrecognizedText := by
  have hget : standard.get Catalog.deleteAccount.name =
      .ok ⟨Catalog.standard, Catalog.deleteAccount⟩ := by
    rw [standard_eq_ofCodecs]
    exact (ofCodecs_reflects _).get_of_latest? rfl
  have hread : (Codec.mk Catalog.standard Catalog.deleteAccount).decode {} Catalog.paddedPayload =
      .ok [[], [], [.uint64 7], [.enum 7]] := by cbv
  have htext : standard.transcode Catalog.deleteAccount.name Catalog.paddedPayload .protobuf {} =
      .ok unrecognizedText :=
    transcode_protobuf_ok_iff.2 ⟨_, _, hget, map_eq_ok_iff.2 ⟨_, hread, rfl⟩, by cbv⟩
  rcases transcode_there_and_back htext with ⟨c, m, hc, hm, b', hb', hback, hagain, -⟩
  obtain rfl : ⟨Catalog.standard, Catalog.deleteAccount⟩ = c := Except.ok.inj (hget.symm.trans hc)
  obtain rfl : [[], [], [.uint64 7], [.enum 7]] = m := Except.ok.inj (hread.symm.trans hm)
  obtain rfl : b' = unrecognizedPayload := hb'.trans (by cbv)
  exact ⟨htext, hback, hagain (by decide)⟩

end Registry
end SchemaCodec
