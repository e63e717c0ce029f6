import Mathlib
import SchemaCodec.Catalog.Structs
import SchemaCodec.Proofs.Projection.Writing
import SchemaCodec.Proofs.Wire.Declared
import SchemaCodec.Proofs.Wire.Decomposition

/-!
# Proofs.Registry.Presence — both encodings omit the same fields

- `Record.Carries`: the record of a value of a field.
- `MessageType.Ordered`, `Field.Told`: the records and the members of a message, as a whole and
  field by field.
- `Structs.Presented`: the payload and the object of a struct have such records and members.

The writers of both encodings look at the values of a struct on their own, one by the declarations
and one by the field table. Both write what they would for the slots of its message
(`Structs.encode_eq`, `Structs.toJson_eq`). There the records of a field are those of the values in
its slot (`exists_records_of_slots`), and its member is what the slot is projected to.
-/

namespace SchemaCodec

/-- The record of a value of a field: the key of the field, and the payload of the value. -/
structure Record.Carries (σ : Schema) (f : Field) (r : Record) (e : Element) : Prop where
  number_eq : r.number = f.number
  bytes_eq : r.bytes = recordKey f.number f.wireType ++ e.payload σ f.kind

/-- The records of a message stand in the order of their numbers, and the members of its object in
that of their keys. Each belongs to a field of the type, and no member is `null`. -/
structure MessageType.Ordered (t : MessageType) (rs : List Record)
    (members : List (String × Json)) : Prop where
  records_ascending : rs.Pairwise fun r r' => r.number ≤ r'.number
  records_known : ∀ r ∈ rs, ∃ f ∈ t.fields, r.number = f.number
  keys_ascending : members.Pairwise fun a b => a.1 < b.1
  keys_known : ∀ a ∈ members, (∃ f ∈ t.fields, a.1 = f.jsonName) ∧ a.2 ≠ .null

/-- What records and members tell of a field with values, under the condition that it is present.
Otherwise it has neither a record nor a member. A singular field that is present has one record and
one value, and a repeated one has a record and an item for each of its values. -/
structure Field.Told (σ : Schema) (f : Field) (es : List Element) (present : Prop)
    (rs : List Record) (members : List (String × Json)) : Prop where
  record_iff : (∃ r ∈ rs, r.number = f.number) ↔ present
  key_iff : f.jsonName ∈ members.map (·.1) ↔ present
  singular : f.repeated = false → present →
    ∃ r e, Record.numbered f.number rs = [r] ∧ es = [e] ∧ r.Carries σ f e ∧
      members.lookup f.jsonName = some (e.toJson σ f.kind)
  repeated : f.repeated = true → present →
    List.Forall₂ (Record.Carries σ f) (Record.numbered f.number rs) es ∧
      members.lookup f.jsonName = some (.array (es.map (Element.toJson σ f.kind)))

/-- The payload of a struct is made of records in one way, its object has members, and these tell
of each field what it holds. A field is present if its value is not the one of a new struct. Both
encodings of the struct are those of the message that it stands for, and what stands for a struct
inside is written as that struct. -/
structure Structs.Presented (δ : Structs) (σ : Schema) (s : Struct) : Prop where
  encode_eq : δ.encode s = σ.encode (σ.type s.typeName) (δ.message σ s)
  toJson_eq : δ.toJson σ s = σ.toJson (σ.type s.typeName) (δ.message σ s)
  inner : ∀ p ∈ (δ.attributes s.typeName).zip s.values, ∀ r ∈ p.2.inner,
    (Element.message (δ.message σ r)).payload σ p.1.kind = counted (δ.encode r) ∧
      (Element.message (δ.message σ r)).toJson σ p.1.kind = δ.toJson σ r
  told : ∃ rs members, (∀ qs, Record.concat qs = δ.encode s ↔ qs = rs) ∧
    δ.toJson σ s = .object members ∧ (σ.type s.typeName).Ordered rs members ∧
    ∀ f ∈ (σ.type s.typeName).fields, ∃ v,
      (f.declared, v) ∈ (δ.attributes s.typeName).zip s.values ∧
      f.Told σ ((v.map (δ.message σ)).slot f.kind) (v ≠ f.declared.default) rs members

/-! ## Records of slots -/

section Records

variable {σ : Schema}

/-- The key in front of a record is told by the bytes of the record. -/
theorem Record.number_of_bytes {r : Record} {number : Nat} (hbound : number < 2 ^ 29)
    {w : WireType} {rest : List UInt8} (h : r.bytes = recordKey number w ++ rest) :
    r.number = number := by
  rcases exists_numeral_recordKey hbound w with ⟨key, hkey, hnumber, -⟩
  rw [Record.bytes, ← hkey] at h
  rw [Record.number, (Numeral.prefixFree h).1, hnumber]

/-- Each value of a slot has a record. -/
theorem exists_records_of_values {t : MessageType} (ht : t.WellFormed) {f : Field}
    (hf : f ∈ t.fields) {es : List Element} (hes : ∀ e ∈ es, e.Returns σ f.kind) :
    ∃ rs, List.Forall₂ (Record.Carries σ f) rs es ∧ Record.concat rs = slotRecords σ f es := by
  rcases List.append_of_mem hf with ⟨pre, post, hfields⟩
  induction es with
  | nil => exact ⟨[], .nil, rfl⟩
  | cons e es ih =>
    rcases List.forall_mem_cons.1 hes with ⟨he, hes⟩
    rcases exists_record_of_returns ht hfields he with ⟨r, hbytes, -⟩
    have hnumber := Record.number_of_bytes (ht.bounded f hf) hbytes
    rcases ih hes with ⟨rs, hrs, hconcat⟩
    refine ⟨r :: rs, .cons ⟨hnumber, hbytes⟩ hrs, ?_⟩
    rw [Record.concat_cons, hbytes, hconcat, slotRecords]

theorem Record.number_of_carries {f : Field} {rs : List Record} {es : List Element}
    (h : List.Forall₂ (Record.Carries σ f) rs es) : ∀ r ∈ rs, r.number = f.number := by
  induction h with
  | nil => exact fun r hr => absurd hr List.not_mem_nil
  | cons hr hrs ih => exact List.forall_mem_cons.2 ⟨hr.number_eq, ih⟩

/-- The records of the last fields of a table stand in ascending order, those of each field for the
values in its slot. -/
theorem exists_records_of_slots {t : MessageType} (ht : t.WellFormed) {fields : List Field}
    (hfields : ∀ f ∈ fields, f ∈ t.fields)
    (hasc : fields.Pairwise fun f g => f.number < g.number) {slots : List Slot}
    (hlen : slots.length = fields.length)
    (hvalues : ∀ q ∈ fields.zip slots, ∀ e ∈ q.2, e.Returns σ q.1.kind) :
    ∃ rs, Record.concat rs = fieldRecords σ fields slots ∧
      (rs.Pairwise fun r r' => r.number ≤ r'.number) ∧
      (∀ r ∈ rs, ∃ f ∈ fields, r.number = f.number) ∧
      ∀ q ∈ fields.zip slots,
        List.Forall₂ (Record.Carries σ q.1) (Record.numbered q.1.number rs) q.2 := by
  -- The records of the first slot have the number of its field, all later ones a greater number.
  induction slots generalizing fields with
  | nil =>
    cases fields with
    | nil => exact ⟨[], rfl, .nil, by simp, by simp⟩
    | cons f fs => cases hlen
  | cons slot slots ih =>
    cases fields with
    | nil => cases hlen
    | cons f fs =>
      rcases List.pairwise_cons.1 hasc with ⟨hbelow, hasc⟩
      rcases List.forall_mem_cons.1 hfields with ⟨hf, hfs⟩
      rw [List.zip_cons_cons, List.forall_mem_cons] at hvalues
      rcases exists_records_of_values ht hf hvalues.1 with ⟨rs, hrs, hconcat⟩
      rcases ih hfs hasc (Nat.succ.inj hlen) hvalues.2 with ⟨qs, hqs, hsorted, hknown, hslots⟩
      have hown := Record.number_of_carries hrs
      have hlater : ∀ r ∈ qs, f.number < r.number := by
        intro r hr
        rcases hknown r hr with ⟨g, hg, hnumber⟩
        rw [hnumber]
        exact hbelow g hg
      refine ⟨rs ++ qs, by rw [Record.concat_append, hconcat, hqs, fieldRecords], ?_, ?_, ?_⟩
      · refine List.pairwise_append.2 ⟨?_, hsorted, ?_⟩
        · refine List.pairwise_iff_forall_sublist.2 ?_
          intro r r' hsub
          have hmem := hsub.subset
          rw [hown r (hmem (by simp)), hown r' (hmem (by simp))]
        · intro r hr r' hr'
          rw [hown r hr]
          exact Nat.le_of_lt (hlater r' hr')
      · intro r hr
        rcases List.mem_append.1 hr with hr | hr
        · exact ⟨f, List.mem_cons_self, hown r hr⟩
        · rcases hknown r hr with ⟨g, hg, hnumber⟩
          exact ⟨g, List.mem_cons_of_mem _ hg, hnumber⟩
      · rw [List.zip_cons_cons, List.forall_mem_cons]
        constructor
        · have hnone := Record.numbered_eq_nil fun r hr => Nat.ne_of_gt (hlater r hr)
          rw [Record.numbered_append, Record.numbered_eq_self hown, hnone, List.append_nil]
          exact hrs
        · intro q hq
          -- The records in front are those of a field with a smaller number.
          have hfirst : f.number < q.1.number := hbelow q.1 (List.of_mem_zip hq).1
          have hnone : Record.numbered q.1.number rs = [] := by
            refine Record.numbered_eq_nil ?_
            intro r hr
            rw [hown r hr]
            exact Nat.ne_of_lt hfirst
          rw [Record.numbered_append, hnone, List.nil_append]
          exact hslots q hq

end Records

/-! ## Messages -/

section Messages

variable {σ : Schema} {t : MessageType} {m : Message}

/-- A field has a member exactly if its slot holds a value. -/
theorem key_mem_sortedMembers_iff (ht : t.WellFormed) {q : Field × Slot}
    (hq : q ∈ t.fields.zip m) :
    q.1.jsonName ∈ (sortedMembers σ t.fields m).map (·.1) ↔ q.2 ≠ [] := by
  have hlookup := lookup_sortedMembers (σ := σ) ht.keys hq
  rw [← not_iff_not, ← Json.lookup_eq_none_iff, hlookup, not_not]
  cases q.2 with
  | nil => exact iff_of_true rfl rfl
  | cons e es =>
    rw [lookup_slotMember_cons]
    exact iff_of_false (by simp) (by simp)

/-- The records and the members that the writers make of a message stand in order. -/
theorem ordered_of_records {rs : List Record}
    (hsorted : rs.Pairwise fun r r' => r.number ≤ r'.number)
    (hknown : ∀ r ∈ rs, ∃ f ∈ t.fields, r.number = f.number) :
    t.Ordered rs (sortedMembers σ t.fields m) := by
  refine ⟨hsorted, hknown, Json.ascending_foldl_insert .nil, ?_⟩
  intro a ha
  rcases mem_slotMembers_iff.1 (mem_slotMembers_of_sortedMembers ha) with ⟨q, hq, ha⟩
  rcases key_of_slotMember ha with ⟨hkey, hvalue⟩
  exact ⟨⟨q.1, (List.of_mem_zip hq).1, hkey⟩, hvalue⟩

/-- The records and the members that the writers make of a message tell the same of each field. -/
theorem told_of_records (ht : t.WellFormed) (hadmits : ∀ q ∈ t.fields.zip m, q.1.Admits q.2)
    {rs : List Record} (hslots : ∀ q ∈ t.fields.zip m,
      List.Forall₂ (Record.Carries σ q.1) (Record.numbered q.1.number rs) q.2) :
    ∀ q ∈ t.fields.zip m,
      q.1.Told σ q.2 (q.2 ≠ []) rs (sortedMembers σ t.fields m) := by
  intro q hq
  have hlookup : (sortedMembers σ t.fields m).lookup q.1.jsonName =
      (slotMember σ q.1 q.2).lookup q.1.jsonName := lookup_sortedMembers ht.keys hq
  refine ⟨?_, key_mem_sortedMembers_iff ht hq, ?_, ?_⟩
  · have hlength := (hslots q hq).length_eq
    rw [← List.length_pos_iff, ← hlength, List.length_pos_iff_exists_mem]
    exact exists_congr fun r => by simp [Record.numbered]
  · intro hsingle hslot
    rcases List.exists_cons_of_ne_nil hslot with ⟨e, es, hes⟩
    -- A singular field admits one value at most, so there is one record for it.
    obtain rfl : es = [] := by
      have hlength := (hadmits q hq hsingle).1
      rw [hes, List.length_cons] at hlength
      exact List.eq_nil_of_length_eq_zero (by omega)
    have hrecords := hslots q hq
    rw [hes] at hrecords
    rcases List.forall₂_cons_right_iff.1 hrecords with ⟨r, rest, hr, hrest, hnumbered⟩
    rw [List.forall₂_nil_right_iff.1 hrest] at hnumbered
    refine ⟨r, e, hnumbered, hes, hr, ?_⟩
    rw [hlookup, hes, lookup_slotMember_cons, hsingle, if_neg Bool.false_ne_true]
  · intro hrepeated hslot
    refine ⟨hslots q hq, ?_⟩
    rcases List.exists_cons_of_ne_nil hslot with ⟨e, es, hes⟩
    rw [hlookup, hes, lookup_slotMember_cons, if_pos hrepeated]

/-- A message has records and members, which tell of each field what stands in its slot. -/
theorem Schema.Conforms.told (hσ : σ.WellFormed) (ht : t.WellFormed) (h : σ.Conforms t m)
    (hlen : (σ.encode t m).length < 2 ^ 64) :
    ∃ rs members, (∀ qs, Record.concat qs = σ.encode t m ↔ qs = rs) ∧
      σ.toJson t m = .object members ∧ t.Ordered rs members ∧
      ∀ q ∈ t.fields.zip m, q.1.Told σ q.2 (q.2 ≠ []) rs members := by
  rcases exists_records_of_slots ht (fun f hf => hf) ht.ascending h.length_eq
    (h.returns hσ hlen) with ⟨rs, hconcat, hsorted, hknown, hslots⟩
  refine ⟨rs, sortedMembers σ t.fields m, ?_, rfl, ordered_of_records hsorted hknown,
    told_of_records ht h.admits hslots⟩
  intro qs
  constructor
  · intro hqs
    exact Record.concat_injective (hqs.trans hconcat.symm)
  · rintro rfl
    exact hconcat

/-- A message without any values has neither records nor members, and no other message has none. -/
theorem Schema.Conforms.nil_iff (hσ : σ.WellFormed) (ht : t.WellFormed) (h : σ.Conforms t m)
    (hlen : (σ.encode t m).length < 2 ^ 64) :
    (σ.encode t m = [] ↔ ∀ q ∈ t.fields.zip m, q.2 = []) ∧
      (σ.toJson t m = .object [] ↔ ∀ q ∈ t.fields.zip m, q.2 = []) := by
  rcases h.told hσ ht hlen with ⟨rs, members, hrecords, hobject, hordered, htold⟩
  have hbytes : σ.encode t m = [] ↔ rs = [] := by
    rw [eq_comm, ← Record.concat_nil, hrecords, eq_comm]
  rw [hbytes, hobject, Json.object.injEq]
  constructor
  · constructor
    · rintro rfl q hq
      by_contra hslot
      rcases (htold q hq).record_iff.2 hslot with ⟨r, hr, -⟩
      cases hr
    · intro hslots
      refine List.eq_nil_iff_forall_not_mem.2 ?_
      intro r hr
      rcases hordered.records_known r hr with ⟨f, hf, hnumber⟩
      rcases exists_mem_zip_of_field h.length_eq hf with ⟨q, hq, rfl⟩
      exact (htold q hq).record_iff.1 ⟨r, hr, hnumber⟩ (hslots q hq)
  · constructor
    · rintro rfl q hq
      by_contra hslot
      exact absurd ((htold q hq).key_iff.2 hslot) List.not_mem_nil
    · intro hslots
      refine List.eq_nil_iff_forall_not_mem.2 ?_
      intro a ha
      rcases hordered.keys_known a ha with ⟨⟨f, hf, hkey⟩, -⟩
      rcases exists_mem_zip_of_field h.length_eq hf with ⟨q, hq, rfl⟩
      exact (htold q hq).key_iff.1 (List.mem_map.2 ⟨a, ha, hkey⟩) (hslots q hq)

end Messages

/-! ## Structs -/

theorem Field.Told.congr {σ : Schema} {f : Field} {es : List Element} {p p' : Prop}
    {rs : List Record} {members : List (String × Json)} (h : f.Told σ es p rs members)
    (hp : p ↔ p') : f.Told σ es p' rs members := by
  rwa [← propext hp]

namespace Structs

variable {δ : Structs} {σ : Schema} {s : Struct}

theorem presented (hσ : σ.WellFormed) (h : δ.Describes σ) (hs : s.Typed δ)
    (hlen : (δ.encode s).length < 2 ^ 64) : δ.Presented σ s := by
  have hencode := encode_eq hσ h hs
  have htoJson := toJson_eq h hs
  refine ⟨hencode, htoJson, ?_, ?_⟩
  · intro p hp r hr
    have hr' : r.Typed δ := Struct.Typed.inside (.field (List.of_mem_zip hp).2 hr .self) hs
    rw [hs.fits.names p hp r hr, encode_eq hσ h hr', toJson_eq h hr']
    exact ⟨rfl, rfl⟩
  rw [hencode] at hlen ⊢
  rw [htoJson]
  rcases (hs.conforms h).told hσ (hσ.type s.typeName) hlen with
    ⟨rs, members, hrecords, hmembers, hordered, htold⟩
  refine ⟨rs, members, hrecords, hmembers, hordered, ?_⟩
  intro f hf
  have hfits := hs.fits
  rcases exists_mem_zip_of_field (length_values h hfits) hf with ⟨q, hq, rfl⟩
  -- The slot of a value is empty exactly if the value is the one of a new struct.
  refine ⟨q.2, mem_zip_attributes h hq,
    (htold _ (mem_zip_message h hfits hq)).congr (not_congr ?_)⟩
  exact (typed_of_zip h hfits hq).1.slot_eq_nil_iff (a := q.1.declared)
    (h.initial_eq s.typeName q.1 hf) _

/-- A struct with the value of a new one in each field is a new one. -/
theorem eq_default_iff (h : δ.Describes σ) (hs : s.Fits δ) :
    s = δ.default s.typeName ↔
      ∀ q ∈ (σ.type s.typeName).fields.zip s.values, q.2 = q.1.declared.default := by
  have hvalues : s = δ.default s.typeName ↔
      s.values = (σ.type s.typeName).fields.map fun f => f.declared.default := by
    cases s with
    | mk name vs =>
      simp [default, h.attributes_eq, Struct.typeName, Struct.values, Function.comp_def]
  rw [hvalues]
  exact eq_map_iff_forall_mem_zip (length_values h hs)

/-- The bytes of a struct are none exactly if its object has no members, and only new structs have
these. -/
theorem empty_iff (hσ : σ.WellFormed) (h : δ.Describes σ) (hs : s.Typed δ)
    (hlen : (δ.encode s).length < 2 ^ 64) :
    (δ.encode s = [] ↔ s = δ.default s.typeName) ∧
      (δ.toJson σ s = .object [] ↔ s = δ.default s.typeName) := by
  have hslots : (∀ q ∈ (σ.type s.typeName).fields.zip (δ.message σ s), q.2 = []) ↔
      s = δ.default s.typeName := by
    rw [eq_default_iff h hs.fits, zip_message h hs.fits, List.forall_mem_map]
    refine forall₂_congr fun q hq => ?_
    exact (typed_of_zip h hs.fits hq).1.slot_eq_nil_iff (a := q.1.declared)
      (h.initial_eq s.typeName q.1 (List.of_mem_zip hq).1) _
  rw [encode_eq hσ h hs] at hlen ⊢
  rw [toJson_eq h hs, ← hslots]
  exact (hs.conforms h).nil_iff hσ (hσ.type s.typeName) hlen

/-- The bytes of a struct inside another are some of the bytes of the other. -/
theorem length_encode_le (hσ : σ.WellFormed) (h : δ.Describes σ) {outer : Struct}
    (hinside : s.Inside outer) (houter : outer.Typed δ) :
    (δ.encode s).length ≤ (δ.encode outer).length := by
  induction hinside with
  | self => exact Nat.le_refl _
  | @field outer r v hv hr _ ih =>
    have hr' : r.Typed δ := Struct.Typed.inside (.field hv hr .self) houter
    have hfits := houter.fits
    rcases exists_mem_zip (length_values h hfits) hv with ⟨q, hq, rfl⟩
    -- The bytes of `r` stand behind their count in a record of the outer struct.
    have hpayload := payload_length_le_fieldRecords (σ := σ) (mem_zip_message h hfits hq)
      (FieldValue.mem_slot hr _)
    rw [(typed_of_zip h hfits hq).2 r hr] at hpayload
    calc (δ.encode s).length
        ≤ (δ.encode r).length := ih hr'
      _ ≤ (counted (δ.encode r)).length := by
          rw [counted, List.length_append]
          exact Nat.le_add_left _ _
      _ ≤ (δ.encode outer).length := by
          rw [encode_eq hσ h hr', encode_eq hσ h houter]
          exact hpayload

end Structs

/-! ## The catalogue -/

namespace Catalog

/-- The declarations of a type say what its field table does, row by row. -/
theorem attributes_of_mem :
    ∀ t ∈ types, structs.attributes t.name = t.fields.map Field.declared := by
  decide

theorem find?_eq_none_of_not_mem {α : Type} {name : α → String} {xs : List α} {s : String}
    (h : s ∉ xs.map name) : xs.find? (fun x => name x == s) = none := by
  refine List.find?_eq_none.2 ?_
  intro x hx heq
  exact h (List.mem_map.2 ⟨x, hx, eq_of_beq heq⟩)

/-- Only types of the catalogue have fields. -/
theorem type_cases (name : String) :
    (∃ t ∈ types, t.name = name) ∨
      (standard.type name).fields = [] ∧ structs.attributes name = [] := by
  have hnames : structs.types.map (·.name) ⊆ types.map (·.name) := by decide
  by_cases hname : name ∈ types.map (·.name)
  · exact .inl (List.mem_map.1 hname)
  · have htype : types.find? (fun t => t.name == name) = none :=
      find?_eq_none_of_not_mem hname
    have hstruct : structs.types.find? (fun t => t.name == name) = none :=
      find?_eq_none_of_not_mem (mt (@hnames name) hname)
    exact .inr ⟨by rw [Schema.type, standard, htype]; rfl,
      by rw [Structs.attributes, hstruct]; rfl⟩

/-- The declarations say what the field tables do. -/
theorem structs_describe : structs.Describes standard := by
  have hnames : ∀ t ∈ types, (t.fields.map (·.name)).Nodup := by decide
  have hinitial : ∀ t ∈ types, ∀ f ∈ t.fields, ∀ type ∈ f.kind.enumeration?,
      type.initial = 0 := by decide
  refine ⟨?_, ?_, ?_⟩ <;> intro name <;>
    rcases type_cases name with ⟨t, ht, rfl⟩ | ⟨hfields, hattributes⟩
  · rw [type_of_mem t ht]
    exact attributes_of_mem t ht
  · rw [hfields, hattributes]
    rfl
  · rw [type_of_mem t ht]
    exact hnames t ht
  · rw [hfields]
    exact .nil
  · rw [type_of_mem t ht]
    exact hinitial t ht
  · rw [hfields]
    exact fun f hf => absurd hf List.not_mem_nil

/-- Both encodings of a struct of the catalogue omit the same fields, and so do those of every
struct inside it: the fields with the values of a new struct. Only a new struct has an empty
payload, and only that one has an empty object. -/
theorem same_fields_omitted {t : MessageType} (ht : t ∈ types) {s : Struct}
    (hname : s.typeName = t.name) (hs : s.Typed structs)
    (hlen : (structs.encode s).length < 2 ^ 63) :
    standard.type s.typeName = t ∧
    (∀ s', s'.Inside s → structs.Presented standard s') ∧
    (structs.encode s = [] ↔ s = structs.default t.name) ∧
    (structs.toJson standard s = .object [] ↔ s = structs.default t.name) := by
  have hfits : (structs.encode s).length < 2 ^ 64 := Nat.lt_trans hlen (by norm_num)
  refine ⟨hname ▸ type_of_mem t ht, ?_, ?_⟩
  · intro s' hinside
    have hle := Structs.length_encode_le standard_wellFormed structs_describe hinside hs
    exact Structs.presented standard_wellFormed structs_describe (Struct.Typed.inside hinside hs)
      (Nat.lt_of_le_of_lt hle hfits)
  · rw [← hname]
    exact Structs.empty_iff standard_wellFormed structs_describe hs hfits

/-- A column with a name, and every other field as in a new one. -/
def namedColumn (name : String) : Struct :=
  .mk extraField.name [.string "", .string name, .message none, .string ""]

/-- Options with an empty column and a column that has a name only. -/
def columnSettings : Struct :=
  .mk messageOptions.name
    [.bool true, .messages [namedColumn "", namedColumn "id"], .string "", .bool false]

theorem namedColumn_typed (name : String) : (namedColumn name).Typed structs := by
  refine .mk _ (.of_forall₂ ?_) (by simp [namedColumn, Struct.values, FieldValue.inner])
  change List.Forall₂ _ Declared.extraField.attributes (namedColumn name).values
  exact .cons ⟨.string _, nofun⟩ (.cons ⟨.string _, nofun⟩ (.cons ⟨.message _ _, nofun⟩
    (.cons ⟨.string _, nofun⟩ .nil)))

theorem columnSettings_typed : columnSettings.Typed structs := by
  have hcolumns : ∀ r ∈ [namedColumn "", namedColumn "id"],
      Kind.message extraField.name = .message r.typeName := by
    simp [namedColumn, Struct.typeName]
  refine .mk _ (.of_forall₂ ?_)
    (by simp [columnSettings, Struct.values, FieldValue.inner, namedColumn_typed])
  change List.Forall₂ _ Declared.messageOptions.attributes columnSettings.values
  exact .cons ⟨.bool _, nofun⟩ (.cons ⟨.messages _ _, hcolumns⟩ (.cons ⟨.string _, nofun⟩
    (.cons ⟨.bool _, nofun⟩ .nil)))

/-- The bytes and the object of both columns are presented, also those of the empty one. -/
theorem same_fields_omitted_columnOptions :
    columnSettings.Typed structs ∧ structs.message standard columnSettings = columnOptions ∧
    (structs.encode columnSettings).length < 2 ^ 63 ∧
    structs.Presented standard columnSettings ∧
    structs.Presented standard (namedColumn "") ∧
    structs.Presented standard (namedColumn "id") ∧
    structs.encode columnSettings ≠ [] ∧ structs.toJson standard columnSettings ≠ .object [] := by
  have hmessage : structs.message standard columnSettings = columnOptions := by cbv
  have hlen : (structs.encode columnSettings).length < 2 ^ 63 := by
    rw [Structs.encode_eq standard_wellFormed structs_describe columnSettings_typed, hmessage]
    cbv
  rcases same_fields_omitted (t := messageOptions) (by decide) rfl columnSettings_typed hlen with
    ⟨-, hpresented, hbytes, hobject⟩
  have hset : columnSettings ≠ structs.default messageOptions.name := by
    intro heq
    cases heq
  have hcolumn (name : String)
      (hmem : namedColumn name ∈ [namedColumn "", namedColumn "id"]) :
      structs.Presented standard (namedColumn name) := by
    refine hpresented _ (.field (v := .messages [namedColumn "", namedColumn "id"]) ?_ hmem .self)
    simp [columnSettings, Struct.values]
  exact ⟨columnSettings_typed, hmessage, hlen, hpresented _ .self, hcolumn "" (by simp),
    hcolumn "id" (by simp), mt hbytes.1 hset, mt hobject.1 hset⟩

end Catalog
end SchemaCodec
