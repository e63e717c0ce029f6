import Mathlib
import SchemaCodec.Proofs.Schema.Structs
import SchemaCodec.Proofs.Wire.RoundTrip

/-!
# Proofs.Wire.Declared — structs and messages have the same bytes

- `FieldValue.Typed.encode_eq`: the records of a declared field are those of its slot.
- `Structs.encode_eq`: the records of a struct are those of its message.

A struct is written by comparing each value with the one of a new struct, and a message by going
through its slots. Both leave the same fields out, since the declarations describe the field tables,
and bring the others in the same order, since the numbers in these ascend.
-/

namespace SchemaCodec

variable {δ : Structs} {σ : Schema}

/-- A plain field has a record unless its value is kept out of the slot. -/
theorem single_eq {f : Field} {e : Element} {payload : List UInt8} {omitted : Bool}
    (hpayload : e.payload σ f.kind = payload) (hdefault : e.isDefault = omitted) :
    f.declared.single f.wireType payload omitted = slotRecords σ f (Slot.single e) := by
  rw [Slot.single, Attribute.single, hdefault]
  cases omitted with
  | true => rfl
  | false =>
    rw [if_neg Bool.false_ne_true, if_neg Bool.false_ne_true, slotRecords_eq_flatMap,
      List.map_singleton, List.flatMap_singleton, Schema.entryBytes, hpayload]
    rfl

/-- What is written for several structs: a record for each of their messages. -/
theorem encode_inner {f : Field} {ss : List Struct}
    (h : ∀ s ∈ ss, f.kind = .message s.typeName ∧
      δ.encode s = σ.encode (σ.type s.typeName) (δ.message σ s)) :
    ((ss.map δ.encode).flatMap fun bytes => f.declared.record .lengthDelimited (counted bytes)) =
      slotRecords σ f ((ss.map (δ.message σ)).map .message) := by
  rw [slotRecords_eq_flatMap, List.flatMap_map, List.flatMap_map, List.flatMap_map,
    List.flatMap_map]
  refine List.flatMap_congr ?_
  intro s hs
  obtain ⟨hkind, hbytes⟩ := h s hs
  rw [hbytes, Schema.entryBytes, Field.wireType, hkind]
  rfl

/-- The records of a declared field are those of the slot of its value, if the structs inside have
the bytes of their messages. -/
theorem FieldValue.Typed.encode_eq {f : Field} {v : FieldValue Struct}
    (h : v.Typed f.kind f.declared.label)
    (hinitial : ∀ type ∈ f.kind.enumeration?, type.initial = 0)
    (hinner : ∀ s ∈ v.inner, f.kind = .message s.typeName ∧
      δ.encode s = σ.encode (σ.type s.typeName) (δ.message σ s)) :
    f.declared.encode (v.map δ.encode) =
      slotRecords σ f ((v.map (δ.message σ)).slot f.kind) := by
  -- A single value, with its payload and the condition that both writers make for it.
  have hsingle := @single_eq σ f
  rw [Field.wireType] at hsingle
  generalize hlabel : f.declared.label = label at h
  generalize hkind : f.kind = kind at h hinitial hsingle ⊢
  have hdeclared : f.declared.kind = kind := hkind
  unfold Attribute.encode
  rw [hdeclared, hlabel]
  cases h with
  | string s => exact hsingle (e := .string s) rfl rfl
  | bool b => cases b <;> exact hsingle (e := .bool _) rfl rfl
  | int32 n => exact hsingle (e := .int32 n) rfl rfl
  | uint64 n => exact hsingle (e := .uint64 n) rfl rfl
  | «enum» type n =>
    -- The declaration compares with the first value of the enumeration, the slot with zero.
    have hzero : (n == 0) = (n == type.initial) := by rw [hinitial type rfl]
    exact hsingle (e := .enum n) rfl hzero
  | strings ss =>
    change (ss.flatMap fun s => f.declared.record .lengthDelimited (counted (Text.utf8 s))) =
      slotRecords σ f (ss.map .string)
    rw [slotRecords_eq_flatMap, List.flatMap_map, List.flatMap_map]
    refine List.flatMap_congr ?_
    intro s _
    rw [Schema.entryBytes, Field.wireType, hkind]
    rfl
  | message name m => cases m <;> exact encode_inner hinner
  | messages name ms => exact encode_inner hinner

namespace Structs

/-- The fields of a struct stand in the order of their tags already. -/
theorem mergeSort_zip (h : δ.Describes σ) {name : String} (ht : (σ.type name).WellFormed)
    {α : Type} {vs : List α} (hlen : vs.length = (δ.attributes name).length) :
    (((δ.attributes name).zip vs).mergeSort fun p q => p.1.tag ≤ q.1.tag) =
      (δ.attributes name).zip vs := by
  refine List.mergeSort_of_pairwise ?_
  -- The tags are the numbers of the table.
  have hasc : (((δ.attributes name).zip vs).map Prod.fst).Pairwise fun a b => a.tag ≤ b.tag := by
    rw [List.map_fst_zip hlen.ge, h.attributes_eq, List.pairwise_map]
    exact ht.ascending.imp fun hlt => Nat.le_of_lt hlt
  rw [List.pairwise_map] at hasc
  exact hasc.imp fun hle => decide_eq_true hle

/-- A struct has the bytes of its message. -/
theorem encode_eq (hσ : σ.WellFormed) (h : δ.Describes σ) {s : Struct} (hs : s.Typed δ) :
    δ.encode s = σ.encode (σ.type s.typeName) (δ.message σ s) := by
  induction hs with
  | mk s hfits hinner ih =>
    have hlen : (s.values.map (FieldValue.map δ.encode)).length =
        (δ.attributes s.typeName).length := by
      rw [List.length_map, hfits.length_eq]
    calc δ.encode s
        = ((δ.attributes s.typeName).zip (s.values.map (FieldValue.map δ.encode))).flatMap
            fun p => p.1.encode p.2 := by
          rw [encode, Struct.fold_eq]
          exact congrArg (List.flatMap fun p => p.1.encode p.2)
            (mergeSort_zip h (hσ.type s.typeName) hlen)
      _ = ((σ.type s.typeName).fields.zip s.values).flatMap fun q =>
            q.1.declared.encode (q.2.map δ.encode) := by
          rw [zip_attributes h, List.zip_map_right, List.flatMap_map, List.flatMap_map]
          rfl
      _ = ((σ.type s.typeName).fields.zip s.values).flatMap fun q =>
            slotRecords σ q.1 ((q.2.map (δ.message σ)).slot q.1.kind) := by
          refine List.flatMap_congr ?_
          intro q hq
          obtain ⟨htyped, hnames⟩ := typed_of_zip h hfits hq
          have hmem := List.of_mem_zip hq
          exact htyped.encode_eq (h.initial_eq s.typeName q.1 hmem.1) fun r hr =>
            ⟨hnames r hr, ih q.2 hmem.2 r hr⟩
      _ = σ.encode (σ.type s.typeName) (δ.message σ s) := by
          rw [Schema.encode, fieldRecords_eq_zip, zip_message h hfits, List.flatMap_map]

end Structs
end SchemaCodec
