import Mathlib
import SchemaCodec.Proofs.Projection.Members
import SchemaCodec.Proofs.Schema.Places
import SchemaCodec.Proofs.Schema.Structs

/-!
# Proofs.Projection.Writing — structs and messages have the same objects

- `Field.Writable`: there is a way of writing the fields of a table row.
- `Schema.Conforms.toJson_eq`: the object of a message is written slot by slot.
- `Structs.toJson_eq`: the object of a struct is the one of its message.

A field is written under a condition on its value, and a message has the members that its slots are
projected to. A slot is empty exactly if the value that it stands for is not written, for each of
the ways of writing (`Schema.writeField_eq`).
-/

namespace SchemaCodec

variable {δ : Structs} {σ : Schema}

theorem member_of_eq_false {w : ObjectWriter} {key : String} {value : Json} {omitted : Bool}
    (h : omitted = false) : w.member key value omitted = Json.insert key value w := by
  rw [h]
  rfl

/-! ## Messages -/

/-- Only texts and submessages are written as lists. -/
def Field.Writable (f : Field) : Prop :=
  f.repeated = true → f.kind = .string ∨ ∃ name, f.kind = .message name

namespace Schema

variable {f : Field} {e : Element} {es : List Element} {w : ObjectWriter}

/-- Nothing is written for the default of a field. -/
theorem writeField_nil (f : Field) (w : ObjectWriter) : σ.writeField f [] w = w := by
  unfold writeField Field.held Field.write
  cases f.kind <;> cases f.repeated <;> rfl

theorem writeField_single (hsingular : f.repeated = false) (he : e.Conforms σ f.kind)
    (hdefault : e.isDefault = false) :
    σ.writeField f [e] w = Json.insert f.jsonName (e.toJson σ f.kind) w := by
  unfold writeField Field.held Field.write
  rw [hsingular]
  generalize f.kind = kind at he ⊢
  cases he with
  | string s =>
    have hs : s.isEmpty = false := by simpa [Element.isDefault] using hdefault
    exact member_of_eq_false hs
  | bool b =>
    obtain rfl : b = true := by simpa [Element.isDefault] using hdefault
    rfl
  | int32 n => exact member_of_eq_false hdefault
  | uint64 n => exact member_of_eq_false hdefault
  | «enum» type n => exact member_of_eq_false hdefault
  | message name slots hlen hadmits hvalues => rfl

/-- The values of a field of texts are texts. -/
theorem exists_texts (h : ∀ e ∈ es, e.Conforms σ .string) :
    ∃ ss : List String, es = ss.map .string := by
  induction es with
  | nil => exact ⟨[], rfl⟩
  | cons e es ih =>
    obtain ⟨he, hes⟩ := List.forall_mem_cons.1 h
    obtain ⟨ss, rfl⟩ := ih hes
    cases he with
    | string s => exact ⟨s :: ss, rfl⟩

theorem writeField_cons (hrepeated : f.repeated = true) (hf : f.Writable)
    (hes : ∀ e' ∈ e :: es, e'.Conforms σ f.kind) :
    σ.writeField f (e :: es) w =
      Json.insert f.jsonName (.array ((e :: es).map (Element.toJson σ f.kind))) w := by
  unfold writeField Field.held Field.write
  rcases hf hrepeated with hkind | ⟨name, hkind⟩
  · rw [hkind] at hes
    obtain ⟨ss, hss⟩ := exists_texts hes
    have htexts : (e :: es).filterMap Element.text? = ss := by
      rw [hss, List.filterMap_map]
      exact List.filterMap_some
    have hitems : (e :: es).map (Element.toJson σ .string) = ss.map .string := by
      rw [hss, List.map_map]
      rfl
    have hsome : ss.isEmpty = false := by
      cases ss with
      | nil => cases hss
      | cons s ss => rfl
    rw [hkind, hrepeated, hitems]
    change ObjectWriter.strings w f.jsonName ((e :: es).filterMap Element.text?) = _
    rw [htexts]
    exact member_of_eq_false hsome
  · rw [hkind, hrepeated]
    rfl

/-- A field is written exactly if its slot has a member. -/
theorem writeField_eq {slot : Slot} (hf : f.Writable) (hadmits : f.Admits slot)
    (hvalues : ∀ e ∈ slot, e.Conforms σ f.kind) (w : ObjectWriter) :
    σ.writeField f slot w = (slotMember σ f slot).foldl (fun w a => Json.insert a.1 a.2 w) w := by
  cases slot with
  | nil => exact writeField_nil f w
  | cons e es =>
    rw [slotMember, slotItems_eq_map, ← List.map_cons]
    cases hrepeated : f.repeated with
    | true => exact writeField_cons hrepeated hf hvalues
    | false =>
      obtain ⟨hlen, hdefault⟩ := hadmits hrepeated
      -- A singular field has one value at most, and none that is a default.
      obtain rfl : es = [] := List.eq_nil_of_length_eq_zero (by simpa using hlen)
      exact writeField_single hrepeated (hvalues e (by simp)) (hdefault e (by simp))

theorem foldl_writeField {fields : List Field} {slots : List Slot}
    (h : ∀ q ∈ fields.zip slots, ∀ w, σ.writeField q.1 q.2 w =
      (slotMember σ q.1 q.2).foldl (fun w a => Json.insert a.1 a.2 w) w) (w : ObjectWriter) :
    (fields.zip slots).foldl (fun w q => σ.writeField q.1 q.2 w) w =
      (slotMembers σ fields slots).foldl (fun w a => Json.insert a.1 a.2 w) w := by
  induction slots generalizing fields w with
  | nil => rw [List.zip_nil_right, slotMembers, List.foldl_nil, List.foldl_nil]
  | cons slot slots ih =>
    cases fields with
    | nil => rfl
    | cons f fs =>
      obtain ⟨hf, hfs⟩ := List.forall_mem_cons.1 h
      rw [List.zip_cons_cons, List.foldl_cons, hf w, slotMembers, List.foldl_append]
      exact ih hfs _

/-- The object of a message is written slot by slot. -/
theorem Conforms.toJson_eq {t : MessageType} {m : Message} (h : σ.Conforms t m)
    (hrows : ∀ f ∈ t.fields, f.Writable) :
    σ.toJson t m = .object ((t.fields.zip m).foldl (fun w q => σ.writeField q.1 q.2 w) []) := by
  refine congrArg Json.object (foldl_writeField ?_ []).symm
  intro q hq w
  exact writeField_eq (hrows q.1 (List.of_mem_zip hq).1) (h.admits q hq) (h.values q hq) w

end Schema

/-! ## Structs -/

/-- The fields of typed values are those that there is a way of writing for. -/
theorem FieldValue.Typed.writable {f : Field} {v : FieldValue Struct}
    (h : v.Typed f.kind f.declared.label) : f.Writable := by
  intro hrepeated
  rw [Field.repeated_iff.1 hrepeated] at h
  generalize f.kind = kind at h ⊢
  cases h with
  | strings ss => exact .inl rfl
  | messages name ms => exact .inr ⟨name, rfl⟩

/-- A slot stands for the value that it was made of. -/
theorem scalar_single {α : Type} {kind : Kind} {e : Element}
    (h : e.isDefault = true → e = kind.zero) :
    (((Slot.single e).head?.getD kind.zero).scalar : FieldValue α) = e.scalar := by
  rw [Slot.single]
  split
  next hdefault => rw [List.head?_nil, Option.getD_none, ← h hdefault]
  next => rfl

/-- The objects of structs inside a value are those of their messages. -/
theorem toJson_inner {kind : Kind} {ss : List Struct}
    (h : ∀ s ∈ ss, kind = .message s.typeName ∧
      δ.toJson σ s = σ.toJson (σ.type s.typeName) (δ.message σ s)) :
    ((ss.map (δ.message σ)).map .message).map (Element.toJson σ kind) = ss.map (δ.toJson σ) := by
  rw [List.map_map, List.map_map]
  refine List.map_congr_left ?_
  intro s hs
  obtain ⟨hkind, hobject⟩ := h s hs
  rw [hobject, hkind]
  rfl

/-- What a field holds for the slot of a value is the value, if the structs inside have the objects
of their messages. -/
theorem FieldValue.Typed.held_slot {f : Field} {v : FieldValue Struct}
    (h : v.Typed f.kind f.declared.label)
    (hinner : ∀ s ∈ v.inner, f.kind = .message s.typeName ∧
      δ.toJson σ s = σ.toJson (σ.type s.typeName) (δ.message σ s)) :
    f.held σ ((v.map (δ.message σ)).slot f.kind) = v.map (δ.toJson σ) := by
  -- The table says whether a field is a list, the typing goes by its label.
  have hrepeated : f.repeated = decide (f.declared.label = .repeated) := by
    rw [Bool.eq_iff_iff, decide_eq_true_iff]
    exact Field.repeated_iff
  unfold Field.held
  rw [hrepeated]
  generalize f.declared.label = label at h
  generalize f.kind = kind at h hinner ⊢
  cases h with
  | string s => exact scalar_single (e := .string s) (by simp [Element.isDefault, Kind.zero])
  | bool b => exact scalar_single (e := .bool b) (by simp [Element.isDefault, Kind.zero])
  | int32 n => exact scalar_single (e := .int32 n) (by simp [Element.isDefault, Kind.zero])
  | uint64 n => exact scalar_single (e := .uint64 n) (by simp [Element.isDefault, Kind.zero])
  | «enum» type n =>
    exact scalar_single (e := .enum n) (by simp [Element.isDefault, Kind.zero])
  | strings ss =>
    refine congrArg FieldValue.strings ?_
    rw [FieldValue.map, slot, List.filterMap_map]
    exact List.filterMap_some
  | message name m =>
    refine congrArg FieldValue.message ?_
    cases m with
    | none => rfl
    | some s => exact congrArg List.head? (@toJson_inner δ σ _ [s] hinner)
  | messages name ms => exact congrArg FieldValue.messages (toJson_inner hinner)

namespace Structs

/-- A struct has the object of its message. -/
theorem toJson_eq (h : δ.Describes σ) {s : Struct} (hs : s.Typed δ) :
    δ.toJson σ s = σ.toJson (σ.type s.typeName) (δ.message σ s) := by
  induction hs with
  | mk s hfits hinner ih =>
    have hheld : ∀ q ∈ (σ.type s.typeName).fields.zip s.values,
        q.1.held σ ((q.2.map (δ.message σ)).slot q.1.kind) = q.2.map (δ.toJson σ) := by
      intro q hq
      obtain ⟨htyped, hnames⟩ := typed_of_zip h hfits hq
      exact htyped.held_slot fun r hr => ⟨hnames r hr, ih q.2 (List.of_mem_zip hq).2 r hr⟩
    have hrows : ∀ f ∈ (σ.type s.typeName).fields, f.Writable := by
      intro f hf
      obtain ⟨q, hq, rfl⟩ := exists_mem_zip_of_field (length_values h hfits) hf
      exact (typed_of_zip h hfits hq).1.writable
    have hconforms := (Struct.Typed.mk s hfits hinner).conforms h
    calc δ.toJson σ s
        = .object (((σ.type s.typeName).fields.zip s.values).foldl
            (fun w q => q.1.write (q.2.map (δ.toJson σ)) w) []) := by
          rw [toJson, Struct.fold_eq, rows_eq_zip h hfits, List.foldl_map]
      _ = .object (((σ.type s.typeName).fields.zip (δ.message σ s)).foldl
            (fun w q => σ.writeField q.1 q.2 w) []) := by
          rw [zip_message h hfits, List.foldl_map]
          refine congrArg Json.object (List.foldl_ext _ _ _ ?_)
          intro w q hq
          rw [Schema.writeField, hheld q hq]
      _ = σ.toJson (σ.type s.typeName) (δ.message σ s) := (hconforms.toJson_eq hrows).symm

end Structs
end SchemaCodec
