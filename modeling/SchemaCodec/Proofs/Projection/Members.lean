import Mathlib
import SchemaCodec.Projection.Read
import SchemaCodec.Projection.Write
import SchemaCodec.Proofs.Json.Members

/-!
# Proofs.Projection.Members — the objects that messages are projected to

- `sortedMembers`: the members of the object of a message.

A source finds under the key of a field what its slot was projected to (`get?_sortedMembers`), and
a strict one finds no other key (`unknownKey?_sortedMembers`).
-/

namespace SchemaCodec

theorem Element.toJson_ne_null {σ : Schema} {kind : Kind} (e : Element) :
    e.toJson σ kind ≠ .null := by
  cases e with
  | uint64 n =>
    rw [toJson, unsignedJson]
    split <;> exact Json.noConfusion
  | _ => exact Json.noConfusion

section Members

variable {σ : Schema}

/-- A slot has one member with the key of its field, or none if it is empty. -/
theorem slotMember_cases (f : Field) (slot : Slot) :
    slotMember σ f slot = [] ∨
      ∃ v, v ≠ Json.null ∧ slotMember σ f slot = [(f.jsonName, v)] := by
  cases slot with
  | nil => exact .inl rfl
  | cons e es =>
    right
    rw [slotMember]
    split
    next => exact ⟨_, Json.noConfusion, rfl⟩
    next => exact ⟨_, e.toJson_ne_null, rfl⟩

theorem slotItems_eq_map (kind : Kind) (es : List Element) :
    slotItems σ kind es = es.map (Element.toJson σ kind) := by
  induction es with
  | nil => rfl
  | cons e es ih => rw [slotItems, ih, List.map_cons]

/-- A slot that is not empty has a member: its value, or all of its values if its field is
repeated. -/
theorem lookup_slotMember_cons (f : Field) (e : Element) (es : List Element) :
    (slotMember σ f (e :: es)).lookup f.jsonName =
      some (if f.repeated then .array ((e :: es).map (Element.toJson σ f.kind))
        else e.toJson σ f.kind) := by
  rw [slotMember, slotItems_eq_map, List.map_cons]
  split <;> rw [Json.lookup_cons, if_pos rfl]

/-- The members of slots are those of the single slots. -/
theorem mem_slotMembers_iff {fields : List Field} {slots : List Slot} {a : String × Json} :
    a ∈ slotMembers σ fields slots ↔ ∃ q ∈ fields.zip slots, a ∈ slotMember σ q.1 q.2 := by
  induction slots generalizing fields with
  | nil => simp [slotMembers]
  | cons slot slots ih =>
    cases fields with
    | nil => simp [slotMembers]
    | cons f fs => simp [slotMembers, ih]

theorem key_of_slotMember {f : Field} {slot : Slot} {a : String × Json}
    (h : a ∈ slotMember σ f slot) : a.1 = f.jsonName ∧ a.2 ≠ .null := by
  rcases slotMember_cases (σ := σ) f slot with hnone | ⟨v, hv, hsome⟩
  · rw [hnone] at h
    cases h
  · rw [hsome] at h
    rw [List.mem_singleton.1 h]
    exact ⟨rfl, hv⟩

theorem key_mem_of_slotMembers {fields : List Field} {slots : List Slot} {key : String}
    (h : key ∈ (slotMembers σ fields slots).map (·.1)) : key ∈ fields.map (·.jsonName) := by
  rcases List.mem_map.1 h with ⟨a, ha, rfl⟩
  rcases mem_slotMembers_iff.1 ha with ⟨q, hq, ha⟩
  exact List.mem_map.2 ⟨q.1, (List.of_mem_zip hq).1, (key_of_slotMember ha).1.symm⟩

theorem nodup_slotMembers {fields : List Field} (hkeys : (fields.map (·.jsonName)).Nodup)
    (slots : List Slot) : ((slotMembers σ fields slots).map (·.1)).Nodup := by
  induction slots generalizing fields with
  | nil => exact .nil
  | cons slot slots ih =>
    cases fields with
    | nil => exact .nil
    | cons f fs =>
      obtain ⟨hf, hfs⟩ := List.nodup_cons.1 hkeys
      rw [slotMembers]
      rcases slotMember_cases (σ := σ) f slot with hnone | ⟨v, -, hsome⟩
      · rw [hnone]
        exact ih hfs
      · rw [hsome]
        exact List.nodup_cons.2 ⟨fun hmem => hf (key_mem_of_slotMembers hmem), ih hfs⟩

/-- The key of a field denotes what its own slot is projected to. -/
theorem lookup_slotMembers {fields : List Field} (hkeys : (fields.map (·.jsonName)).Nodup)
    {slots : List Slot} {q : Field × Slot} (hq : q ∈ fields.zip slots) :
    (slotMembers σ fields slots).lookup q.1.jsonName =
      (slotMember σ q.1 q.2).lookup q.1.jsonName := by
  induction slots generalizing fields with
  | nil => simp at hq
  | cons slot slots ih =>
    cases fields with
    | nil => simp at hq
    | cons f fs =>
      obtain ⟨hf, hfs⟩ := List.nodup_cons.1 hkeys
      rw [slotMembers, List.lookup_append]
      rcases List.mem_cons.1 hq with rfl | hq
      -- The key of the field is none of the others, so only one part of the list has it.
      · have hrest : (slotMembers σ fs slots).lookup f.jsonName = none :=
          Json.lookup_eq_none_iff.2 fun hmem => hf (key_mem_of_slotMembers hmem)
        rw [hrest, Option.or_none]
      · have hne : q.1.jsonName ≠ f.jsonName := by
          intro heq
          exact hf (List.mem_map.2 ⟨q.1, (List.of_mem_zip hq).1, heq⟩)
        have hfirst : (slotMember σ f slot).lookup q.1.jsonName = none := by
          rcases slotMember_cases (σ := σ) f slot with hnone | ⟨v, -, hsome⟩
          · rw [hnone]
            rfl
          · rw [hsome, Json.lookup_cons, if_neg hne]
            rfl
        rw [hfirst, Option.none_or, ih hfs hq]

/-- The members of an object that a message is projected to. -/
def sortedMembers (σ : Schema) (fields : List Field) (slots : List Slot) : List (String × Json) :=
  (slotMembers σ fields slots).foldl (fun sorted m => Json.insert m.1 m.2 sorted) []

/-- The key of a field denotes in the object what its own slot is projected to. -/
theorem lookup_sortedMembers {fields : List Field} (hkeys : (fields.map (·.jsonName)).Nodup)
    {slots : List Slot} {q : Field × Slot} (hq : q ∈ fields.zip slots) :
    (sortedMembers σ fields slots).lookup q.1.jsonName =
      (slotMember σ q.1 q.2).lookup q.1.jsonName := by
  rw [sortedMembers, Json.lookup_foldl_insert (nodup_slotMembers hkeys slots),
    lookup_slotMembers hkeys hq]
  exact Option.or_none

theorem mem_slotMembers_of_sortedMembers {fields : List Field} {slots : List Slot}
    {a : String × Json} (h : a ∈ sortedMembers σ fields slots) :
    a ∈ slotMembers σ fields slots :=
  (Json.mem_foldl_insert h).resolve_right List.not_mem_nil

/-- A source finds under the key of a field what its slot is projected to. -/
theorem get?_sortedMembers {fields : List Field} (hkeys : (fields.map (·.jsonName)).Nodup)
    {slots : List Slot} {q : Field × Slot} (hq : q ∈ fields.zip slots) {src : FieldSource}
    (hsrc : src.members = sortedMembers σ fields slots) :
    src.get? q.1.jsonName = (slotMember σ q.1 q.2).lookup q.1.jsonName := by
  have hlookup : src.members.lookup q.1.jsonName =
      (slotMember σ q.1 q.2).lookup q.1.jsonName := by
    rw [hsrc, lookup_sortedMembers hkeys hq]
  rw [FieldSource.get?, hlookup]
  rcases slotMember_cases (σ := σ) q.1 q.2 with hnone | ⟨v, hv, hsome⟩
  · rw [hnone]
    rfl
  · rw [hsome, Json.lookup_cons, if_pos rfl]
    cases v <;> first | contradiction | rfl

/-- A strict reading finds no key that the type lacks. -/
theorem unknownKey?_sortedMembers (t : MessageType) (slots : List Slot) :
    FieldSource.unknownKey? t (sortedMembers σ t.fields slots) = none := by
  rw [FieldSource.unknownKey?, Option.map_eq_none_iff, List.find?_eq_none]
  intro m hm
  have hkey := List.mem_map_of_mem (f := (·.1)) (mem_slotMembers_of_sortedMembers hm)
  obtain ⟨f, hf, heq⟩ := List.mem_map.1 (key_mem_of_slotMembers hkey)
  have hknown : t.fields.any (fun f => f.jsonName == m.1) = true :=
    List.any_eq_true.2 ⟨f, hf, by simpa using heq⟩
  simp [hknown]

end Members

end SchemaCodec
