import Mathlib
import SchemaCodec.Proofs.Schema.Conforming

/-!
# Proofs.Schema.Entries — a message value by value

- `fieldEntries`: the values of slots with their fields, in the order of the table.
- `Message.keep`: the first values of a message, with all fields behind them at their defaults.

The values that are kept are the first entries (`fieldEntries_keep`), and they are a message of the
same type (`Schema.Conforms.keep`).
-/

namespace SchemaCodec

/-- The values of slots, each with the field that it belongs to. -/
def fieldEntries (fields : List Field) (slots : List Slot) : List (Field × Element) :=
  (fields.zip slots).flatMap fun q => q.2.map (Prod.mk q.1)

/-- The first values of a message. The fields behind them are at their defaults, and the field in
which the values run out holds those in front. -/
def Message.keep : Nat → Message → Message
  | _, [] => []
  | n, slot :: slots => slot.take n :: keep (n - slot.length) slots

@[simp] theorem fieldEntries_nil (fields : List Field) : fieldEntries fields [] = [] := by
  simp [fieldEntries]

@[simp] theorem fieldEntries_cons (f : Field) (fields : List Field) (slot : Slot)
    (slots : List Slot) :
    fieldEntries (f :: fields) (slot :: slots) =
      slot.map (Prod.mk f) ++ fieldEntries fields slots := rfl

theorem mem_fieldEntries_iff {fields : List Field} {slots : List Slot} {p : Field × Element} :
    p ∈ fieldEntries fields slots ↔ ∃ q ∈ fields.zip slots, q.1 = p.1 ∧ p.2 ∈ q.2 := by
  constructor
  · intro hp
    obtain ⟨q, hq, hp⟩ := List.mem_flatMap.1 hp
    obtain ⟨e, he, rfl⟩ := List.mem_map.1 hp
    exact ⟨q, hq, rfl, he⟩
  · rintro ⟨q, hq, hfield, he⟩
    exact List.mem_flatMap.2 ⟨q, hq, List.mem_map.2 ⟨p.2, he, by rw [hfield]⟩⟩

namespace Message

@[simp] theorem length_keep (n : Nat) (m : Message) : (m.keep n).length = m.length := by
  induction m generalizing n with
  | nil => rfl
  | cons slot slots ih => simp [keep, ih]

/-- A slot that is kept is the front of the slot that the field had. -/
theorem exists_mem_zip_of_keep {fields : List Field} {n : Nat} {m : Message} {q : Field × Slot}
    (hq : q ∈ fields.zip (m.keep n)) : ∃ slot, (q.1, slot) ∈ fields.zip m ∧ q.2 <+: slot := by
  induction m generalizing fields n with
  | nil => simp [keep] at hq
  | cons slot slots ih =>
    cases fields with
    | nil => simp at hq
    | cons f fields =>
      rw [keep, List.zip_cons_cons] at hq
      rcases List.mem_cons.1 hq with rfl | hq
      · exact ⟨slot, by simp, List.take_prefix n slot⟩
      · obtain ⟨slot', hmem, hfront⟩ := ih hq
        exact ⟨slot', by simp [hmem], hfront⟩

end Message

/-- What is kept are the first values. -/
theorem fieldEntries_keep (fields : List Field) (n : Nat) (m : Message) :
    fieldEntries fields (m.keep n) = (fieldEntries fields m).take n := by
  induction m generalizing fields n with
  | nil => simp [Message.keep]
  | cons slot slots ih =>
    cases fields with
    | nil => simp [fieldEntries]
    | cons f fields =>
      rw [Message.keep, fieldEntries_cons, fieldEntries_cons, ih, List.take_append, List.map_take,
        List.length_map]

/-- What is kept of a message is a message of its type. -/
theorem Schema.Conforms.keep {σ : Schema} {t : MessageType} {m : Message} (h : σ.Conforms t m)
    (n : Nat) : σ.Conforms t (m.keep n) where
  length_eq := (m.length_keep n).trans h.length_eq
  admits := by
    intro q hq hsingular
    obtain ⟨slot, hmem, hfront⟩ := Message.exists_mem_zip_of_keep hq
    obtain ⟨hlen, hdefault⟩ := h.admits _ hmem hsingular
    exact ⟨hfront.length_le.trans hlen, fun e he => hdefault e (hfront.subset he)⟩
  values := by
    intro q hq e he
    obtain ⟨slot, hmem, hfront⟩ := Message.exists_mem_zip_of_keep hq
    exact h.values _ hmem e (hfront.subset he)

end SchemaCodec
