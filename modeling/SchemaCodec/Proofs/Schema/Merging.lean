import Mathlib
import SchemaCodec.Proofs.Schema.Conforming

/-!
# Proofs.Schema.Merging — one message behind another

- `Field.merge`, `MessageType.merge`: what a field, and a message, is after another message of its
  type has arrived.

Values that arrive one by one for a field make what the whole slot makes at once
(`Field.Admits.foldl_put`).
-/

namespace SchemaCodec

/-- The slot of a field after another slot: a list goes on, and a single value is replaced as a
whole by one that is not the default. -/
def Field.merge (f : Field) (old new : Slot) : Slot :=
  if f.repeated then old ++ new
  else if new.isEmpty then old
  else new

/-- The slots of fields after other slots of these fields. -/
def mergeSlots (fields : List Field) (olds news : List Slot) : List Slot :=
  List.zipWith (fun f q => f.merge q.1 q.2) fields (olds.zip news)

/-- A message of a type after another one: every field is merged on its own. -/
def MessageType.merge (t : MessageType) (old new : Message) : Message :=
  mergeSlots t.fields old new

theorem mergeSlots_cons (f : Field) (fields : List Field) (old new : Slot)
    (olds news : List Slot) :
    mergeSlots (f :: fields) (old :: olds) (new :: news) =
      f.merge old new :: mergeSlots fields olds news := rfl

theorem Field.merge_nil (f : Field) (slot : Slot) : f.merge [] slot = slot := by
  unfold merge
  cases slot with
  | nil => simp
  | cons e es => simp

/-- The values of a slot that arrive one by one are merged. -/
theorem Field.Admits.foldl_put {f : Field} {new : Slot} (h : f.Admits new) (old : Slot) :
    new.foldl f.put old = f.merge old new := by
  cases hrep : f.repeated with
  | true =>
    rw [Field.merge, hrep, if_pos rfl]
    clear h
    induction new generalizing old with
    | nil => simp
    | cons e es ih => simp [Field.put, hrep, ih]
  | false =>
    -- A singular field keeps its last value, and drops a default.
    rcases h hrep with ⟨hlen, hdefault⟩
    match new, hlen, hdefault with
    | [], _, _ => simp [Field.merge, hrep]
    | [e], _, hdefault =>
      have he : e.isDefault = false := hdefault e List.mem_cons_self
      simp [Field.put, Field.merge, hrep, Slot.single, he]

/-- Slots are what they add to empty ones. -/
theorem mergeSlots_empty {fields : List Field} {slots : List Slot}
    (hlen : slots.length = fields.length) :
    mergeSlots fields (fields.map fun _ => []) slots = slots := by
  induction fields generalizing slots with
  | nil => exact (List.length_eq_zero_iff.1 hlen).symm
  | cons f fields ih =>
    cases slots with
    | nil => cases hlen
    | cons slot slots =>
      rw [List.map_cons, mergeSlots_cons, f.merge_nil, ih (Nat.succ.inj hlen)]

theorem MessageType.merge_empty {t : MessageType} {m : Message}
    (hlen : m.length = t.fields.length) : t.merge t.empty m = m :=
  mergeSlots_empty hlen

end SchemaCodec
