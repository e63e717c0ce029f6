import Mathlib
import SchemaCodec.Catalog.Standard
import SchemaCodec.Proofs.Json.RoundTrip
import SchemaCodec.Proofs.Projection.Members
import SchemaCodec.Proofs.Schema.Conforming

/-!
# Proofs.Projection.Printing — the objects of messages as text

- `Kind.nestsWithin`: how deep the tables of a schema let submessages be inside each other.
- `Schema.Conforms.printable`: the object of a message is printable, two levels for each level of
  the tables.

A submessage opens one object, and one array more where it stands in a list.
-/

namespace SchemaCodec

/-- Whether the values of a kind have at most `n` submessages inside each other, themselves
included, by the tables alone. -/
def Kind.nestsWithin (σ : Schema) : Nat → Kind → Bool
  | 0, .message _ => false
  | n + 1, .message name => (σ.type name).fields.all fun f => f.kind.nestsWithin σ n
  | _, _ => true

namespace Json

variable {levels more : Nat} {j : Json}

/-- More levels are enough where fewer are. -/
theorem Printable.mono (h : Printable levels j) (hle : levels ≤ more) : Printable more j := by
  induction h generalizing more with
  | null => exact .null more
  | bool _ b => exact .bool more b
  | integer _ n hfits => exact .integer more n hfits
  | string _ s => exact .string more s
  | array levels items h ih =>
    obtain ⟨k, rfl⟩ := Nat.exists_eq_add_of_le' (Nat.le_trans (Nat.le_add_left 1 levels) hle)
    exact .array k items fun v hv => ih v hv (Nat.le_of_succ_le_succ hle)
  | object levels members hkeys h ih =>
    obtain ⟨k, rfl⟩ := Nat.exists_eq_add_of_le' (Nat.le_trans (Nat.le_add_left 1 levels) hle)
    exact .object k members hkeys fun m hm => ih m hm (Nat.le_of_succ_le_succ hle)

end Json

section Printing

variable {σ : Schema} {n : Nat}

theorem printable_unsignedJson (u : UInt64) : (unsignedJson u).Printable n := by
  rw [unsignedJson]
  split
  next =>
    have hlt := u.toNat_lt
    refine .integer n _ (.inr ?_)
    simp [Numeric.fitsUInt64]
    omega
  next => exact .string n _

theorem printable_slotItems {kind : Kind} {es : List Element}
    (h : ∀ e ∈ es, (e.toJson σ kind).Printable n) : ∀ v ∈ slotItems σ kind es, v.Printable n := by
  induction es with
  | nil => exact fun v hv => absurd hv List.not_mem_nil
  | cons e es ih =>
    obtain ⟨he, hes⟩ := List.forall_mem_cons.1 h
    exact List.forall_mem_cons.2 ⟨he, ih hes⟩

/-- The member of a slot opens at most one level more than the values in it. -/
theorem printable_slotMember {f : Field} {slot : Slot}
    (h : ∀ e ∈ slot, (e.toJson σ f.kind).Printable n) :
    ∀ m ∈ slotMember σ f slot, m.2.Printable (n + 1) := by
  cases slot with
  | nil => exact fun m hm => absurd hm List.not_mem_nil
  | cons e es =>
    intro m hm
    rw [slotMember] at hm
    split at hm
    next =>
      rw [List.mem_singleton.1 hm]
      exact .array n _ (printable_slotItems h)
    next =>
      rw [List.mem_singleton.1 hm]
      exact (h e List.mem_cons_self).mono (Nat.le_succ n)

/-- An object opens two levels more than the values of the message. -/
theorem printable_sortedMembers {fields : List Field} {slots : List Slot}
    (h : ∀ q ∈ fields.zip slots, ∀ e ∈ q.2, (e.toJson σ q.1.kind).Printable n) :
    (Json.object (sortedMembers σ fields slots)).Printable (n + 2) := by
  refine .object (n + 1) _ (Json.ascending_foldl_insert .nil) ?_
  intro m hm
  rcases mem_slotMembers_iff.1 (mem_slotMembers_of_sortedMembers hm) with ⟨q, hq, hm⟩
  exact printable_slotMember (h q hq) m hm

theorem Element.Conforms.printable {kind : Kind} {e : Element} (h : e.Conforms σ kind)
    (hnests : kind.nestsWithin σ n = true) : (e.toJson σ kind).Printable (2 * n) := by
  induction h generalizing n with
  | string s => exact .string _ s
  | bool b => exact .bool _ b
  | int32 i =>
    refine .integer _ _ (.inl ?_)
    have hlower := i.le_toInt
    have hupper := i.toInt_lt
    simp [Numeric.fitsInt64]
    omega
  | uint64 u => exact printable_unsignedJson u
  | enum type i => exact .string _ _
  | message name slots hlen hadmits hvalues ih =>
    cases n with
    | zero => cases hnests
    | succ n =>
      -- The object of a submessage takes two levels, which is what one level of the tables gives.
      have hfields := List.all_eq_true.1 hnests
      exact printable_sortedMembers fun q hq e he =>
        ih q hq e he (hfields q.1 (List.of_mem_zip hq).1)

/-- The object of a message is printable, two levels for each level of the tables. -/
theorem Schema.Conforms.printable {t : MessageType} {m : Message} (h : σ.Conforms t m)
    (hnests : ∀ f ∈ t.fields, f.kind.nestsWithin σ n = true) :
    (σ.toJson t m).Printable (2 * n + 2) :=
  printable_sortedMembers fun q hq e he =>
    (h.values q hq e he).printable (hnests q.1 (List.of_mem_zip hq).1)

end Printing

/-- No table of the catalogue has more than three levels of submessages. -/
theorem Catalog.nestsWithin : ∀ t ∈ types, ∀ f ∈ t.fields, f.kind.nestsWithin standard 3 = true := by
  decide

end SchemaCodec
