import Mathlib
import SchemaCodec.Proofs.Projection.Reading
import SchemaCodec.Proofs.Settings.Restriction

/-!
# Proofs.Projection.Restriction — values under wider limits

The limits of a source show in unsigned numbers and where submessages open, and nowhere else. So
what is read from a value is what is read from it under wider limits, unless the limits refuse it:
`Schema.readJson_restricts`.
-/

namespace SchemaCodec

namespace FieldSource

/-- The source with other limits. -/
def within (src : FieldSource) (limits : Limits) : FieldSource :=
  { src with limits := limits }

variable {σ : Schema} {src : FieldSource} {l l' : Limits}

/-- What a source makes of every value is restricted by its limits only. -/
def Restricted (σ : Schema) (l' : Limits) (src : FieldSource) : Prop :=
  ∀ key kind v,
    src.limits.Restricts (src.element σ key kind v) ((src.within l').element σ key kind v)

theorem Restricted.slot (h : src.Restricted σ l') (key : String) (kind : Kind) (repeated : Bool) :
    src.limits.Restricts (src.slot σ key kind repeated)
      ((src.within l').slot σ key kind repeated) := by
  have hget : (src.within l').get? key = src.get? key := rfl
  have hcoercion : (src.within l').coercion = src.coercion := rfl
  rw [slot.eq_def, slot.eq_def, hget, hcoercion]
  cases src.get? key with
  | none => exact .refl _
  | some v =>
    dsimp only
    cases repeated with
    | false => exact (h key kind v).map Slot.single
    | true =>
      rw [if_pos rfl, if_pos rfl]
      split
      next items => exact .mapM fun item _ => h key kind item
      next => exact .refl _
      next => exact .refl _

theorem Restricted.message (h : src.Restricted σ l') (t : MessageType) :
    src.limits.Restricts (src.message σ t) ((src.within l').message σ t) := by
  rw [FieldSource.message, FieldSource.message]
  exact .mapM fun f _ => h.slot f.jsonName f.kind f.repeated

theorem uint64_restricts (hl : src.limits.Tighter l') (key : String) (v : Json) :
    src.limits.Restricts (src.uint64 key v) ((src.within l').uint64 key v) := by
  have hfit : (src.within l').fit key ((src.within l').coercion.uint64 v) =
      src.fit key (src.coercion.uint64 v) := rfl
  rw [FieldSource.uint64, FieldSource.uint64, hfit]
  cases src.fit key (src.coercion.uint64 v) with
  | error e => exact .refl _
  | ok n =>
    dsimp only
    by_cases hrange : src.limits.range.accepts n = true
    · have hwider : (src.within l').limits.range.accepts n = true := hl.accepts hrange
      rw [if_pos hrange, if_pos hwider]
      exact .refl _
    · -- The wider limits may accept the number or not: the tighter ones refuse it.
      rw [if_neg hrange]
      exact .inr ⟨_, rfl, Limits.refuses_of_not_accepts _ hrange⟩

/-- Sources under wider limits read the same from every value, unless their limits refuse it. -/
theorem restricted (σ : Schema) (l' : Limits) (src : FieldSource) :
    src.limits.Tighter l' → src.Restricted σ l' := by
  induction src using nested with
  | _ src ih =>
    intro hl key kind v
    cases kind with
    | string =>
      rw [element_string, element_string]
      exact .refl _
    | bool =>
      rw [element_bool, element_bool]
      exact .refl _
    | int32 =>
      rw [element_int32, element_int32]
      exact .refl _
    | uint64 =>
      rw [element_uint64, element_uint64]
      exact (uint64_restricts hl key v).map _
    | «enum» type =>
      rw [element_enum, element_enum]
      exact .refl _
    | message name =>
      by_cases hdeep : src.limits.recursion < src.depth + 1
      · rw [element_of_deep hdeep]
        exact .inr ⟨_, rfl, .recursion⟩
      · have hopen : src.depth + 1 ≤ src.limits.recursion := Nat.le_of_not_lt hdeep
        have hwider : (src.within l').depth + 1 ≤ (src.within l').limits.recursion :=
          Nat.le_trans hopen hl.recursion
        have hcoercion : (src.within l').coercion = src.coercion := rfl
        rw [element_of_open hopen, element_of_open hwider, hcoercion]
        split
        next members =>
          -- Keys are looked at before the object inside is read, and by no limit.
          have hinner := (ih hopen (σ.type name) members hl).message (σ.type name)
          split
          next => exact .refl _
          next => exact hinner.map _
        next => exact .refl _
        next => exact .refl _

end FieldSource

theorem Schema.readJson_restricts (σ : Schema) (t : MessageType) {l l' : Limits}
    (hl : l.Tighter l') (coercion : Coercion) (v : Json) :
    l.Restricts (σ.readJson t coercion l v) (σ.readJson t coercion l' v) := by
  rw [readJson, readJson, FieldSource.ofJson, FieldSource.ofJson]
  cases FieldSource.membersOf? coercion v with
  | none => exact .refl _
  | some members =>
    have hmessage : l.Restricts (FieldSource.message σ ⟨members, t.name, coercion, l, 0⟩ t)
        (FieldSource.message σ ⟨members, t.name, coercion, l', 0⟩ t) :=
      (FieldSource.restricted σ l' ⟨members, t.name, coercion, l, 0⟩ hl).message t
    dsimp only
    cases coercion with
    | loose => exact hmessage
    | strict =>
      cases FieldSource.unknownKey? t members with
      | none => exact hmessage
      | some key => exact .refl _

end SchemaCodec
