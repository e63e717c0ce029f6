import Mathlib
import SchemaCodec.Projection.Read
import SchemaCodec.Proofs.Outcome

/-!
# Proofs.Projection.Reading — what a source can give

- `FieldSource.child`: the source that an object inside another object is.
- `FieldSource.nested`: the induction on how many more submessages may open.

A source that gives something was read in one of a few ways, and these are listed once for each of
its functions: `FieldSource.message_ok_iff`, `FieldSource.slot_ok` and
`FieldSource.element_message_ok`. In the other direction `FieldSource.slot_none`,
`FieldSource.slot_array`, `FieldSource.slot_single`, `FieldSource.element_of_deep`,
`FieldSource.element_of_open` and `FieldSource.element_object` say what is read from a value of a
known form.
-/

namespace SchemaCodec

namespace FieldSource

variable {σ : Schema} {src : FieldSource} {key : String} {kind : Kind}

/-! ## Scalars -/

theorem fit_ok_iff {α : Type} {r : Except Mismatch α} {a : α} :
    src.fit key r = .ok a ↔ r = .ok a := by
  cases r with
  | ok b => simp [fit, Except.mapError]
  | error e => simp [fit, Except.mapError]

theorem uint64_ok_iff {v : Json} {n : UInt64} :
    src.uint64 key v = .ok n ↔
      src.coercion.uint64 v = .ok n ∧ src.limits.range.accepts n = true := by
  rw [FieldSource.uint64]
  cases hread : src.coercion.uint64 v with
  | error e => simp [fit, Except.mapError]
  | ok n' =>
    simp only [fit, Except.mapError, Except.ok.injEq]
    by_cases hrange : src.limits.range.accepts n' = true
    · rw [if_pos hrange, Except.ok.injEq]
      constructor
      · rintro rfl
        exact ⟨rfl, hrange⟩
      · exact And.left
    · rw [if_neg hrange]
      constructor
      · intro h
        cases h
      · rintro ⟨rfl, haccepts⟩
        exact absurd haccepts hrange

theorem element_string {v : Json} :
    src.element σ key .string v = (src.fit key (src.coercion.string v)).map .string := by
  rw [element]

theorem element_bool {v : Json} :
    src.element σ key .bool v = (src.fit key (src.coercion.bool v)).map .bool := by
  rw [element]

theorem element_int32 {v : Json} :
    src.element σ key .int32 v = (src.fit key (src.coercion.int32 v)).map .int32 := by
  rw [element]

theorem element_uint64 {v : Json} :
    src.element σ key .uint64 v = (src.uint64 key v).map .uint64 := by
  rw [element]

theorem element_enum {type : EnumType} {v : Json} :
    src.element σ key (.enum type) v = (src.fit key (src.coercion.enum type v)).map .enum := by
  rw [element]

/-! ## Fields -/

theorem message_ok_iff {t : MessageType} {m : Message} :
    src.message σ t = .ok m ↔
      List.Forall₂ (fun f slot => src.slot σ f.jsonName f.kind f.repeated = .ok slot)
        t.fields m := by
  rw [message]
  exact mapM_ok_iff

theorem slot_none {repeated : Bool} (hget : src.get? key = none) :
    src.slot σ key kind repeated = .ok [] := by
  rw [slot.eq_def, hget]

theorem slot_array {items : List Json} (hget : src.get? key = some (.array items)) :
    src.slot σ key kind true = items.mapM fun item => src.element σ key kind item := by
  rw [slot.eq_def, hget]
  rfl

theorem slot_single {v : Json} (hget : src.get? key = some v) :
    src.slot σ key kind false = (src.element σ key kind v).map Slot.single := by
  rw [slot.eq_def, hget]
  rfl

/-- A slot was read from an array or from one value, or there was nothing to read it from. Loosely,
a list that is no array is nothing too. -/
theorem slot_ok {repeated : Bool} {slot : Slot}
    (h : src.slot σ key kind repeated = .ok slot) :
    (src.get? key = none ∧ slot = []) ∨
    (src.coercion = .loose ∧ slot = []) ∨
    (∃ items, repeated = true ∧ src.get? key = some (.array items) ∧
      List.Forall₂ (fun item e => src.element σ key kind item = .ok e) items slot) ∨
    ∃ v e, repeated = false ∧ src.get? key = some v ∧ src.element σ key kind v = .ok e ∧
      slot = Slot.single e := by
  cases hget : src.get? key with
  | none =>
    rw [slot_none hget] at h
    exact .inl ⟨rfl, (Except.ok.inj h).symm⟩
  | some v =>
    refine .inr ?_
    cases repeated with
    | true =>
      rw [FieldSource.slot.eq_def, hget] at h
      dsimp only at h
      rw [if_pos rfl] at h
      split at h
      next items => exact .inr (.inl ⟨items, rfl, rfl, mapM_ok_iff.1 h⟩)
      next hloose => exact .inl ⟨hloose, (Except.ok.inj h).symm⟩
      next => cases h
    | false =>
      rw [slot_single hget] at h
      rcases map_eq_ok_iff.1 h with ⟨e, he, rfl⟩
      exact .inr (.inr ⟨v, e, rfl, rfl, he, rfl⟩)

/-! ## Submessages -/

/-- The source that an object inside another one is, one level deeper. -/
def child (src : FieldSource) (t : MessageType) (members : List (String × Json)) : FieldSource :=
  { src with members := members, typeName := t.name, depth := src.depth + 1 }

/-- What is shown of a source may be shown of the objects inside it first, as long as submessages
may open. -/
theorem nested {P : FieldSource → Prop}
    (h : ∀ src : FieldSource, (src.depth + 1 ≤ src.limits.recursion →
      ∀ t members, P (src.child t members)) → P src) (src : FieldSource) : P src := by
  induction hroom : src.limits.recursion - src.depth using Nat.strong_induction_on
    generalizing src with
  | _ room ih =>
    refine h src ?_
    intro hopen t members
    refine ih _ ?_ (src.child t members) rfl
    simp only [child]
    omega

theorem element_of_deep {name : String} {v : Json}
    (hdeep : src.limits.recursion < src.depth + 1) :
    src.element σ key (.message name) v = .error (.recursionLimit src.limits.recursion) := by
  rw [element.eq_def]
  exact dif_pos hdeep

/-- A submessage that may open, without the proof that it makes progress. -/
theorem element_of_open {name : String} {v : Json}
    (hopen : src.depth + 1 ≤ src.limits.recursion) :
    src.element σ key (.message name) v =
      match v, src.coercion with
      | .object members, coercion =>
        match coercion, unknownKey? (σ.type name) members with
        | .strict, some key =>
          .error (.parse (σ.type name).name (Mismatch.unknownField key).message)
        | _, _ => ((src.child (σ.type name) members).message σ (σ.type name)).map .message
      | _, .loose => .ok (.message (σ.type name).empty)
      | _, .strict => .error (src.refuse key (.expected "an object" v.describe)) := by
  rw [element.eq_def]
  exact dif_neg (Nat.not_lt.2 hopen)

/-- An object whose keys are not refused is read as the message that it is. -/
theorem element_object {name : String} {members : List (String × Json)}
    (hopen : src.depth + 1 ≤ src.limits.recursion)
    (hkeys : src.coercion = .strict → unknownKey? (σ.type name) members = none) :
    src.element σ key (.message name) (.object members) =
      ((src.child (σ.type name) members).message σ (σ.type name)).map .message := by
  rw [element_of_open hopen]
  dsimp only
  split
  next hstrict hunknown =>
    rw [hkeys hstrict] at hunknown
    cases hunknown
  next => rfl

/-- A submessage was read from an object, or loosely from a value that is none. -/
theorem element_message_ok {name : String} {v : Json} {e : Element}
    (h : src.element σ key (.message name) v = .ok e) :
    src.depth + 1 ≤ src.limits.recursion ∧
    ((∃ members slots, v = .object members ∧
        (src.coercion = .strict → unknownKey? (σ.type name) members = none) ∧
        (src.child (σ.type name) members).message σ (σ.type name) = .ok slots ∧
        e = .message slots) ∨
      src.coercion = .loose ∧ e = .message (σ.type name).empty) := by
  by_cases hdeep : src.limits.recursion < src.depth + 1
  · rw [element_of_deep hdeep] at h
    cases h
  · have hopen := Nat.le_of_not_lt hdeep
    refine ⟨hopen, ?_⟩
    rw [element_of_open hopen] at h
    split at h
    next members =>
      split at h
      next => cases h
      next hknown =>
        rcases map_eq_ok_iff.1 h with ⟨slots, hslots, rfl⟩
        refine .inl ⟨members, slots, rfl, ?_, hslots, rfl⟩
        intro hstrict
        cases hunknown : unknownKey? (σ.type name) members with
        | none => rfl
        | some key => exact absurd hunknown (hknown key hstrict)
    next hloose =>
      cases h
      exact .inr ⟨hloose, rfl⟩
    next => cases h

end FieldSource
end SchemaCodec
