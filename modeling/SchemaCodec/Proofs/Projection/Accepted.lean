import Mathlib
import SchemaCodec.Proofs.Projection.Reading
import SchemaCodec.Proofs.Schema.Obeying
import SchemaCodec.Proofs.Schema.Settling
import SchemaCodec.Proofs.Schema.Symbols

/-!
# Proofs.Projection.Accepted — what a value may denote

A message that was read from a value is one of its type, its limits would refuse none of its places,
and a loose reading recognized all its numbers of enumerations: `Schema.readJson_obeys`.
-/

namespace SchemaCodec

/-- What a loose reading makes of a number of an enumeration has a symbol, or is the unrecognized
number. -/
theorem Coercion.recognized_of_loose {type : EnumType} {v : Json} {n : Int32}
    (h : loose.enum type v = .ok n) :
    (type.symbolOf? n).isSome = true ∨ n = EnumType.unrecognizedNumber := by
  cases hdefined : defined? type v with
  | none =>
    rw [enum, hdefined] at h
    exact .inr (Except.ok.inj h).symm
  | some i =>
    rw [enum, hdefined] at h
    cases h
    left
    cases v with
    | number x => exact (Option.filter_eq_some_iff.1 hdefined).2
    | string s => exact EnumType.symbolOf?_of_numberOf? hdefined
    | _ => cases hdefined

namespace FieldSource

variable {σ : Schema} {src : FieldSource} {key : String} {kind : Kind}

/-- The limits of a source refuse nothing at a place, and a loose source recognizes what is there. -/
def Accepts (src : FieldSource) (p : Place) : Prop :=
  src.limits.Passes p ∧ (src.coercion = .loose → p.Recognized)

/-- The messages of a source are accepted by it, if its values are. -/
theorem message_obeys {t : MessageType} {m : Message} (hm : src.message σ t = .ok m)
    (helement : ∀ key kind v e, src.element σ key kind v = .ok e →
      e.Obeys σ src.Accepts kind src.depth) : σ.Obeys src.Accepts t src.depth m := by
  refine Schema.obeys_of_slots ((message_ok_iff.1 hm).imp ?_)
  intro f slot hslot
  rcases slot_ok hslot with ⟨-, rfl⟩ | ⟨-, rfl⟩ | ⟨items, hrepeated, -, hitems⟩ |
    ⟨v, e, -, -, he, rfl⟩
  · exact ⟨f.admits_nil, fun e he => absurd he List.not_mem_nil⟩
  · exact ⟨f.admits_nil, fun e he => absurd he List.not_mem_nil⟩
  · refine ⟨f.admits_of_repeated hrepeated slot, ?_⟩
    intro e he
    rcases exists_of_forall₂ hitems he with ⟨item, -, hread⟩
    exact helement _ _ item e hread
  · refine ⟨f.admits_single e, ?_⟩
    intro e' he'
    rw [Slot.eq_of_mem_single he']
    exact helement _ _ v e he

/-- What a source makes of a value is accepted by it. -/
theorem element_obeys (src : FieldSource) : ∀ key kind v e, src.element σ key kind v = .ok e →
    e.Obeys σ src.Accepts kind src.depth := by
  induction src using nested with
  | _ src ih =>
    intro key kind v e he
    cases kind with
    | string =>
      rw [element_string] at he
      rcases map_eq_ok_iff.1 he with ⟨s, -, rfl⟩
      exact Element.obeys_scalar (.string s) rfl fun path => ⟨rfl, fun _ => .inl rfl⟩
    | bool =>
      rw [element_bool] at he
      rcases map_eq_ok_iff.1 he with ⟨b, -, rfl⟩
      exact Element.obeys_scalar (.bool b) rfl fun path => ⟨rfl, fun _ => .inl rfl⟩
    | int32 =>
      rw [element_int32] at he
      rcases map_eq_ok_iff.1 he with ⟨n, -, rfl⟩
      exact Element.obeys_scalar (.int32 n) rfl fun path => ⟨rfl, fun _ => .inl rfl⟩
    | uint64 =>
      rw [element_uint64] at he
      rcases map_eq_ok_iff.1 he with ⟨n, hn, rfl⟩
      have hrange := (uint64_ok_iff.1 hn).2
      exact Element.obeys_scalar (.uint64 n) rfl fun path => ⟨if_pos hrange, fun _ => .inl rfl⟩
    | «enum» type =>
      rw [element_enum] at he
      rcases map_eq_ok_iff.1 he with ⟨n, hn, rfl⟩
      refine Element.obeys_scalar (.enum type n) rfl fun path => ⟨rfl, ?_⟩
      intro hloose
      rw [hloose, fit_ok_iff] at hn
      exact (Coercion.recognized_of_loose hn).imp_right (congrArg Element.enum)
    | message name =>
      rcases element_message_ok he with ⟨hopen, hread⟩
      have hself : ∀ path slots,
          src.Accepts ⟨path, src.depth + 1, .message name, .message slots⟩ :=
        fun path slots => ⟨if_pos hopen, fun _ => .inl rfl⟩
      rcases hread with ⟨members, slots, -, -, hm, rfl⟩ | ⟨-, rfl⟩
      · have hslots := message_obeys hm (ih hopen (σ.type name) members)
        exact Element.obeys_message hslots fun path => hself path slots
      · -- What is no object was taken for one without members.
        have hempty := σ.obeys_empty src.Accepts (σ.type name) (src.depth + 1)
        exact Element.obeys_message hempty fun path => hself path _

theorem ofJson_ok {t : MessageType} {coercion : Coercion} {limits : Limits} {d : Nat} {v : Json}
    (h : ofJson t coercion limits d v = .ok src) :
    ∃ members, membersOf? coercion v = some members ∧
      src = ⟨members, t.name, coercion, limits, d⟩ := by
  rw [ofJson] at h
  split at h
  next => cases h
  next members hmembers =>
    refine ⟨members, hmembers, ?_⟩
    split at h
    next => cases h
    next => exact (Except.ok.inj h).symm

end FieldSource

/-- The limits refuse nothing in a message that was read under them, and its numbers of
enumerations are recognized if it was read loosely. -/
theorem Schema.readJson_obeys {σ : Schema} {t : MessageType} {coercion : Coercion}
    {limits : Limits} {v : Json} {m : Message} (h : σ.readJson t coercion limits v = .ok m) :
    σ.Obeys (fun p => limits.Passes p ∧ (coercion = .loose → p.Recognized)) t 0 m := by
  rw [readJson] at h
  split at h
  next => cases h
  next src hsrc =>
    rcases FieldSource.ofJson_ok hsrc with ⟨members, -, rfl⟩
    exact FieldSource.message_obeys h (FieldSource.element_obeys _)

end SchemaCodec
