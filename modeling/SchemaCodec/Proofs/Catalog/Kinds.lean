import Mathlib
import SchemaCodec.Catalog.Standard
import SchemaCodec.Proofs.Schema.Settling

/-!
# Proofs.Catalog.Kinds — what the messages of the catalogue hold

The messages of the queue have no submessages, and those of the mapping have neither unsigned
numbers nor enumerations. So no message has both submessages and unsigned numbers inside
(`Catalog.places_flat_or_numbers_eq_nil`), and at most one of the two limits concerns it
(`Catalog.settle_places`).
-/

namespace SchemaCodec

namespace Catalog

theorem standard_wellFormed : standard.WellFormed := by
  unfold Schema.WellFormed
  decide

theorem type_of_mem : ∀ t ∈ types, standard.type t.name = t := by
  decide

/-- The types of the queue have no submessages. -/
theorem queue_scalar : ∀ t ∈ queueFile.types.map (·.type), ∀ f ∈ t.fields,
    f.kind.reference? = none := by
  decide

/-- The types of the mapping have no unsigned numbers and no enumerations, and refer to each other
only. -/
theorem gorm_closed : ∀ t ∈ gormFile.types.map (·.type), ∀ f ∈ t.fields,
    f.kind ≠ .uint64 ∧ f.kind.enumeration? = none ∧ ∀ name ∈ f.kind.reference?,
      standard.type name ∈ gormFile.types.map (·.type) := by
  decide

end Catalog

/-- A value of a kind that refers to no type has no values of other kinds inside. -/
theorem Element.Conforms.kind_of_scalar {σ : Schema} {kind : Kind} {e : Element}
    (h : e.Conforms σ kind) (hkind : kind.reference? = none) {path : FieldPath} {d : Nat}
    {p : Place} (hp : p ∈ e.places σ path kind d) : p.kind = kind := by
  cases h with
  | message => cases hkind
  | _ => rw [List.mem_singleton.1 hp]

namespace Catalog

/-- A value of the mapping has no unsigned numbers and no numbers of enumerations inside. -/
theorem kind_of_gorm {kind : Kind} {e : Element} (h : e.Conforms standard kind)
    (hkind : kind ≠ .uint64 ∧ kind.enumeration? = none ∧ ∀ name ∈ kind.reference?,
      standard.type name ∈ gormFile.types.map (·.type)) {path : FieldPath} {d : Nat}
    {p : Place} (hp : p ∈ e.places standard path kind d) :
    p.kind ≠ .uint64 ∧ p.kind.enumeration? = none := by
  induction h generalizing path d with
  | message name slots hlen hadmits hvalues ih =>
    rw [Element.places] at hp
    rcases List.mem_cons.1 hp with rfl | hp
    · exact ⟨hkind.1, hkind.2.1⟩
    · obtain ⟨q, hq, e, he, hp⟩ := mem_fieldPlaces_iff.1 hp
      have hname : standard.type name ∈ gormFile.types.map (·.type) := hkind.2.2 name rfl
      exact ih q hq e he (gorm_closed _ hname q.1 (List.of_mem_zip hq).1) hp
  | _ =>
    obtain rfl := List.mem_singleton.1 hp
    exact ⟨hkind.1, hkind.2.1⟩

theorem kind_of_queue_places {t : MessageType} (ht : t ∈ queueFile.types.map (·.type))
    {m : Message} (h : standard.Conforms t m) :
    ∀ p ∈ standard.places t m, p.kind.reference? = none := by
  intro p hp
  obtain ⟨q, hq, e, he, hp⟩ := mem_fieldPlaces_iff.1 hp
  have hscalar := queue_scalar t ht q.1 (List.of_mem_zip hq).1
  rw [(h.values q hq e he).kind_of_scalar hscalar hp]
  exact hscalar

theorem kind_of_gorm_places {t : MessageType} (ht : t ∈ gormFile.types.map (·.type))
    {m : Message} (h : standard.Conforms t m) :
    ∀ p ∈ standard.places t m, p.kind ≠ .uint64 ∧ p.kind.enumeration? = none := by
  intro p hp
  obtain ⟨q, hq, e, he, hp⟩ := mem_fieldPlaces_iff.1 hp
  exact kind_of_gorm (h.values q hq e he) (gorm_closed t ht q.1 (List.of_mem_zip hq).1) hp

/-- A message of the mapping has no unsigned numbers inside. -/
theorem numbers_eq_nil_of_gorm {t : MessageType} (ht : t ∈ gormFile.types.map (·.type))
    {m : Message} (h : standard.Conforms t m) : standard.numbers t m = [] := by
  refine List.filterMap_eq_nil_iff.2 fun p hp => ?_
  obtain ⟨hkind, -⟩ := kind_of_gorm_places ht h p hp
  have hconforms := h.of_mem_places hp
  rw [Place.number?]
  generalize p.kind = kind at hkind hconforms
  generalize p.value = value at hconforms
  cases hconforms with
  | uint64 n => exact absurd rfl hkind
  | _ => rfl

/-- No message of the catalogue has both submessages and unsigned numbers inside. -/
theorem places_flat_or_numbers_eq_nil {t : MessageType} (ht : t ∈ types) {m : Message}
    (h : standard.Conforms t m) :
    (∀ p ∈ standard.places t m, ∀ slots, p.value ≠ .message slots) ∨
      standard.numbers t m = [] := by
  rcases List.mem_append.1 ht with hqueue | hgorm
  · left
    intro p hp slots hvalue
    have hkind := kind_of_queue_places hqueue h p hp
    have hconforms := h.of_mem_places hp
    rw [hvalue] at hconforms
    generalize p.kind = kind at hkind hconforms
    cases hconforms
    cases hkind
  · exact .inr (numbers_eq_nil_of_gorm hgorm h)

/-- What a reader makes of a message of the catalogue: it passes the message if it is not too deep
and all of its numbers are accepted, and otherwise stops with the fault of its depth or of its
first number out of range. -/
theorem settle_places {α : Type} {t : MessageType} (ht : t ∈ types) {m : Message}
    (h : standard.Conforms t m) (limits : Limits) (a : α) :
    (settle limits.fault? (standard.places t m) a = .ok a ↔ m.depth ≤ limits.recursion ∧
      ∀ p ∈ standard.numbers t m, limits.range.accepts p.2 = true) ∧
    (limits.recursion < m.depth →
      settle limits.fault? (standard.places t m) a =
        .error (.recursionLimit limits.recursion)) ∧
    ∀ path n,
      (standard.numbers t m).find? (fun p => !limits.range.accepts p.2) = some (path, n) →
      settle limits.fault? (standard.places t m) a = .error (.rangeOverflow path n) := by
  refine ⟨h.settle_eq_ok_iff.trans (and_iff_left rfl), ?_, ?_⟩
  · intro hdeep
    rcases places_flat_or_numbers_eq_nil ht h with hflat | hnumbers
    -- A message without submessages is never too deep.
    · have hdepth : m.depth ≤ 0 :=
        (h.depth_iff 0).1 fun p hp slots hvalue => absurd hvalue (hflat p hp slots)
      omega
    · exact h.settle_of_depth hnumbers hdeep a
  · intro path n hfirst
    rcases places_flat_or_numbers_eq_nil ht h with hflat | hnumbers
    · exact settle_of_number hflat hfirst a
    · rw [hnumbers] at hfirst
      cases hfirst

end Catalog
end SchemaCodec
