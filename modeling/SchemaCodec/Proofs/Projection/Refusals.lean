import Mathlib
import SchemaCodec.Projection.Read
import SchemaCodec.Proofs.Catalog.Kinds
import SchemaCodec.Proofs.Schema.Symbols

/-!
# Proofs.Projection.Refusals — what a reading of a projection refuses

- `Place.symbolFault?`: the fault of a number without a symbol.
- `Coercion.fault?`: the fault of a place that a reading refuses: of its limits, and strictly also
  of a number without a symbol.

In the messages of the catalogue the limits come first (`Catalog.settle_strict`).
-/

namespace SchemaCodec

/-- The fault of a number without a symbol: what is written for it is no symbol. -/
def Place.symbolFault? (p : Place) : Option Fault :=
  if p.hasSymbol then none
  else some (.parse s!"{p.path.message}.{p.path.field}"
    (Mismatch.unknownSymbol EnumType.unrecognizedSymbol).message)

/-- Why a reading refuses what was projected from a place, if it does. -/
def Coercion.fault? (limits : Limits) : Coercion → Place → Option Fault
  | .loose, p => limits.fault? p
  | .strict, p => (limits.fault? p).or p.symbolFault?

/-- Why a source refuses what was projected from a place, if it does. -/
def FieldSource.fault? (src : FieldSource) : Place → Option Fault :=
  src.coercion.fault? src.limits

/-- The fault of the field of a number without a symbol. -/
theorem findSome?_symbolFault (ps : List Place) :
    ps.findSome? Place.symbolFault? =
      ((ps.filter fun p => !p.hasSymbol).map (·.path)).head?.map fun path =>
        .parse s!"{path.message}.{path.field}"
          (Mismatch.unknownSymbol EnumType.unrecognizedSymbol).message := by
  induction ps with
  | nil => rfl
  | cons p ps ih =>
    cases hsymbol : p.hasSymbol with
    | true => simp [Place.symbolFault?, hsymbol, ih]
    | false => simp [Place.symbolFault?, hsymbol]

/-- Two kinds of faults are found one after the other, if the second kind comes last. -/
theorem findSome?_or_of_pairwise {f g : Place → Option Fault} {ps : List Place}
    (h : ps.Pairwise fun p q => g p = none ∨ f q = none) :
    ps.findSome? (fun p => (f p).or (g p)) = (ps.findSome? f).or (ps.findSome? g) := by
  induction ps with
  | nil => rfl
  | cons p ps ih =>
    obtain ⟨hp, hps⟩ := List.pairwise_cons.1 h
    rw [List.findSome?_cons, List.findSome?_cons, List.findSome?_cons, ih hps]
    cases hf : f p with
    | some e => rfl
    | none =>
      cases hg : g p with
      | none => rfl
      | some e =>
        -- Behind a fault of the second kind there is none of the first.
        have hnone : ps.findSome? f = none := by
          rw [List.findSome?_eq_none_iff]
          intro q hq
          have hq' := hp q hq
          rw [hg] at hq'
          exact hq'.resolve_left (Option.some_ne_none e)
        rw [hnone]
        rfl

theorem Place.symbolFault?_of_kind {p : Place} (h : p.kind.enumeration? = none) :
    p.symbolFault? = none := by
  refine if_pos ?_
  unfold hasSymbol
  split
  next hkind _ =>
    rw [hkind] at h
    cases h
  next => rfl

theorem Limits.fault?_of_kind {σ : Schema} {limits : Limits} {p : Place}
    (h : p.value.Conforms σ p.kind) (hnumber : p.kind ≠ .uint64)
    (hreference : p.kind.reference? = none) : limits.fault? p = none := by
  unfold fault?
  generalize p.kind = kind at h hnumber hreference
  generalize p.value = value at h
  cases h with
  | uint64 n => exact absurd rfl hnumber
  | message => cases hreference
  | _ => rfl

/-- An order of the fields of a table without submessages is one of its places. -/
theorem pairwise_fieldPlaces {σ : Schema} {R : Kind → Kind → Prop} (hself : ∀ kind, R kind kind)
    {name : String} {d : Nat} {fields : List Field} {slots : List Slot}
    (hscalar : ∀ f ∈ fields, f.kind.reference? = none)
    (hfields : fields.Pairwise fun f g => R f.kind g.kind)
    (hvalues : ∀ q ∈ fields.zip slots, ∀ e ∈ q.2, e.Conforms σ q.1.kind) :
    (fieldPlaces σ name d fields slots).Pairwise fun p q => R p.kind q.kind := by
  induction slots generalizing fields with
  | nil => exact .nil
  | cons slot slots ih =>
    cases fields with
    | nil => exact .nil
    | cons f fs =>
      obtain ⟨hf, hfs⟩ := List.pairwise_cons.1 hfields
      rw [List.forall_mem_cons] at hscalar
      rw [List.zip_cons_cons, List.forall_mem_cons] at hvalues
      have hslot : ∀ p ∈ slotPlaces σ ⟨name, f.jsonName⟩ f.kind d slot, p.kind = f.kind := by
        intro p hp
        obtain ⟨e, he, hp⟩ := mem_slotPlaces_iff.1 hp
        exact (hvalues.1 e he).kind_of_scalar hscalar.1 hp
      rw [fieldPlaces, List.pairwise_append]
      refine ⟨?_, ih hscalar.2 hfs hvalues.2, ?_⟩
      · refine List.pairwise_of_forall_mem_list fun p hp q hq => ?_
        rw [hslot p hp, hslot q hq]
        exact hself f.kind
      · intro p hp q hq
        obtain ⟨r, hr, e, he, hq⟩ := mem_fieldPlaces_iff.1 hq
        have hr' := (List.of_mem_zip hr).1
        rw [hslot p hp, (hvalues.2 r hr e he).kind_of_scalar (hscalar.2 r.1 hr') hq]
        exact hf r.1 hr'

namespace Catalog

/-- In the types of the queue enumerations come after all unsigned numbers. -/
theorem queue_symbols_last : ∀ t ∈ queueFile.types.map (·.type),
    t.fields.Pairwise fun f g => f.kind.enumeration? = none ∨ g.kind ≠ .uint64 := by
  decide

/-- What the limits refuse in a message of the catalogue stands before the numbers without a
symbol. -/
theorem pairwise_places {t : MessageType} (ht : t ∈ types) {m : Message}
    (h : standard.Conforms t m) (limits : Limits) :
    (standard.places t m).Pairwise fun p q => p.symbolFault? = none ∨ limits.fault? q = none := by
  rcases List.mem_append.1 ht with hqueue | hgorm
  · have hself : ∀ kind : Kind, kind.enumeration? = none ∨ kind ≠ .uint64 := by
      intro kind
      cases kind <;> simp [Kind.enumeration?]
    have hpairs : (standard.places t m).Pairwise fun p q =>
        p.kind.enumeration? = none ∨ q.kind ≠ .uint64 :=
      pairwise_fieldPlaces (R := fun k k' => k.enumeration? = none ∨ k' ≠ .uint64) hself
        (queue_scalar t hqueue) (queue_symbols_last t hqueue) h.values
    refine hpairs.imp_of_mem fun {p q} hp hq hkinds => ?_
    rcases hkinds with hsymbol | hnumber
    · exact .inl (Place.symbolFault?_of_kind hsymbol)
    · exact .inr (Limits.fault?_of_kind (h.of_mem_places hq) hnumber
        (kind_of_queue_places hqueue h q hq))
  · refine List.pairwise_of_forall_mem_list fun p hp q hq => .inl ?_
    exact Place.symbolFault?_of_kind (kind_of_gorm_places hgorm h p hp).2

/-- A strict reading of a message of the catalogue looks at the limits first, and then at the
numbers without a symbol. -/
theorem settle_strict {α : Type} {t : MessageType} (ht : t ∈ types) {m : Message}
    (h : standard.Conforms t m) (limits : Limits) (a : α) :
    settle (Coercion.strict.fault? limits) (standard.places t m) a =
      settle limits.fault? (standard.places t m) a >>= fun a =>
        settle Place.symbolFault? (standard.places t m) a := by
  have hfind : (standard.places t m).findSome? (Coercion.strict.fault? limits) = _ :=
    findSome?_or_of_pairwise (pairwise_places ht h limits)
  rw [settle, hfind, settle]
  cases (standard.places t m).findSome? limits.fault? with
  | none => rfl
  | some e => rfl

end Catalog
end SchemaCodec
