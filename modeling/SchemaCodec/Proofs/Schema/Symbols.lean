import Mathlib
import SchemaCodec.Proofs.Schema.Places

/-!
# Proofs.Schema.Symbols — numbers of enumerations with and without a symbol

- `Element.normalize`, `Schema.normalize`: a message with every number that has no symbol replaced
  by the unrecognized one.
- `Schema.unnamed`: the fields of the numbers without a symbol.
- `Place.Recognized`: the number at a place has a symbol, or is the unrecognized one.

Symbols and numbers are inverse to each other (`EnumType.Faithful.numberOf?_symbolFor`), and a
message whose numbers are all recognized is normal (`Schema.Conforms.normalize_of_recognized`), as
one is whose numbers all have symbols (`Schema.Conforms.normalize_eq_self`).
-/

namespace SchemaCodec

/-- The symbol written for a number denotes that number, if it has a symbol of its own. -/
theorem EnumType.Faithful.numberOf?_symbolFor {e : EnumType} (h : e.Faithful) (n : Int32) :
    e.numberOf? (e.symbolFor n) = if (e.symbolOf? n).isSome then some n else none := by
  unfold symbolFor symbolOf?
  cases hfind : e.find? n with
  | none =>
    -- What is written for such a number is the symbol that no value has.
    have hnone : e.values.find? (fun v => v.symbol == unrecognizedSymbol) = none := by
      rw [List.find?_eq_none]
      intro v hv hsymbol
      exact h.recognized (List.mem_map.2 ⟨v, hv, by simpa using hsymbol⟩)
    simp [numberOf?, hnone]
  | some v =>
    have hmem : v ∈ e.values := List.mem_of_find?_eq_some hfind
    have hnumber : v.number = n := by simpa using List.find?_some hfind
    have hsymbol : e.values.find? (fun v' => v'.symbol == v.symbol) = some v := by
      cases hfind' : e.values.find? (fun v' => v'.symbol == v.symbol) with
      | none => exact absurd (List.find?_eq_none.1 hfind' v hmem) (by simp)
      | some v' =>
        have hmem' : v' ∈ e.values := List.mem_of_find?_eq_some hfind'
        have hequal : v'.symbol = v.symbol := by simpa using List.find?_some hfind'
        rw [List.inj_on_of_nodup_map h.distinct hmem' hmem hequal]
    simp [numberOf?, hsymbol, hnumber]

theorem EnumType.symbolOf?_of_numberOf? {e : EnumType} {s : String} {n : Int32}
    (h : e.numberOf? s = some n) : (e.symbolOf? n).isSome = true := by
  rcases Option.map_eq_some_iff.1 h with ⟨value, hfind, rfl⟩
  rw [symbolOf?, Option.isSome_map, find?, List.find?_isSome]
  exact ⟨value, List.mem_of_find?_eq_some hfind, by simp⟩

/-! ## Normal messages -/

/-- The number that a number of a kind of enumeration is read as. -/
def Kind.recognize : Kind → Int32 → Int32
  | .enum type, n => if (type.symbolOf? n).isSome then n else EnumType.unrecognizedNumber
  | _, n => n

mutual
/-- A value of a kind with every number that has no symbol replaced by the unrecognized one. -/
def Element.normalize (σ : Schema) (kind : Kind) : Element → Element
  | .enum n => .enum (kind.recognize n)
  | .message slots => .message (normalizeSlots σ (σ.type kind.typeName).fields slots)
  | e => e

/-- Slots, each with the field that it belongs to, with every number that has no symbol replaced. -/
def normalizeSlots (σ : Schema) (fields : List Field) : List (List Element) → List (List Element)
  | [] => []
  | slot :: slots =>
    match fields with
    | [] => slot :: slots
    | f :: fs => normalizeSlot σ f.kind slot :: normalizeSlots σ fs slots

/-- The values of a slot with every number that has no symbol replaced. -/
def normalizeSlot (σ : Schema) (kind : Kind) : List Element → List Element
  | [] => []
  | e :: es => e.normalize σ kind :: normalizeSlot σ kind es
end

/-- A message of a type with every number of an enumeration that has no symbol replaced by the
unrecognized one. -/
def Schema.normalize (σ : Schema) (t : MessageType) (m : Message) : Message :=
  normalizeSlots σ t.fields m

/-- Whether the value at a place has a symbol, if it is a number of an enumeration. -/
def Place.hasSymbol (p : Place) : Bool :=
  match p.kind, p.value with
  | .enum type, .enum n => (type.symbolOf? n).isSome
  | _, _ => true

/-- The value at a place has a symbol or is the unrecognized number, if it is a number of an
enumeration. -/
def Place.Recognized (p : Place) : Prop :=
  p.hasSymbol = true ∨ p.value = .enum EnumType.unrecognizedNumber

/-- The fields of the numbers without a symbol, in the order in which they are read. -/
def Schema.unnamed (σ : Schema) (t : MessageType) (m : Message) : List FieldPath :=
  ((σ.places t m).filter fun p => !p.hasSymbol).map (·.path)

theorem Element.isDefault_normalize (σ : Schema) (kind : Kind) {e : Element}
    (h : e.isDefault = false) : (e.normalize σ kind).isDefault = false := by
  cases e with
  | «enum» n =>
    cases kind with
    | «enum» type =>
      simp only [normalize, Kind.recognize]
      split
      next => exact h
      next => rfl
    | _ => exact h
  | message slots => rfl
  | _ => exact h

theorem normalizeSlot_eq_self {σ : Schema} {kind : Kind} {es : List Element}
    (h : ∀ e ∈ es, e.normalize σ kind = e) : normalizeSlot σ kind es = es := by
  induction es with
  | nil => rfl
  | cons e es ih =>
    obtain ⟨he, hes⟩ := List.forall_mem_cons.1 h
    rw [normalizeSlot, he, ih hes]

theorem normalizeSlots_eq_self {σ : Schema} {fields : List Field} {slots : List Slot}
    (h : ∀ q ∈ fields.zip slots, ∀ e ∈ q.2, e.normalize σ q.1.kind = e) :
    normalizeSlots σ fields slots = slots := by
  induction slots generalizing fields with
  | nil => rfl
  | cons slot slots ih =>
    cases fields with
    | nil => rfl
    | cons f fs =>
      obtain ⟨hslot, hslots⟩ := List.forall_mem_cons.1 h
      rw [normalizeSlots, normalizeSlot_eq_self hslot, ih hslots]

theorem Kind.recognize_eq_self {type : EnumType} {n : Int32}
    (h : (type.symbolOf? n).isSome = true ∨ n = EnumType.unrecognizedNumber) :
    (Kind.enum type).recognize n = n := by
  rw [recognize]
  split
  next => rfl
  next hunnamed => exact (h.resolve_left hunnamed).symm

theorem Element.Conforms.normalize_eq_self {σ : Schema} {kind : Kind} {e : Element}
    (h : e.Conforms σ kind) (path : FieldPath) (d : Nat)
    (hnames : ∀ p ∈ e.places σ path kind d, p.Recognized) : e.normalize σ kind = e := by
  induction h generalizing path d with
  | enum type n =>
    have hname := hnames ⟨path, d, .enum type, .enum n⟩ (by simp [Element.places])
    rw [normalize, Kind.recognize_eq_self (hname.imp_right Element.enum.inj)]
  | message name slots hlen hadmits hvalues ih =>
    rw [normalize, Kind.typeName, normalizeSlots_eq_self]
    intro q hq e he
    refine ih q hq e he ⟨(σ.type name).name, q.1.jsonName⟩ (d + 1) ?_
    intro p hp
    refine hnames p ?_
    rw [Element.places]
    exact List.mem_cons_of_mem _ (mem_fieldPlaces_iff.2 ⟨q, hq, e, he, hp⟩)
  | _ => rfl

/-- A message whose numbers are all recognized is normal. -/
theorem Schema.Conforms.normalize_of_recognized {σ : Schema} {t : MessageType} {m : Message}
    (h : σ.Conforms t m) (hnames : ∀ p ∈ σ.places t m, p.Recognized) : σ.normalize t m = m := by
  refine normalizeSlots_eq_self ?_
  intro q hq e he
  refine (h.values q hq e he).normalize_eq_self ⟨t.name, q.1.jsonName⟩ 0 ?_
  intro p hp
  exact hnames p (mem_fieldPlaces_iff.2 ⟨q, hq, e, he, hp⟩)

/-- A message whose numbers all have symbols is normal. -/
theorem Schema.Conforms.normalize_eq_self {σ : Schema} {t : MessageType} {m : Message}
    (h : σ.Conforms t m) (hsymbols : σ.unnamed t m = []) : σ.normalize t m = m := by
  refine h.normalize_of_recognized ?_
  intro p hp
  have hfilter := List.filter_eq_nil_iff.1 (List.map_eq_nil_iff.1 hsymbols) p hp
  exact .inl (by simpa using hfilter)

end SchemaCodec
