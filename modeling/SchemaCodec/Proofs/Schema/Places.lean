import Mathlib
import SchemaCodec.Fault
import SchemaCodec.Proofs.Schema.Conforming

/-!
# Proofs.Schema.Places — what a message holds, and where

- `Message.depth`: how many submessages are inside each other.
- `Place`, `Schema.places`: every value of a message with its field, its depth and its kind, in the
  order in which the values are read.
- `Schema.numbers`: the unsigned 64-bit numbers of a message with their fields.

The depth of a message is that of its deepest place with a submessage (`Schema.Conforms.depth_iff`).
-/

namespace SchemaCodec

/-! ## Depth -/

mutual
/-- How many messages are inside each other in a value, itself included. -/
def Element.depth : Element → Nat
  | .message slots => slotsDepth slots + 1
  | _ => 0

def slotsDepth : List (List Element) → Nat
  | [] => 0
  | slot :: slots => max (slotDepth slot) (slotsDepth slots)

def slotDepth : List Element → Nat
  | [] => 0
  | e :: es => max e.depth (slotDepth es)
end

/-- How many submessages are inside each other in a message: 0 when none is set, otherwise one
more than the largest depth of a submessage that is set or listed. -/
def Message.depth (m : Message) : Nat :=
  slotsDepth m

theorem slotDepth_le_iff {slot : Slot} {n : Nat} :
    slotDepth slot ≤ n ↔ ∀ e ∈ slot, e.depth ≤ n := by
  induction slot with
  | nil => simp [slotDepth]
  | cons e es ih => simp [slotDepth, ih]

theorem Message.depth_le_iff {m : Message} {n : Nat} :
    m.depth ≤ n ↔ ∀ slot ∈ m, ∀ e ∈ slot, e.depth ≤ n := by
  unfold depth
  induction m with
  | nil => simp [slotsDepth]
  | cons slot slots ih => simp [slotsDepth, slotDepth_le_iff, ih]

/-! ## Places -/

/-- A value inside a message: the field that it belongs to, how many submessages it is in, itself
included, and its kind. -/
structure Place where
  path : FieldPath
  depth : Nat
  kind : Kind
  value : Element

mutual
/-- A value of a field with everything inside it, the outermost first. -/
def Element.places (σ : Schema) (path : FieldPath) (kind : Kind) (depth : Nat) :
    Element → List Place
  | .message slots =>
    let t := σ.type kind.typeName
    ⟨path, depth + 1, kind, .message slots⟩ :: fieldPlaces σ t.name (depth + 1) t.fields slots
  | e => [⟨path, depth, kind, e⟩]

/-- The places in slots, each with the field that it belongs to. -/
def fieldPlaces (σ : Schema) (name : String) (depth : Nat) (fields : List Field) :
    List (List Element) → List Place
  | [] => []
  | slot :: slots =>
    match fields with
    | [] => []
    | f :: fs =>
      slotPlaces σ ⟨name, f.jsonName⟩ f.kind depth slot ++ fieldPlaces σ name depth fs slots

/-- The places in the values of one field. -/
def slotPlaces (σ : Schema) (path : FieldPath) (kind : Kind) (depth : Nat) :
    List Element → List Place
  | [] => []
  | e :: es => e.places σ path kind depth ++ slotPlaces σ path kind depth es
end

/-- Every value of a message of a type, in the order in which the values are read. -/
def Schema.places (σ : Schema) (t : MessageType) (m : Message) : List Place :=
  fieldPlaces σ t.name 0 t.fields m

section Membership

variable {σ : Schema} {p : Place} {path : FieldPath} {kind : Kind} {depth : Nat}

theorem mem_slotPlaces_iff {es : List Element} :
    p ∈ slotPlaces σ path kind depth es ↔ ∃ e ∈ es, p ∈ e.places σ path kind depth := by
  induction es with
  | nil => simp [slotPlaces]
  | cons e es ih => simp [slotPlaces, ih]

theorem mem_fieldPlaces_iff {name : String} {fields : List Field} {slots : List Slot} :
    p ∈ fieldPlaces σ name depth fields slots ↔
      ∃ q ∈ fields.zip slots, ∃ e ∈ q.2, p ∈ e.places σ ⟨name, q.1.jsonName⟩ q.1.kind depth := by
  induction slots generalizing fields with
  | nil => simp [fieldPlaces]
  | cons slot slots ih =>
    cases fields with
    | nil => simp [fieldPlaces]
    | cons f fs => simp [fieldPlaces, mem_slotPlaces_iff, ih]

end Membership

theorem exists_mem_zip {α : Type} {fields : List Field} {xs : List α}
    (hlen : xs.length = fields.length) {x : α} (h : x ∈ xs) :
    ∃ q ∈ fields.zip xs, q.2 = x := by
  rw [← List.map_snd_zip hlen.le] at h
  exact List.mem_map.1 h

theorem exists_mem_zip_of_field {α : Type} {fields : List Field} {xs : List α}
    (hlen : xs.length = fields.length) {f : Field} (h : f ∈ fields) :
    ∃ q ∈ fields.zip xs, q.1 = f := by
  rw [← List.map_fst_zip hlen.ge] at h
  exact List.mem_map.1 h

/-- The depth of slots is that of their values, wherever these are looked for. -/
theorem fieldPlaces_depth_iff {σ : Schema} {fields : List Field} {slots : List Slot}
    {d limit : Nat} (name : String) (hlen : slots.length = fields.length)
    (hvalues : ∀ q ∈ fields.zip slots, ∀ e ∈ q.2, ∀ path,
      (∀ p ∈ e.places σ path q.1.kind d, ∀ inner, p.value = .message inner → p.depth ≤ limit) ↔
        e.depth ≤ limit - d) :
    (∀ p ∈ fieldPlaces σ name d fields slots, ∀ inner,
      p.value = .message inner → p.depth ≤ limit) ↔ Message.depth slots ≤ limit - d := by
  rw [Message.depth_le_iff]
  constructor
  · intro hplaces slot hslot e he
    obtain ⟨q, hq, rfl⟩ := exists_mem_zip hlen hslot
    rw [← hvalues q hq e he ⟨name, q.1.jsonName⟩]
    intro p hp
    exact hplaces p (mem_fieldPlaces_iff.2 ⟨q, hq, e, he, hp⟩)
  · intro hdepth p hp
    obtain ⟨q, hq, e, he, hp⟩ := mem_fieldPlaces_iff.1 hp
    exact (hvalues q hq e he _).2 (hdepth q.2 (List.of_mem_zip hq).2 e he) p hp

/-- The submessages inside a value are at places up to its depth. -/
theorem Element.Conforms.depth_iff {σ : Schema} {kind : Kind} {e : Element}
    (h : e.Conforms σ kind) (path : FieldPath) (d limit : Nat) :
    (∀ p ∈ e.places σ path kind d, ∀ slots, p.value = .message slots → p.depth ≤ limit) ↔
      e.depth ≤ limit - d := by
  induction h generalizing path d with
  | message name slots hlen hadmits hvalues ih =>
    have hslots := fieldPlaces_depth_iff (d := d + 1) (σ.type name).name hlen
      fun q hq e he path => ih q hq e he path (d + 1)
    rw [Element.places, List.forall_mem_cons, Kind.typeName, hslots, Element.depth, Message.depth]
    -- The submessage itself needs one level, and what is inside it one less than is left.
    constructor
    · rintro ⟨hself, hinside⟩
      have := hself slots rfl
      dsimp only at this
      omega
    · intro hdepth
      refine ⟨fun inner _ => ?_, ?_⟩
      · dsimp only
        omega
      · omega
  | _ => simp [Element.places, Element.depth]

/-- The submessages of a message of a type are at places up to its depth. -/
theorem Schema.Conforms.depth_iff {σ : Schema} {t : MessageType} {m : Message}
    (h : σ.Conforms t m) (limit : Nat) :
    (∀ p ∈ σ.places t m, ∀ slots, p.value = .message slots → p.depth ≤ limit) ↔
      m.depth ≤ limit :=
  fieldPlaces_depth_iff t.name h.length_eq fun q hq e he path =>
    (h.values q hq e he).depth_iff path 0 limit

/-! ## Numbers -/

/-- The unsigned number at a place, with its field. -/
def Place.number? (p : Place) : Option (FieldPath × UInt64) :=
  match p.value with
  | .uint64 n => some (p.path, n)
  | _ => none

/-- The unsigned 64-bit numbers of a message with their fields, in the order in which they are
read. -/
def Schema.numbers (σ : Schema) (t : MessageType) (m : Message) : List (FieldPath × UInt64) :=
  (σ.places t m).filterMap Place.number?

theorem Place.number?_eq_some_iff {p : Place} {path : FieldPath} {n : UInt64} :
    p.number? = some (path, n) ↔ p.path = path ∧ p.value = .uint64 n := by
  unfold number?
  cases p.value <;> simp

/-- Each place of a value holds a value of its kind. -/
theorem Element.Conforms.of_mem_places {σ : Schema} {kind : Kind} {e : Element}
    (h : e.Conforms σ kind) {path : FieldPath} {d : Nat} {p : Place}
    (hp : p ∈ e.places σ path kind d) : p.value.Conforms σ p.kind := by
  induction h generalizing path d with
  | message name slots hlen hadmits hvalues ih =>
    rw [Element.places] at hp
    rcases List.mem_cons.1 hp with rfl | hp
    · exact .message name slots hlen hadmits hvalues
    · obtain ⟨q, hq, e, he, hp⟩ := mem_fieldPlaces_iff.1 hp
      exact ih q hq e he hp
  | string s =>
    obtain rfl := List.mem_singleton.1 hp
    exact .string s
  | bool b =>
    obtain rfl := List.mem_singleton.1 hp
    exact .bool b
  | int32 n =>
    obtain rfl := List.mem_singleton.1 hp
    exact .int32 n
  | uint64 n =>
    obtain rfl := List.mem_singleton.1 hp
    exact .uint64 n
  | enum type n =>
    obtain rfl := List.mem_singleton.1 hp
    exact .enum type n

theorem Schema.Conforms.of_mem_places {σ : Schema} {t : MessageType} {m : Message}
    (h : σ.Conforms t m) {p : Place} (hp : p ∈ σ.places t m) : p.value.Conforms σ p.kind := by
  obtain ⟨q, hq, e, he, hp⟩ := mem_fieldPlaces_iff.1 hp
  exact (h.values q hq e he).of_mem_places hp

end SchemaCodec
