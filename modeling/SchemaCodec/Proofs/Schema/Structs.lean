import Mathlib
import SchemaCodec.Proofs.Schema.Obeying
import SchemaCodec.Schema.Struct

/-!
# Proofs.Schema.Structs — structs of declared types

- `FieldValue.Typed`, `Struct.Fits`, `Struct.Typed`: values as the fields of structs are declared.
- `Struct.Inside`: a struct and what is inside it, at any depth.
- `Structs.Describes`: the declarations say the same as the field tables, row by row.

Where they do, the rows that name a field are those in its own place (`Structs.rows_eq_zip`). So the
message of a struct has a slot for each of its values (`Structs.message_eq`), which is empty exactly
if the value is the one of a new struct (`FieldValue.Typed.slot_eq_nil_iff`).
-/

namespace SchemaCodec

/-! ## Typed structs -/

/-- The values of a declared field: one way of declaring for each kind that has a type of its
own. -/
inductive FieldValue.Typed {α : Type} : Kind → Label → FieldValue α → Prop where
  | string (s : String) : Typed .string .plain (.string s)
  | bool (b : Bool) : Typed .bool .plain (.bool b)
  | int32 (n : Int32) : Typed .int32 .plain (.int32 n)
  | uint64 (n : UInt64) : Typed .uint64 .plain (.uint64 n)
  | enum (type : EnumType) (n : Int32) : Typed (.enum type) .plain (.int32 n)
  | strings (ss : List String) : Typed .string .repeated (.strings ss)
  | message (name : String) (m : Option α) : Typed (.message name) .optional (.message m)
  | messages (name : String) (ms : List α) : Typed (.message name) .repeated (.messages ms)

/-- A struct has a value for each declared field, and the structs right inside it are of the types
that are declared. -/
structure Struct.Fits (δ : Structs) (s : Struct) : Prop where
  length_eq : s.values.length = (δ.attributes s.typeName).length
  values : ∀ p ∈ (δ.attributes s.typeName).zip s.values, p.2.Typed p.1.kind p.1.label
  names : ∀ p ∈ (δ.attributes s.typeName).zip s.values, ∀ r ∈ p.2.inner,
    p.1.kind = .message r.typeName

theorem Struct.Fits.of_forall₂ {δ : Structs} {s : Struct}
    (h : List.Forall₂ (fun a v => v.Typed a.kind a.label ∧
        ∀ r ∈ v.inner, a.kind = .message r.typeName)
      (δ.attributes s.typeName) s.values) : s.Fits δ := by
  obtain ⟨hlen, hzip⟩ := List.forall₂_iff_zip.1 h
  exact ⟨hlen.symm, fun p hp => (hzip hp).1, fun p hp => (hzip hp).2⟩

/-- The structs of declared types: those that fit, with such structs inside. -/
inductive Struct.Typed (δ : Structs) : Struct → Prop where
  | mk (s : Struct) (hfits : s.Fits δ) (hinner : ∀ v ∈ s.values, ∀ r ∈ v.inner, Typed δ r) :
      Typed δ s

/-- A struct inside another, at any depth, or the other itself. -/
inductive Struct.Inside (s : Struct) : Struct → Prop where
  | self : Inside s s
  | field {outer r : Struct} {v : FieldValue Struct} (hv : v ∈ outer.values) (hr : r ∈ v.inner)
      (h : Inside s r) : Inside s outer

theorem Struct.Typed.fits {δ : Structs} {s : Struct} (h : s.Typed δ) : s.Fits δ := by
  cases h with
  | mk _ hfits _ => exact hfits

theorem Struct.Typed.inside {δ : Structs} {s outer : Struct} (h : s.Inside outer)
    (houter : outer.Typed δ) : s.Typed δ := by
  induction h with
  | self => exact houter
  | field hv hr _ ih =>
    cases houter with
    | mk _ hfits hinner => exact ih (hinner _ hv _ hr)

/-- The attribute that says what a row of a field table does. -/
def Field.declared (f : Field) : Attribute where
  tag := f.number
  name := f.name
  kind := f.kind
  label :=
    if f.repeated then .repeated
    else if f.kind.reference?.isSome then .optional
    else .plain

theorem Field.repeated_iff {f : Field} : f.repeated = true ↔ f.declared.label = .repeated := by
  cases hrepeated : f.repeated <;> cases hkind : f.kind.reference?.isSome <;>
    simp [declared, hrepeated, hkind]

namespace FieldValue

variable {α β : Type} {kind : Kind} {label : Label}

theorem Typed.map {v : FieldValue α} (h : v.Typed kind label) (g : α → β) :
    (v.map g).Typed kind label := by
  cases h with
  | string s => exact .string s
  | bool b => exact .bool b
  | int32 n => exact .int32 n
  | uint64 n => exact .uint64 n
  | «enum» type n => exact .enum type n
  | strings ss => exact .strings ss
  | message name m => exact .message name _
  | messages name ms => exact .messages name _

theorem inner_map (v : FieldValue α) (g : α → β) : (v.map g).inner = v.inner.map g := by
  cases v with
  | message m => cases m <;> rfl
  | _ => rfl

/-! ## Slots of values -/

/-- A struct inside a value has its message in the slot. -/
theorem mem_slot {v : FieldValue α} {r : α} (hr : r ∈ v.inner) (g : α → Message) :
    Element.message (g r) ∈ (v.map g).slot kind := by
  cases v with
  | message m =>
    obtain rfl := Option.mem_toList.1 hr
    exact List.mem_singleton_self _
  | messages ms => exact List.mem_map_of_mem (List.mem_map_of_mem hr)
  | _ => cases hr

/-- A field admits the slot of a value that is declared for it. -/
theorem Typed.slot_admits {f : Field} {v : FieldValue Message}
    (h : v.Typed f.kind f.declared.label) : f.Admits (v.slot f.kind) := by
  have hrepeated : f.declared.label = .repeated → ∀ slot, f.Admits slot := fun hlabel slot =>
    f.admits_of_repeated (Field.repeated_iff.2 hlabel) slot
  generalize f.declared.label = label at h hrepeated
  generalize f.kind = kind at h ⊢
  cases h with
  | string s => exact f.admits_single _
  | bool b => exact f.admits_single _
  | int32 n => exact f.admits_single _
  | uint64 n => exact f.admits_single _
  | «enum» type n => exact f.admits_single _
  | message name m =>
    cases m with
    | none => exact f.admits_nil
    | some m => exact f.admits_single (.message m)
  | strings ss => exact hrepeated rfl _
  | messages name ms => exact hrepeated rfl _

/-- The values in the slot are of the kind of the field. -/
theorem Typed.slot_conforms {σ : Schema} {v : FieldValue Message} (h : v.Typed kind label)
    (hinner : ∀ m ∈ v.inner, (Element.message m).Conforms σ kind) :
    ∀ e ∈ v.slot kind, e.Conforms σ kind := by
  intro e he
  cases h with
  | string s => exact Slot.eq_of_mem_single he ▸ .string s
  | bool b => exact Slot.eq_of_mem_single he ▸ .bool b
  | int32 n => exact Slot.eq_of_mem_single he ▸ .int32 n
  | uint64 n => exact Slot.eq_of_mem_single he ▸ .uint64 n
  | «enum» type n => exact Slot.eq_of_mem_single he ▸ .enum type n
  | strings ss =>
    obtain ⟨s, -, rfl⟩ := List.mem_map.1 he
    exact .string s
  | message name m =>
    obtain ⟨m', hm', rfl⟩ := List.mem_map.1 he
    exact hinner m' hm'
  | messages name ms =>
    obtain ⟨m', hm', rfl⟩ := List.mem_map.1 he
    exact hinner m' hm'

/-- A value has an empty slot exactly if it is the one of a new struct, where enumerations start
with zero. -/
theorem Typed.slot_eq_nil_iff {a : Attribute} {v : FieldValue α} (h : v.Typed a.kind a.label)
    (hinitial : ∀ type ∈ a.kind.enumeration?, type.initial = 0) (g : α → Message) :
    (v.map g).slot a.kind = [] ↔ v = a.default := by
  obtain ⟨tag, name, kind, label⟩ := a
  cases h with
  | string s =>
    rw [FieldValue.map, slot, Slot.single_eq_nil_iff]
    simp [Element.isDefault, Attribute.default]
  | bool b =>
    rw [FieldValue.map, slot, Slot.single_eq_nil_iff]
    simp [Element.isDefault, Attribute.default]
  | int32 n =>
    change Slot.single (.int32 n) = [] ↔ _
    rw [Slot.single_eq_nil_iff]
    simp [Element.isDefault, Attribute.default]
  | uint64 n =>
    rw [FieldValue.map, slot, Slot.single_eq_nil_iff]
    simp [Element.isDefault, Attribute.default]
  | «enum» type n =>
    -- The slot compares with zero, a new struct holds the number of the first value.
    have hzero : type.initial = 0 := hinitial type rfl
    change Slot.single (.enum n) = [] ↔ _
    rw [Slot.single_eq_nil_iff]
    simp [Element.isDefault, Attribute.default, hzero]
  | strings ss => simp [FieldValue.map, slot, Attribute.default]
  | message name m => cases m <;> simp [FieldValue.map, slot, Attribute.default]
  | messages name ms => simp [FieldValue.map, slot, Attribute.default]

end FieldValue

/-! ## Both ways of declaring -/

/-- The declarations say of each type what its field table says, row by row. The names of its fields
are different, and its enumerations start with zero. -/
structure Structs.Describes (δ : Structs) (σ : Schema) : Prop where
  attributes_eq : ∀ name, δ.attributes name = (σ.type name).fields.map Field.declared
  names : ∀ name, ((σ.type name).fields.map (·.name)).Nodup
  initial_eq : ∀ name, ∀ f ∈ (σ.type name).fields, ∀ type ∈ f.kind.enumeration?, type.initial = 0

theorem eq_map_iff_forall_mem_zip {α β : Type} {xs : List α} {ys : List β} {g : α → β}
    (hlen : ys.length = xs.length) : ys = xs.map g ↔ ∀ q ∈ xs.zip ys, q.2 = g q.1 := by
  calc ys = xs.map g
      ↔ List.Forall₂ Eq (xs.map g) ys := by rw [List.forall₂_eq_eq_eq, eq_comm]
    _ ↔ List.Forall₂ (fun x y => g x = y) xs ys := List.forall₂_map_left_iff
    _ ↔ ∀ q ∈ xs.zip ys, q.2 = g q.1 := by
        rw [List.forall₂_iff_zip]
        exact ⟨fun h q hq => (h.2 hq).symm, fun h => ⟨hlen.symm, fun hq => (h _ hq).symm⟩⟩

/-- Each field is found under its own name, in its own place. -/
theorem filterMap_lookup_zip {α : Type} {fields : List Field} {vs : List (FieldValue α)}
    (hnames : (fields.map (·.name)).Nodup) (hlen : vs.length = fields.length) :
    (fields.filterMap fun f =>
      (((fields.map (·.name)).zip vs).lookup f.name).map (Prod.mk f)) = fields.zip vs := by
  induction fields generalizing vs with
  | nil => rfl
  | cons f fs ih =>
    cases vs with
    | nil => cases hlen
    | cons v vs =>
      obtain ⟨hf, hfs⟩ := List.nodup_cons.1 hnames
      rw [List.map_cons, List.zip_cons_cons, List.zip_cons_cons,
        List.filterMap_cons_some (b := (f, v)) (by simp), ← ih hfs (Nat.succ.inj hlen)]
      refine congrArg (List.cons _) (List.filterMap_congr ?_)
      intro g hg
      -- A field behind the first one has another name.
      have hne : g.name ≠ f.name := fun heq => hf (List.mem_map.2 ⟨g, hg, heq⟩)
      rw [List.lookup_cons, beq_false_of_ne hne]

namespace Structs

variable {δ : Structs} {σ : Schema} {s : Struct}

theorem length_values (h : δ.Describes σ) (hs : s.Fits δ) :
    s.values.length = (σ.type s.typeName).fields.length := by
  rw [hs.length_eq, h.attributes_eq, List.length_map]

/-- The rows of a table name the values in their own places, whatever has been made of them. -/
theorem rows_eq_zip {α : Type} (h : δ.Describes σ) (hs : s.Fits δ) (g : Struct → α) :
    δ.rows σ s.typeName (s.values.map (FieldValue.map g)) =
      ((σ.type s.typeName).fields.zip s.values).map fun q => (q.1, q.2.map g) := by
  have hnames : (δ.attributes s.typeName).map (·.name) =
      (σ.type s.typeName).fields.map (·.name) := by
    rw [h.attributes_eq, List.map_map]
    rfl
  have hlen : (s.values.map (FieldValue.map g)).length = (σ.type s.typeName).fields.length := by
    rw [List.length_map, length_values h hs]
  rw [rows, hnames]
  refine (filterMap_lookup_zip (h.names s.typeName) hlen).trans ?_
  rw [List.zip_map_right]
  rfl

/-- The message of a struct has a slot for each of its values. -/
theorem message_eq (h : δ.Describes σ) (hs : s.Fits δ) :
    δ.message σ s = ((σ.type s.typeName).fields.zip s.values).map fun q =>
      (q.2.map (δ.message σ)).slot q.1.kind := by
  rw [message, Struct.fold_eq, rows_eq_zip h hs, List.map_map]
  rfl

/-- Each field of the table has the slot of the value that it names. -/
theorem zip_message (h : δ.Describes σ) (hs : s.Fits δ) :
    (σ.type s.typeName).fields.zip (δ.message σ s) =
      ((σ.type s.typeName).fields.zip s.values).map fun q =>
        (q.1, (q.2.map (δ.message σ)).slot q.1.kind) := by
  have hfields : ((σ.type s.typeName).fields.zip s.values).map Prod.fst =
      (σ.type s.typeName).fields := List.map_fst_zip (length_values h hs).ge
  calc (σ.type s.typeName).fields.zip (δ.message σ s)
      = (((σ.type s.typeName).fields.zip s.values).map Prod.fst).zip
          (((σ.type s.typeName).fields.zip s.values).map fun q =>
            (q.2.map (δ.message σ)).slot q.1.kind) := by rw [hfields, message_eq h hs]
    _ = _ := List.zip_map' ..

theorem length_message (h : δ.Describes σ) (hs : s.Fits δ) :
    (δ.message σ s).length = (σ.type s.typeName).fields.length := by
  rw [message_eq h hs, List.length_map, List.length_zip, length_values h hs, min_self]

/-- The declared fields with their values are the rows of the table with them. -/
theorem zip_attributes (h : δ.Describes σ) {α : Type} (vs : List α) (name : String) :
    (δ.attributes name).zip vs =
      ((σ.type name).fields.zip vs).map fun q => (q.1.declared, q.2) := by
  rw [h.attributes_eq, List.zip_map_left]
  rfl

section Rows

variable (h : δ.Describes σ) (hs : s.Fits δ) {q : Field × FieldValue Struct}
  (hq : q ∈ (σ.type s.typeName).fields.zip s.values)

include h hq

theorem mem_zip_attributes : (q.1.declared, q.2) ∈ (δ.attributes s.typeName).zip s.values := by
  rw [zip_attributes h]
  exact List.mem_map.2 ⟨q, hq, rfl⟩

include hs

theorem mem_zip_message : (q.1, (q.2.map (δ.message σ)).slot q.1.kind) ∈
    (σ.type s.typeName).fields.zip (δ.message σ s) := by
  rw [zip_message h hs]
  exact List.mem_map.2 ⟨q, hq, rfl⟩

/-- The values of a struct are those that the rows of the field table ask for. -/
theorem typed_of_zip :
    q.2.Typed q.1.kind q.1.declared.label ∧ ∀ r ∈ q.2.inner, q.1.kind = .message r.typeName :=
  ⟨hs.values _ (mem_zip_attributes h hq), hs.names _ (mem_zip_attributes h hq)⟩

end Rows

end Structs

/-- The message of a typed struct is one of its type. -/
theorem Struct.Typed.conforms {δ : Structs} {σ : Schema} (h : δ.Describes σ) {s : Struct}
    (hs : s.Typed δ) : σ.Conforms (σ.type s.typeName) (δ.message σ s) := by
  -- The induction is on the typing, so the structs inside have conforming messages already.
  induction hs with
  | mk s hfits hinner ih =>
    have hzip := Structs.zip_message h hfits
    refine ⟨Structs.length_message h hfits, ?_, ?_⟩
    · intro p hp
      rw [hzip] at hp
      obtain ⟨q, hq, rfl⟩ := List.mem_map.1 hp
      exact ((Structs.typed_of_zip h hfits hq).1.map _).slot_admits
    · intro p hp
      rw [hzip] at hp
      obtain ⟨q, hq, rfl⟩ := List.mem_map.1 hp
      obtain ⟨htyped, hnames⟩ := Structs.typed_of_zip h hfits hq
      refine (htyped.map _).slot_conforms ?_
      intro m hm
      rw [FieldValue.inner_map] at hm
      obtain ⟨r, hr, rfl⟩ := List.mem_map.1 hm
      have hr' := ih q.2 (List.of_mem_zip hq).2 r hr
      rw [hnames r hr]
      exact .message _ _ hr'.length_eq hr'.admits hr'.values

end SchemaCodec
