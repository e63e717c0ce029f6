import Mathlib
import SchemaCodec.Schema.Message

/-!
# Proofs.Schema.Conforming — messages of a schema

- `MessageType.WellFormed`, `Schema.WellFormed`: field tables as schema files allow them.
- `Element.Conforms`, `Schema.Conforms`: the values that a message of a type can hold.
- `MessageType.put_middle`: a value arrives at the slot of its field, and nowhere else.

`Element.Conforms` is the induction that proofs about messages follow: its rule for submessages
reaches the values of all slots at once.
-/

namespace SchemaCodec

/-! ## Field tables -/

/-- The symbols of an enumeration tell its values apart, and none of them is the one that stands
for numbers without a symbol. -/
structure EnumType.Faithful (e : EnumType) : Prop where
  distinct : (e.values.map (·.symbol)).Nodup
  recognized : unrecognizedSymbol ∉ e.values.map (·.symbol)

instance (e : EnumType) : Decidable e.Faithful :=
  decidable_of_iff
    ((e.values.map (·.symbol)).Nodup ∧ EnumType.unrecognizedSymbol ∉ e.values.map (·.symbol))
    ⟨fun ⟨hd, hr⟩ => ⟨hd, hr⟩, fun ⟨hd, hr⟩ => ⟨hd, hr⟩⟩

/-- The enumeration that the values of a kind belong to. -/
def Kind.enumeration? : Kind → Option EnumType
  | .enum type => some type
  | _ => none

/-- The message type that the values of a kind belong to. -/
def Kind.reference? : Kind → Option String
  | .message name => some name
  | _ => none

/-- A field table as a schema file allows it: the numbers ascend and fit into a key, the keys of
the projection are different, and so are the symbols of each enumeration. -/
structure MessageType.WellFormed (t : MessageType) : Prop where
  ascending : t.fields.Pairwise fun f g => f.number < g.number
  positive : ∀ f ∈ t.fields, 0 < f.number
  bounded : ∀ f ∈ t.fields, f.number < 2 ^ 29
  keys : (t.fields.map (·.jsonName)).Nodup
  symbols : ∀ f ∈ t.fields, ∀ type ∈ f.kind.enumeration?, type.Faithful

instance (t : MessageType) : Decidable t.WellFormed :=
  decidable_of_iff
    ((t.fields.Pairwise fun f g => f.number < g.number) ∧ (∀ f ∈ t.fields, 0 < f.number) ∧
      (∀ f ∈ t.fields, f.number < 2 ^ 29) ∧ (t.fields.map (·.jsonName)).Nodup ∧
      ∀ f ∈ t.fields, ∀ type ∈ f.kind.enumeration?, type.Faithful)
    ⟨fun ⟨ha, hp, hb, hk, hs⟩ => ⟨ha, hp, hb, hk, hs⟩,
      fun ⟨ha, hp, hb, hk, hs⟩ => ⟨ha, hp, hb, hk, hs⟩⟩

/-- All field tables of a schema are as schema files allow them. -/
def Schema.WellFormed (σ : Schema) : Prop :=
  ∀ t ∈ σ.types, t.WellFormed

theorem MessageType.wellFormed_nil (name : String) : MessageType.WellFormed ⟨name, []⟩ :=
  ⟨.nil, by simp, by simp, .nil, by simp⟩

/-- A name that the schema lacks denotes a type without fields, so every name is well formed. -/
theorem Schema.WellFormed.type {σ : Schema} (h : σ.WellFormed) (name : String) :
    (σ.type name).WellFormed := by
  unfold Schema.type
  cases hfind : σ.types.find? fun t => t.name == name with
  | some t => exact h t (List.mem_of_find?_eq_some hfind)
  | none => exact MessageType.wellFormed_nil name

namespace MessageType

variable {t : MessageType} {f : Field} {pre post : List Field}

theorem WellFormed.number_ne (h : t.WellFormed) (hfields : t.fields = pre ++ f :: post) :
    (∀ g ∈ pre, g.number ≠ f.number) ∧ ∀ g ∈ post, g.number ≠ f.number := by
  have hasc := h.ascending
  rw [hfields, List.pairwise_append, List.pairwise_cons] at hasc
  obtain ⟨-, ⟨hpost, -⟩, hpre⟩ := hasc
  constructor
  · intro g hg
    exact Nat.ne_of_lt (hpre g hg f List.mem_cons_self)
  · intro g hg
    exact Nat.ne_of_gt (hpost g hg)

theorem WellFormed.field?_number (h : t.WellFormed) (hfields : t.fields = pre ++ f :: post) :
    t.field? f.number = some f := by
  have hpre : pre.find? (fun g => g.number == f.number) = none := by
    simpa using (h.number_ne hfields).1
  simp [field?, hfields, List.find?_append, hpre]

theorem zipWith_put_of_ne {fields : List Field} {slots : List Slot} {number : Nat} {e : Element}
    (hlen : fields.length = slots.length) (h : ∀ g ∈ fields, g.number ≠ number) :
    List.zipWith (fun f slot => if f.number == number then f.put slot e else slot) fields slots =
      slots := by
  induction fields generalizing slots with
  | nil =>
    cases slots with
    | nil => rfl
    | cons slot slots => cases hlen
  | cons g fields ih =>
    cases slots with
    | nil => cases hlen
    | cons slot slots =>
      obtain ⟨hg, hfields⟩ := List.forall_mem_cons.1 h
      rw [List.zipWith_cons_cons, ih (Nat.succ.inj hlen) hfields]
      simp [hg]

/-- A value arrives at the slot of its field, and nowhere else. -/
theorem WellFormed.put_middle (h : t.WellFormed) (hfields : t.fields = pre ++ f :: post)
    {before after : List Slot} (hbefore : pre.length = before.length)
    (hafter : post.length = after.length) (slot : Slot) (e : Element) :
    t.put (before ++ slot :: after) f.number e = before ++ f.put slot e :: after := by
  obtain ⟨hpre, hpost⟩ := h.number_ne hfields
  rw [put, hfields, List.zipWith_append hbefore, List.zipWith_cons_cons,
    zipWith_put_of_ne hbefore hpre, zipWith_put_of_ne hafter hpost]
  simp

end MessageType

/-! ## Messages of a type -/

/-- The slots that a field may have: a singular field holds at most one value, and not its
default. -/
def Field.Admits (f : Field) (slot : Slot) : Prop :=
  f.repeated = false → slot.length ≤ 1 ∧ ∀ e ∈ slot, e.isDefault = false

instance (f : Field) (slot : Slot) : Decidable (f.Admits slot) :=
  inferInstanceAs (Decidable (_ → _))

/-- The values of a kind. The slots of a submessage are those of its type. -/
inductive Element.Conforms (σ : Schema) : Kind → Element → Prop where
  | string (s : String) : Conforms σ .string (.string s)
  | bool (b : Bool) : Conforms σ .bool (.bool b)
  | int32 (n : Int32) : Conforms σ .int32 (.int32 n)
  | uint64 (n : UInt64) : Conforms σ .uint64 (.uint64 n)
  | enum (type : EnumType) (n : Int32) : Conforms σ (.enum type) (.enum n)
  | message (name : String) (slots : List Slot)
      (hlen : slots.length = (σ.type name).fields.length)
      (hadmits : ∀ p ∈ (σ.type name).fields.zip slots, p.1.Admits p.2)
      (hvalues : ∀ p ∈ (σ.type name).fields.zip slots, ∀ e ∈ p.2, Conforms σ p.1.kind e) :
      Conforms σ (.message name) (.message slots)

/-- The messages of a type: a slot for each field of its table, with values of its kind. -/
structure Schema.Conforms (σ : Schema) (t : MessageType) (m : Message) : Prop where
  length_eq : m.length = t.fields.length
  admits : ∀ p ∈ t.fields.zip m, p.1.Admits p.2
  values : ∀ p ∈ t.fields.zip m, ∀ e ∈ p.2, e.Conforms σ p.1.kind

/-! ## Checking messages -/

mutual
/-- Whether a value is one of a kind. -/
def Element.check (σ : Schema) (kind : Kind) : Element → Bool
  | .string _ => kind == .string
  | .bool _ => kind == .bool
  | .int32 _ => kind == .int32
  | .uint64 _ => kind == .uint64
  | .enum _ =>
    match kind with
    | .enum _ => true
    | _ => false
  | .message slots =>
    match kind with
    | .message name => checkSlots σ (σ.type name).fields slots
    | _ => false

/-- Whether slots are those of a field table. -/
def checkSlots (σ : Schema) (fields : List Field) : List (List Element) → Bool
  | [] => fields.isEmpty
  | slot :: slots =>
    match fields with
    | [] => false
    | f :: fs => decide (f.Admits slot) && checkSlot σ f.kind slot && checkSlots σ fs slots

/-- Whether all values of a slot are of a kind. -/
def checkSlot (σ : Schema) (kind : Kind) : List Element → Bool
  | [] => true
  | e :: es => e.check σ kind && checkSlot σ kind es
end

theorem checkSlot_iff {σ : Schema} {kind : Kind} {es : List Element} :
    checkSlot σ kind es = true ↔ ∀ e ∈ es, e.check σ kind = true := by
  induction es with
  | nil => simp [checkSlot]
  | cons e es ih => simp [checkSlot, ih]

theorem checkSlots_iff {σ : Schema} {fields : List Field} {slots : List Slot} :
    checkSlots σ fields slots = true ↔ slots.length = fields.length ∧
      (∀ q ∈ fields.zip slots, q.1.Admits q.2) ∧
      ∀ q ∈ fields.zip slots, ∀ e ∈ q.2, e.check σ q.1.kind = true := by
  induction slots generalizing fields with
  | nil => cases fields <;> simp [checkSlots]
  | cons slot slots ih =>
    cases fields with
    | nil => simp [checkSlots]
    | cons f fs =>
      simp only [checkSlots, Bool.and_eq_true, decide_eq_true_eq, checkSlot_iff, ih,
        List.length_cons, List.zip_cons_cons, List.forall_mem_cons, Nat.add_right_cancel_iff]
      tauto

/-- A value that passes the check is one of its kind; the values of a submessage are smaller. -/
theorem Element.conforms_of_check {σ : Schema} {kind : Kind} (e : Element)
    (h : e.check σ kind = true) : e.Conforms σ kind := by
  match e, h with
  | .string s, h =>
    obtain rfl : kind = .string := by simpa [check] using h
    exact .string s
  | .bool b, h =>
    obtain rfl : kind = .bool := by simpa [check] using h
    exact .bool b
  | .int32 n, h =>
    obtain rfl : kind = .int32 := by simpa [check] using h
    exact .int32 n
  | .uint64 n, h =>
    obtain rfl : kind = .uint64 := by simpa [check] using h
    exact .uint64 n
  | .enum n, h =>
    cases kind with
    | «enum» type => exact .enum type n
    | _ => simp [check] at h
  | .message slots, h =>
    cases kind with
    | message name =>
      obtain ⟨hlen, hadmits, hvalues⟩ := checkSlots_iff.1 h
      refine .message name slots hlen hadmits ?_
      intro q hq e he
      have hslot : sizeOf q.2 < sizeOf slots := List.sizeOf_lt_of_mem (List.of_mem_zip hq).2
      have hvalue : sizeOf e < sizeOf q.2 := List.sizeOf_lt_of_mem he
      exact conforms_of_check e (hvalues q hq e he)
    | _ => simp [check] at h
  termination_by sizeOf e
  decreasing_by
    simp only [message.sizeOf_spec]
    omega

theorem Element.check_iff {σ : Schema} {kind : Kind} {e : Element} :
    e.check σ kind = true ↔ e.Conforms σ kind := by
  refine ⟨conforms_of_check e, fun h => ?_⟩
  induction h with
  | message name slots hlen hadmits hvalues ih => exact checkSlots_iff.2 ⟨hlen, hadmits, ih⟩
  | _ => simp [Element.check]

instance (σ : Schema) (t : MessageType) (m : Message) : Decidable (σ.Conforms t m) :=
  decidable_of_iff (checkSlots σ t.fields m = true) <| by
    simp only [checkSlots_iff, Element.check_iff]
    exact ⟨fun ⟨hlen, hadmits, hvalues⟩ => ⟨hlen, hadmits, hvalues⟩,
      fun h => ⟨h.length_eq, h.admits, h.values⟩⟩

end SchemaCodec
