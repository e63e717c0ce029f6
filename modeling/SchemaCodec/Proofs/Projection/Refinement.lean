import Mathlib
import SchemaCodec.Proofs.Catalog.Kinds
import SchemaCodec.Proofs.Numeric.Exact
import SchemaCodec.Proofs.Projection.Reading
import SchemaCodec.Proofs.Schema.Obeying
import SchemaCodec.Proofs.Schema.Symbols

/-!
# Proofs.Projection.Refinement — what the strict reading takes, the loose one takes too

- `Schema.NamesZero`: every enumeration has a symbol for its default.
- `Json.Named`: the values of enumerations inside a value denote defined numbers.

Each scalar that is read strictly is read loosely as the same one, but for the numbers of
enumerations without a symbol (`Coercion.enum_refines`). Sources pass this on to submessages
(`FieldSource.element_refines`), and `Catalog.strict_refines_loose` says it of the catalogue.
-/

namespace SchemaCodec

/-! ## Scalars -/

namespace Coercion

variable {v : Json}

theorem string_refines {s : String} (h : strict.string v = .ok s) : loose.string v = .ok s := by
  cases v with
  | string s' => exact h
  | _ => cases h

theorem bool_refines {b : Bool} (h : strict.bool v = .ok b) : loose.bool v = .ok b := by
  cases v with
  | bool b' => exact h
  | _ => cases h

theorem toInt32?_eq_some {i : Int} {n : Int32} (h : toInt32? i = some n) :
    Numeric.fitsInt32 i = true := by
  by_contra hfits
  rw [toInt32?, if_neg hfits] at h
  cases h

/-- A number that is a signed 32-bit integer was spelled as an integer. -/
theorem exists_integer {x : Number} {n : Int32} (h : x.toInt64?.bind toInt32? = some n) :
    ∃ i, x = .integer i ∧ x.toInt64? = some i ∧ toInt32? i = some n := by
  rcases Option.bind_eq_some_iff.1 h with ⟨i, hi, hn⟩
  cases x with
  | integer j =>
    have hij : j = i := by
      rw [Number.toInt64?] at hi
      split at hi
      next => exact Option.some.inj hi
      next => cases hi
    exact ⟨i, by rw [hij], hi, hn⟩
  | double x => cases hi

theorem int32_refines {n : Int32} (h : strict.int32 v = .ok n) : loose.int32 v = .ok n := by
  cases v with
  | number x =>
    simp only [int32] at h
    split at h
    next n' hnumber =>
      cases h
      rcases exists_integer hnumber with ⟨i, rfl, -, hi⟩
      -- 32 bits fit into the 53 of a double.
      have hfits := toInt32?_eq_some hi
      have hbound : i.natAbs < 2 ^ 53 := by
        simp [Numeric.fitsInt32] at hfits
        omega
      have htrunc := Numeric.Binary64.trunc_ofInt hbound
      simp only [int32, Number.toBinary64, truncInt32, htrunc, Option.bind_some, hi]
    next => cases h
  | _ => cases h

theorem uint64_refines {n : UInt64} (h : strict.uint64 v = .ok n) : loose.uint64 v = .ok n := by
  cases v with
  | number x =>
    simp only [uint64] at h ⊢
    split at h
    next => exact h
    next => cases h
  | string s =>
    simp only [uint64] at h ⊢
    split at h
    next hdigits =>
      rw [Text.trim_of_uint64? hdigits, hdigits]
      exact h
    next => cases h
  | _ => cases h

/-! ### Enumerations -/

variable {type : EnumType} {n : Int32}

/-- A number of an enumeration was read strictly from an integer or from a symbol. -/
theorem enum_strict_ok (h : strict.enum type v = .ok n) :
    (∃ x, v = .number x ∧ enumNumber? x = some n) ∨
    ∃ s, v = .string s ∧ type.numberOf? s = some n := by
  cases v with
  | number x =>
    left
    simp only [enum] at h
    split at h
    next n' hnumber =>
      cases h
      rcases exists_integer hnumber with ⟨i, rfl, hinteger, hi⟩
      refine ⟨.integer i, rfl, ?_⟩
      rw [enumNumber?, hinteger]
      exact hi
    next => cases h
  | string s =>
    right
    simp only [enum] at h
    split at h
    next n' hnumber =>
      cases h
      exact ⟨s, rfl, hnumber⟩
    next => cases h
  | _ => cases h

/-- What is read strictly denotes the same defined number, or none if it has no symbol. -/
theorem defined?_of_strict (h : strict.enum type v = .ok n) :
    defined? type v = if (type.symbolOf? n).isSome then some n else none := by
  rcases enum_strict_ok h with ⟨x, rfl, hx⟩ | ⟨s, rfl, hs⟩
  · rw [defined?, hx]
    rfl
  · rw [defined?, hs, if_pos (EnumType.symbolOf?_of_numberOf? hs)]

theorem enum_refines (h : strict.enum type v = .ok n) :
    loose.enum type v = .ok ((Kind.enum type).recognize n) := by
  rw [enum, defined?_of_strict h, Kind.recognize]
  split <;> rfl

theorem recognize_of_defined? (h : strict.enum type v = .ok n)
    (hdefined : (defined? type v).isSome = true) : (Kind.enum type).recognize n = n := by
  rw [defined?_of_strict h] at hdefined
  rw [Kind.recognize]
  split at hdefined
  next hsymbol => exact if_pos hsymbol
  next => cases hdefined

end Coercion

/-! ## Values -/

/-- Every enumeration of a schema has a symbol for zero, the default of its fields. -/
def Schema.NamesZero (σ : Schema) : Prop :=
  ∀ t ∈ σ.types, ∀ f ∈ t.fields, ∀ type ∈ f.kind.enumeration?, (type.symbolOf? 0).isSome = true

instance (σ : Schema) : Decidable σ.NamesZero :=
  inferInstanceAs (Decidable (∀ t ∈ σ.types, _))

/-- A value is one of a kind with the numbers of all enumerations in it defined: as numbers, or by
their symbols. -/
inductive Json.Named (σ : Schema) : Kind → Json → Prop where
  | scalar {kind : Kind} {v : Json} (henum : kind.enumeration? = none)
      (href : kind.reference? = none) : Named σ kind v
  | enum {type : EnumType} {v : Json} (h : (Coercion.defined? type v).isSome = true) :
      Named σ (.enum type) v
  | message {name : String} {v : Json}
      (hone : ∀ members, v = .object members → ∀ f ∈ (σ.type name).fields, f.repeated = false →
        ∀ w, w ≠ .null → members.lookup f.jsonName = some w → Named σ f.kind w)
      (hmany : ∀ members, v = .object members → ∀ f ∈ (σ.type name).fields, f.repeated = true →
        ∀ items, members.lookup f.jsonName = some (.array items) →
        ∀ item ∈ items, Named σ f.kind item) : Named σ (.message name) v

theorem Schema.NamesZero.type {σ : Schema} (h : σ.NamesZero) (name : String) :
    ∀ f ∈ (σ.type name).fields, ∀ type ∈ f.kind.enumeration?, (type.symbolOf? 0).isSome = true := by
  unfold Schema.type
  cases hfind : σ.types.find? fun t => t.name == name with
  | some t => exact h t (List.mem_of_find?_eq_some hfind)
  | none => simp

/-- Where zero has a symbol, a field at its default is normal. -/
theorem Slot.single_normalize {σ : Schema} {kind : Kind} (e : Element)
    (hzero : ∀ type ∈ kind.enumeration?, (type.symbolOf? 0).isSome = true) :
    Slot.single (e.normalize σ kind) = normalizeSlot σ kind (Slot.single e) := by
  cases hdefault : e.isDefault with
  | false =>
    rw [single, single, hdefault, e.isDefault_normalize σ kind hdefault]
    rfl
  | true =>
    have hself : e.normalize σ kind = e := by
      cases e with
      | «enum» n =>
        have hn : n = 0 := by simpa [Element.isDefault] using hdefault
        subst hn
        cases kind with
        | «enum» type =>
          rw [Element.normalize, Kind.recognize, if_pos (hzero type rfl)]
        | _ => rfl
      | message slots => cases hdefault
      | _ => rfl
    rw [hself, single, hdefault]
    rfl

namespace FieldSource

variable {σ : Schema} {src : FieldSource} {key : String} {kind : Kind} {v : Json}

/-- The source with another coercion. -/
def under (src : FieldSource) (coercion : Coercion) : FieldSource :=
  { src with coercion := coercion }

/-- The members of a source are values of the fields of a table with all numbers defined. -/
structure Named (σ : Schema) (src : FieldSource) (fields : List Field) : Prop where
  one : ∀ f ∈ fields, f.repeated = false →
    ∀ w, src.get? f.jsonName = some w → Json.Named σ f.kind w
  many : ∀ f ∈ fields, f.repeated = true → ∀ items, src.get? f.jsonName = some (.array items) →
    ∀ item ∈ items, Json.Named σ f.kind item

/-- Present members are not null. -/
theorem get?_eq_some_iff {w : Json} :
    src.get? key = some w ↔ w ≠ .null ∧ src.members.lookup key = some w := by
  unfold get?
  cases hlookup : src.members.lookup key with
  | none => simp
  | some v =>
    cases v with
    | null =>
      constructor
      · intro h
        cases h
      · rintro ⟨hnull, h⟩
        exact absurd (Option.some.inj h).symm hnull
    | _ =>
      constructor
      · rintro h
        cases h
        exact ⟨Json.noConfusion, rfl⟩
      · exact And.right

theorem named_of_object {name : String}
    (h : Json.Named σ (.message name) (.object src.members)) :
    src.Named σ (σ.type name).fields := by
  cases h with
  | scalar henum href => cases href
  | message hone hmany =>
    constructor
    · intro f hf hsingle w hget
      rcases get?_eq_some_iff.1 hget with ⟨hnull, hlookup⟩
      exact hone src.members rfl f hf hsingle w hnull hlookup
    · intro f hf hrepeated items hget
      exact hmany src.members rfl f hf hrepeated items (get?_eq_some_iff.1 hget).2

/-- What is read strictly from a value is read loosely in its normal form, and is normal if all
numbers of enumerations in the value are defined. -/
def Refines (σ : Schema) (src : FieldSource) : Prop :=
  ∀ key kind v e, (∀ type ∈ kind.enumeration?, (type.symbolOf? 0).isSome = true) →
    (src.under .strict).element σ key kind v = .ok e →
    (src.under .loose).element σ key kind v = .ok (e.normalize σ kind) ∧
      (Json.Named σ kind v → e.normalize σ kind = e)

/-- The values of a list are read one by one. -/
theorem Refines.items (h : src.Refines σ)
    (hzero : ∀ type ∈ kind.enumeration?, (type.symbolOf? 0).isSome = true) {items : List Json}
    {es : List Element}
    (hes : List.Forall₂ (fun item e => (src.under .strict).element σ key kind item = .ok e)
      items es) :
    List.Forall₂ (fun item e => (src.under .loose).element σ key kind item = .ok e) items
        (normalizeSlot σ kind es) ∧
      ((∀ item ∈ items, Json.Named σ kind item) → ∀ e ∈ es, e.normalize σ kind = e) := by
  induction hes with
  | nil => exact ⟨.nil, fun _ e he => absurd he List.not_mem_nil⟩
  | cons he hes ih =>
    rcases h key kind _ _ hzero he with ⟨hloose, hnormal⟩
    refine ⟨.cons hloose ih.1, ?_⟩
    intro hnamed
    rw [List.forall_mem_cons] at hnamed ⊢
    exact ⟨hnormal hnamed.1, ih.2 hnamed.2⟩

theorem Refines.slot (h : src.Refines σ)
    (hzero : ∀ type ∈ kind.enumeration?, (type.symbolOf? 0).isSome = true) {repeated : Bool}
    {slot : Slot} (hslot : (src.under .strict).slot σ key kind repeated = .ok slot) :
    (src.under .loose).slot σ key kind repeated = .ok (normalizeSlot σ kind slot) ∧
      ((repeated = false → ∀ w, src.get? key = some w → Json.Named σ kind w) →
        (repeated = true → ∀ items, src.get? key = some (.array items) →
          ∀ item ∈ items, Json.Named σ kind item) →
        ∀ e ∈ slot, e.normalize σ kind = e) := by
  rcases slot_ok hslot with ⟨hget, rfl⟩ | ⟨hloose, -⟩ | ⟨items, rfl, hget, hitems⟩ |
    ⟨v, e, rfl, hget, he, rfl⟩
  · exact ⟨slot_none hget, fun _ _ e he => absurd he List.not_mem_nil⟩
  · cases hloose
  · rcases h.items hzero hitems with ⟨hread, hnormal⟩
    have hpresent : (src.under .loose).get? key = some (.array items) := hget
    refine ⟨?_, ?_⟩
    · exact (slot_array hpresent).trans (mapM_ok_iff.2 hread)
    · intro _ hmany
      exact hnormal (hmany rfl items hget)
  · rcases h key kind v e hzero he with ⟨hread, hnormal⟩
    have hpresent : (src.under .loose).get? key = some v := hget
    refine ⟨?_, ?_⟩
    · rw [slot_single hpresent, hread, ← Slot.single_normalize e hzero]
      rfl
    · intro hone _ e' he'
      rw [Slot.eq_of_mem_single he']
      exact hnormal (hone rfl v hget)

theorem Refines.slots (h : src.Refines σ) {fields : List Field}
    (hzero : ∀ f ∈ fields, ∀ type ∈ f.kind.enumeration?, (type.symbolOf? 0).isSome = true)
    {slots : List Slot}
    (hslots : List.Forall₂ (fun f slot =>
      (src.under .strict).slot σ f.jsonName f.kind f.repeated = .ok slot) fields slots) :
    List.Forall₂ (fun f slot =>
        (src.under .loose).slot σ f.jsonName f.kind f.repeated = .ok slot) fields
        (normalizeSlots σ fields slots) ∧
      (src.Named σ fields → normalizeSlots σ fields slots = slots) := by
  induction hslots with
  | nil => exact ⟨.nil, fun _ => rfl⟩
  | cons hslot hslots ih =>
    rw [List.forall_mem_cons] at hzero
    rcases h.slot hzero.1 hslot with ⟨hread, hnormal⟩
    rcases ih hzero.2 with ⟨hreads, hnormals⟩
    refine ⟨.cons hread hreads, ?_⟩
    rintro ⟨hone, hmany⟩
    rw [List.forall_mem_cons] at hone hmany
    rw [normalizeSlots, normalizeSlot_eq_self (hnormal hone.1 hmany.1),
      hnormals ⟨hone.2, hmany.2⟩]

theorem Refines.message (h : src.Refines σ) {t : MessageType}
    (hzero : ∀ f ∈ t.fields, ∀ type ∈ f.kind.enumeration?, (type.symbolOf? 0).isSome = true)
    {m : Message} (hm : (src.under .strict).message σ t = .ok m) :
    (src.under .loose).message σ t = .ok (σ.normalize t m) ∧
      (src.Named σ t.fields → σ.normalize t m = m) := by
  rcases h.slots hzero (message_ok_iff.1 hm) with ⟨hread, hnormal⟩
  exact ⟨message_ok_iff.2 hread, hnormal⟩

theorem refines (hσ : σ.NamesZero) (src : FieldSource) : src.Refines σ := by
  induction src using nested with
  | _ src ih =>
    intro key kind v e hzero he
    cases kind with
    | string =>
      rw [element_string] at he ⊢
      rcases map_eq_ok_iff.1 he with ⟨s, hs, rfl⟩
      have hread := Coercion.string_refines (fit_ok_iff.1 hs)
      exact ⟨map_eq_ok_iff.2 ⟨s, fit_ok_iff.2 hread, rfl⟩, fun _ => rfl⟩
    | bool =>
      rw [element_bool] at he ⊢
      rcases map_eq_ok_iff.1 he with ⟨b, hb, rfl⟩
      have hread := Coercion.bool_refines (fit_ok_iff.1 hb)
      exact ⟨map_eq_ok_iff.2 ⟨b, fit_ok_iff.2 hread, rfl⟩, fun _ => rfl⟩
    | int32 =>
      rw [element_int32] at he ⊢
      rcases map_eq_ok_iff.1 he with ⟨n, hn, rfl⟩
      have hread := Coercion.int32_refines (fit_ok_iff.1 hn)
      exact ⟨map_eq_ok_iff.2 ⟨n, fit_ok_iff.2 hread, rfl⟩, fun _ => rfl⟩
    | uint64 =>
      rw [element_uint64] at he ⊢
      rcases map_eq_ok_iff.1 he with ⟨n, hn, rfl⟩
      rcases uint64_ok_iff.1 hn with ⟨hstrict, hrange⟩
      have hread := Coercion.uint64_refines hstrict
      exact ⟨map_eq_ok_iff.2 ⟨n, uint64_ok_iff.2 ⟨hread, hrange⟩, rfl⟩, fun _ => rfl⟩
    | «enum» type =>
      rw [element_enum] at he ⊢
      rcases map_eq_ok_iff.1 he with ⟨n, hn, rfl⟩
      have hstrict : Coercion.strict.enum type v = .ok n := fit_ok_iff.1 hn
      have hread := Coercion.enum_refines hstrict
      refine ⟨map_eq_ok_iff.2 ⟨_, fit_ok_iff.2 hread, rfl⟩, ?_⟩
      intro hnamed
      cases hnamed with
      | scalar henum href => cases henum
      | «enum» hdefined =>
        rw [Element.normalize, Coercion.recognize_of_defined? hstrict hdefined]
    | message name =>
      rcases element_message_ok he with ⟨hopen, ⟨members, slots, rfl, hkeys, hm, rfl⟩ | ⟨hloose, -⟩⟩
      · -- The object inside is read by the source that the induction speaks of.
        have hchild := ih hopen (σ.type name) members
        rcases hchild.message (hσ.type name) hm with ⟨hread, hnormal⟩
        constructor
        · have hroom : (src.under .loose).depth + 1 ≤ (src.under .loose).limits.recursion := hopen
          refine (element_object hroom ?_).trans ?_
          · intro hstrict
            cases hstrict
          · exact map_eq_ok_iff.2 ⟨_, hread, rfl⟩
        · intro hnamed
          exact congrArg Element.message (hnormal (named_of_object hnamed))
      · cases hloose

end FieldSource

/-! ## Messages -/

theorem FieldSource.ofJson_strict_ok {t : MessageType} {limits : Limits} {v : Json}
    {src : FieldSource} (h : ofJson t .strict limits 0 v = .ok src) :
    ∃ members, v = .object members ∧ src = ⟨members, t.name, .strict, limits, 0⟩ := by
  cases v with
  | object members =>
    refine ⟨members, rfl, ?_⟩
    rw [ofJson, membersOf?] at h
    dsimp only at h
    split at h
    next => cases h
    next => exact (Except.ok.inj h).symm
  | _ => cases h

/-- A message that is read strictly is read loosely in its normal form, and as itself if all
numbers of enumerations in the value are defined. -/
theorem Schema.readJson_loose {σ : Schema} (hσ : σ.NamesZero) {t : MessageType}
    (ht : σ.type t.name = t) {limits : Limits} {v : Json} {m : Message}
    (h : σ.readJson t .strict limits v = .ok m) :
    σ.readJson t .loose limits v = .ok (σ.normalize t m) ∧
      (Json.Named σ (.message t.name) v → σ.normalize t m = m) := by
  rw [readJson] at h
  split at h
  next => cases h
  next src hsrc =>
    rcases FieldSource.ofJson_strict_ok hsrc with ⟨members, rfl, rfl⟩
    have hzero := hσ.type t.name
    rw [ht] at hzero
    have hrefines := FieldSource.refines hσ ⟨members, t.name, .strict, limits, 0⟩
    rcases hrefines.message hzero h with ⟨hread, hnormal⟩
    refine ⟨hread, ?_⟩
    intro hnamed
    have hfields : FieldSource.Named σ ⟨members, t.name, .strict, limits, 0⟩
        (σ.type t.name).fields := FieldSource.named_of_object hnamed
    rw [ht] at hfields
    exact hnormal hfields

/-! ## The catalogue -/

namespace Catalog

theorem standard_namesZero : standard.NamesZero := by
  decide

/-- Whatever is read strictly for a type of the catalogue is read loosely too: as the same message
but for the numbers of enumerations without a symbol, which become the unrecognized one. Where the
value has defined numbers only, both readings agree. -/
theorem strict_refines_loose {t : MessageType} (ht : t ∈ types) {limits : Limits} {v : Json}
    {m : Message} (h : standard.readJson t .strict limits v = .ok m) :
    standard.readJson t .loose limits v = .ok (standard.normalize t m) ∧
      (Json.Named standard (.message t.name) v →
        standard.readJson t .loose limits v = .ok m) := by
  rcases Schema.readJson_loose standard_namesZero (type_of_mem t ht) h with ⟨hread, hnormal⟩
  refine ⟨hread, ?_⟩
  intro hnamed
  rw [hread, hnormal hnamed]

/-- A request for a profile type without a symbol, and a user id with a sign and a zero in front. -/
def unnamedJson : Json :=
  .object [("profileType", .ofInt 7), ("userId", .string "+07")]

/-- A request for a business profile, by its symbol. -/
def businessJson : Json :=
  .object [("email", .string ""), ("profileType", .string "PROFILE_TYPE_BUSINESS")]

theorem named_businessJson : Json.Named standard (.message deleteAccount.name) businessJson := by
  refine .message ?_ ?_
  · intro members hmembers f hf hsingle w hnull hlookup
    cases hmembers
    have hfields : f ∈ deleteAccount.fields := hf
    simp only [deleteAccount, List.mem_cons, List.not_mem_nil, or_false] at hfields
    rcases hfields with rfl | rfl | rfl | rfl
    · exact .scalar rfl rfl
    · exact .scalar rfl rfl
    · exact .scalar rfl rfl
    · cases hlookup
      exact .enum (by decide)
  · intro members hmembers f hf hrepeated
    have hnone : ∀ f ∈ deleteAccount.fields, f.repeated = false := by decide
    rw [hnone f hf] at hrepeated
    cases hrepeated

theorem strict_refines_loose_instances :
    standard.readJson deleteAccount .strict {} unnamedJson =
      .ok [[], [], [.uint64 7], [.enum 7]] ∧
    standard.readJson deleteAccount .loose {} unnamedJson =
      .ok [[], [], [.uint64 7], [.enum (-1)]] ∧
    standard.readJson deleteAccount .strict {} businessJson = .ok [[], [], [], [.enum 2]] ∧
    standard.readJson deleteAccount .loose {} businessJson = .ok [[], [], [], [.enum 2]] := by
  have hunnamed : standard.readJson deleteAccount .strict {} unnamedJson =
      .ok [[], [], [.uint64 7], [.enum 7]] := by cbv
  have hbusiness : standard.readJson deleteAccount .strict {} businessJson =
      .ok [[], [], [], [.enum 2]] := by cbv
  exact ⟨hunnamed, (strict_refines_loose (by decide) hunnamed).1, hbusiness,
    (strict_refines_loose (by decide) hbusiness).2 named_businessJson⟩

end Catalog
end SchemaCodec
