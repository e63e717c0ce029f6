import Mathlib
import SchemaCodec.Catalog.Standard
import SchemaCodec.Proofs.Projection.Refinement

/-!
# Proofs.Projection.Typing — the values that are read strictly

- `Numeric.Unsigned`: the texts of unsigned numbers.
- `Json.Typed`, `Json.Fits`: the objects of a message type and the values of a kind, by rules on
  values.
- `Json.Denotes`, `Json.DenotesSlots`: what such values stand for.

The rules know nothing of sources and coercions. `Schema.readJson_strict_iff_typed` says that the
strict reading takes exactly the objects of its type, and makes of them what they stand for.
-/

namespace SchemaCodec

/-! ## Numbers as texts -/

namespace Numeric

/-- The texts of an unsigned number: one or more digits behind an optional plus sign. -/
inductive Unsigned : List Char → Nat → Prop where
  | plain (ds : List Char) (hne : ds ≠ []) (hdigits : ∀ c ∈ ds, isDigit c = true) :
      Unsigned ds (ofDigits ds)
  | signed (ds : List Char) (hne : ds ≠ []) (hdigits : ∀ c ∈ ds, isDigit c = true) :
      Unsigned ('+' :: ds) (ofDigits ds)

theorem digits_eq_some_iff {ds : List Char} {n : Nat} :
    (if ds.isEmpty || !ds.all isDigit then none else some (ofDigits ds)) = some n ↔
      ds ≠ [] ∧ (∀ c ∈ ds, isDigit c = true) ∧ ofDigits ds = n := by
  simp [and_assoc]

theorem unsigned?_eq_some_iff {s : List Char} {n : Nat} :
    unsigned? s = some n ↔ Unsigned s n := by
  constructor
  · intro h
    unfold unsigned? at h
    split at h
    next ds =>
      rcases digits_eq_some_iff.1 h with ⟨hne, hdigits, rfl⟩
      exact .signed ds hne hdigits
    next =>
      rcases digits_eq_some_iff.1 h with ⟨hne, hdigits, rfl⟩
      exact .plain s hne hdigits
  · intro h
    cases h with
    | plain ds hne hdigits =>
      have hplus : ∀ rest, s ≠ '+' :: rest := by
        -- A digit in front is no sign.
        rintro rest rfl
        exact absurd (hdigits '+' List.mem_cons_self) (by decide)
      unfold unsigned?
      split
      next rest => exact absurd rfl (hplus rest)
      next => exact digits_eq_some_iff.2 ⟨hne, hdigits, rfl⟩
    | signed ds hne hdigits => exact digits_eq_some_iff.2 ⟨hne, hdigits, rfl⟩

theorem uint64?_eq_some_iff {s : List Char} {n : UInt64} :
    uint64? s = some n ↔ Unsigned s n.toNat := by
  rw [← unsigned?_eq_some_iff, uint64?]
  cases unsigned? s with
  | none => simp
  | some k =>
    have hbound := n.toNat_lt
    simp only [fitsUInt64, Option.some.injEq, Option.ite_none_right_eq_some, Bool.and_eq_true,
      decide_eq_true_eq]
    constructor
    · rintro ⟨⟨-, hk⟩, rfl⟩
      simp
      omega
    · rintro rfl
      exact ⟨by omega, by simp⟩

end Numeric

/-! ## The rules -/

mutual
/-- The objects of a message type, at a depth. Every key is one of the table, and what is not null
under the key of a field fits the field: a value of its kind, or an array of such values if the
field is repeated. -/
inductive Json.Typed (σ : Schema) (limits : Limits) : MessageType → Nat → Json → Prop where
  | object {t : MessageType} {d : Nat} {members : List (String × Json)}
      (hkeys : ∀ m ∈ members, ∃ f ∈ t.fields, f.jsonName = m.1)
      (hone : ∀ f ∈ t.fields, f.repeated = false → ∀ v, v ≠ .null →
        members.lookup f.jsonName = some v → Json.Fits σ limits d f.kind v)
      (hlist : ∀ f ∈ t.fields, f.repeated = true → ∀ v, v ≠ .null →
        members.lookup f.jsonName = some v → ∃ items, v = .array items)
      (hmany : ∀ f ∈ t.fields, f.repeated = true → ∀ items,
        members.lookup f.jsonName = some (.array items) →
        ∀ item ∈ items, Json.Fits σ limits d f.kind item) : Json.Typed σ limits t d (.object members)

/-- The values of a kind, in a message at a depth. An object may stand for a submessage only where
one more may open. -/
inductive Json.Fits (σ : Schema) (limits : Limits) : Nat → Kind → Json → Prop where
  | string {d : Nat} (s : String) : Json.Fits σ limits d .string (.string s)
  | bool {d : Nat} (b : Bool) : Json.Fits σ limits d .bool (.bool b)
  | int32 {d : Nat} (n : Int) (hlow : -2 ^ 31 ≤ n) (hhigh : n < 2 ^ 31) :
      Json.Fits σ limits d .int32 (.number (.integer n))
  | uint64 {d : Nat} (n : Nat) (hbound : n < 2 ^ 64)
      (hrange : limits.range.accepts (.ofNat n) = true) :
      Json.Fits σ limits d .uint64 (.number (.integer n))
  | digits {d : Nat} (s : String) (n : Nat) (hdigits : Numeric.Unsigned s.toList n)
      (hbound : n < 2 ^ 64) (hrange : limits.range.accepts (.ofNat n) = true) :
      Json.Fits σ limits d .uint64 (.string s)
  | number {d : Nat} (type : EnumType) (n : Int) (hlow : -2 ^ 31 ≤ n) (hhigh : n < 2 ^ 31) :
      Json.Fits σ limits d (.enum type) (.number (.integer n))
  | symbol {d : Nat} (type : EnumType) (s : String) (hs : s ∈ type.values.map (·.symbol)) :
      Json.Fits σ limits d (.enum type) (.string s)
  | message {d : Nat} {name : String} {v : Json} (hopen : d + 1 ≤ limits.recursion)
      (h : Json.Typed σ limits (σ.type name) (d + 1) v) : Json.Fits σ limits d (.message name) v
end

mutual
/-- What a value stands for as one of a kind. -/
inductive Json.Denotes (σ : Schema) : Kind → Json → Element → Prop where
  | string (s : String) : Json.Denotes σ .string (.string s) (.string s)
  | bool (b : Bool) : Json.Denotes σ .bool (.bool b) (.bool b)
  | int32 (n : Int32) : Json.Denotes σ .int32 (.number (.integer n.toInt)) (.int32 n)
  | uint64 (n : UInt64) : Json.Denotes σ .uint64 (.number (.integer n.toNat)) (.uint64 n)
  | digits (s : String) (n : UInt64) (h : Numeric.Unsigned s.toList n.toNat) :
      Json.Denotes σ .uint64 (.string s) (.uint64 n)
  | number (type : EnumType) (n : Int32) :
      Json.Denotes σ (.enum type) (.number (.integer n.toInt)) (.enum n)
  | symbol (type : EnumType) (value : EnumValue) (h : value ∈ type.values) :
      Json.Denotes σ (.enum type) (.string value.symbol) (.enum value.number)
  | message {name : String} {members : List (String × Json)} {slots : List Slot}
      (h : Json.DenotesSlots σ members (σ.type name).fields slots) :
      Json.Denotes σ (.message name) (.object members) (.message slots)

/-- What members stand for, field by field. Nothing and null are the default. -/
inductive Json.DenotesSlots (σ : Schema) :
    List (String × Json) → List Field → List Slot → Prop where
  | nil {members : List (String × Json)} : Json.DenotesSlots σ members [] []
  | absent {members : List (String × Json)} {f : Field} {fields : List Field} {slots : List Slot}
      (hnull : ∀ v, members.lookup f.jsonName = some v → v = .null)
      (h : Json.DenotesSlots σ members fields slots) :
      Json.DenotesSlots σ members (f :: fields) ([] :: slots)
  | single {members : List (String × Json)} {f : Field} {fields : List Field} {slots : List Slot}
      {v : Json} {e : Element} (hsingle : f.repeated = false)
      (hlookup : members.lookup f.jsonName = some v) (he : Json.Denotes σ f.kind v e)
      (h : Json.DenotesSlots σ members fields slots) :
      Json.DenotesSlots σ members (f :: fields) (Slot.single e :: slots)
  | repeated {members : List (String × Json)} {f : Field} {fields : List Field}
      {slots : List Slot} {items : List Json} {slot : Slot} (hrepeated : f.repeated = true)
      (hlookup : members.lookup f.jsonName = some (.array items))
      (hitems : Json.DenotesItems σ f.kind items slot)
      (h : Json.DenotesSlots σ members fields slots) :
      Json.DenotesSlots σ members (f :: fields) (slot :: slots)

/-- What the items of an array stand for, one by one. -/
inductive Json.DenotesItems (σ : Schema) : Kind → List Json → Slot → Prop where
  | nil {kind : Kind} : Json.DenotesItems σ kind [] []
  | cons {kind : Kind} {v : Json} {e : Element} {items : List Json} {es : Slot}
      (he : Json.Denotes σ kind v e) (h : Json.DenotesItems σ kind items es) :
      Json.DenotesItems σ kind (v :: items) (e :: es)
end

/-! ## Scalars -/

namespace Coercion

variable {v : Json}

theorem string_strict_iff {s : String} : strict.string v = .ok s ↔ v = .string s := by
  cases v with
  | string s' => simp [string]
  | _ => simp [string, expected]

theorem bool_strict_iff {b : Bool} : strict.bool v = .ok b ↔ v = .bool b := by
  cases v with
  | bool b' => simp [bool]
  | _ => simp [bool, expected]

/-- The signed 32-bit integers among the numbers are spelled as integers. -/
theorem toInt32?_iff {x : Number} {n : Int32} :
    x.toInt64?.bind toInt32? = some n ↔ x = .integer n.toInt := by
  have hlow := n.le_toInt
  have hhigh := n.toInt_lt
  constructor
  · intro h
    rcases exists_integer h with ⟨i, rfl, -, hi⟩
    have hfits := toInt32?_eq_some hi
    rw [toInt32?, if_pos hfits, Option.some.injEq] at hi
    simp only [Numeric.fitsInt32, Bool.and_eq_true, decide_eq_true_eq] at hfits
    rw [← hi, Int32.toInt_ofInt_of_le (by omega) (by omega)]
  · rintro rfl
    have hfits64 : Numeric.fitsInt64 n.toInt = true := by
      simp only [Numeric.fitsInt64, Bool.and_eq_true, decide_eq_true_eq]
      omega
    have hfits32 : Numeric.fitsInt32 n.toInt = true := by
      simp only [Numeric.fitsInt32, Bool.and_eq_true, decide_eq_true_eq]
      omega
    simp [Number.toInt64?, toInt32?, hfits64, hfits32]

theorem int32_strict_iff {n : Int32} :
    strict.int32 v = .ok n ↔ v = .number (.integer n.toInt) := by
  cases v with
  | number x =>
    rw [Json.number.injEq, ← toInt32?_iff, int32]
    cases x.toInt64?.bind toInt32? <;> simp
  | _ => simp [int32, expected]

theorem toUInt64?_iff {x : Number} {n : UInt64} :
    x.toUInt64? = some n ↔ x = .integer n.toNat := by
  have hbound := n.toNat_lt
  cases x with
  | double x => simp [Number.toUInt64?]
  | integer i =>
    simp only [Number.toUInt64?, Numeric.fitsUInt64, Option.ite_none_right_eq_some,
      Bool.and_eq_true, decide_eq_true_eq, Option.some.injEq, Number.integer.injEq]
    constructor
    · rintro ⟨⟨hlow, hhigh⟩, rfl⟩
      simp
      omega
    · rintro rfl
      exact ⟨by omega, by simp⟩

theorem uint64_strict_iff {n : UInt64} :
    strict.uint64 v = .ok n ↔ v = .number (.integer n.toNat) ∨
      ∃ s : String, v = .string s ∧ Numeric.Unsigned s.toList n.toNat := by
  cases v with
  | number x =>
    have hiff := toUInt64?_iff (x := x) (n := n)
    rw [uint64]
    cases hx : x.toUInt64? <;> simp [← hiff, hx]
  | string s =>
    have hiff := Numeric.uint64?_eq_some_iff (s := s.toList) (n := n)
    rw [uint64]
    cases hs : Numeric.uint64? s.toList <;> simp [← hiff, hs]
  | _ => simp [uint64, expected]

theorem enum_strict_iff {type : EnumType} {n : Int32} :
    strict.enum type v = .ok n ↔ v = .number (.integer n.toInt) ∨
      ∃ s, v = .string s ∧ type.numberOf? s = some n := by
  cases v with
  | number x =>
    have hiff := toInt32?_iff (x := x) (n := n)
    rw [enum]
    cases hx : x.toInt64?.bind toInt32? <;> simp [← hiff, hx]
  | string s =>
    rw [enum]
    cases hs : type.numberOf? s <;> simp [hs]
  | _ => simp [enum, expected]

end Coercion

namespace EnumType

theorem exists_value_of_numberOf? {type : EnumType} {s : String} {n : Int32}
    (h : type.numberOf? s = some n) : ∃ value ∈ type.values, value.symbol = s ∧ value.number = n := by
  rcases Option.map_eq_some_iff.1 h with ⟨value, hfind, hnumber⟩
  have hsymbol := List.find?_some hfind
  exact ⟨value, List.mem_of_find?_eq_some hfind, by simpa using hsymbol, hnumber⟩

theorem exists_numberOf?_iff {type : EnumType} {s : String} :
    (∃ n, type.numberOf? s = some n) ↔ s ∈ type.values.map (·.symbol) := by
  constructor
  · rintro ⟨n, hn⟩
    rcases exists_value_of_numberOf? hn with ⟨value, hvalue, hsymbol, -⟩
    exact List.mem_map.2 ⟨value, hvalue, hsymbol⟩
  · intro h
    rcases List.mem_map.1 h with ⟨value, hvalue, hsymbol⟩
    have hsome : (type.values.find? fun v => v.symbol == s).isSome = true :=
      List.find?_isSome.2 ⟨value, hvalue, by simpa using hsymbol⟩
    rcases Option.isSome_iff_exists.1 hsome with ⟨found, hfound⟩
    exact ⟨found.number, by rw [numberOf?, hfound]; rfl⟩

end EnumType

/-! ## Sources -/

namespace FieldSource

variable {σ : Schema} {src : FieldSource} {key : String} {kind : Kind}

theorem get?_eq_none_iff :
    src.get? key = none ↔ ∀ v, src.members.lookup key = some v → v = .null := by
  constructor
  · intro h v hv
    by_contra hnull
    rw [get?_eq_some_iff.2 ⟨hnull, hv⟩] at h
    cases h
  · intro h
    by_contra hsome
    rcases Option.ne_none_iff_exists'.1 hsome with ⟨v, hv⟩
    rcases get?_eq_some_iff.1 hv with ⟨hnull, hlookup⟩
    exact hnull (h v hlookup)

/-- No key is unknown exactly if every key is one of the table. -/
theorem unknownKey?_eq_none_iff {t : MessageType} {members : List (String × Json)} :
    unknownKey? t members = none ↔ ∀ m ∈ members, ∃ f ∈ t.fields, f.jsonName = m.1 := by
  simp [unknownKey?, List.find?_eq_none]

/-- What a strict source can read of every value is said by the rules. -/
def ReadsFitting (σ : Schema) (src : FieldSource) : Prop :=
  src.coercion = .strict → ∀ key kind v,
    (∃ e, src.element σ key kind v = .ok e) ↔ Json.Fits σ src.limits src.depth kind v

variable (h : src.ReadsFitting σ) (hstrict : src.coercion = .strict)

include h hstrict

theorem ReadsFitting.single_iff :
    (∃ slot, src.slot σ key kind false = .ok slot) ↔ ∀ v, v ≠ .null →
      src.members.lookup key = some v → Json.Fits σ src.limits src.depth kind v := by
  cases hget : src.get? key with
  | none =>
    rw [slot_none hget]
    refine ⟨?_, fun _ => ⟨[], rfl⟩⟩
    intro _ v hnull hlookup
    exact absurd (get?_eq_none_iff.1 hget v hlookup) hnull
  | some v =>
    rcases get?_eq_some_iff.1 hget with ⟨hnull, hlookup⟩
    rw [slot_single hget, exists_map_iff, h hstrict]
    constructor
    · intro hfits w _ hw
      rw [hlookup] at hw
      cases hw
      exact hfits
    · intro hall
      exact hall v hnull hlookup

theorem ReadsFitting.repeated_iff :
    (∃ slot, src.slot σ key kind true = .ok slot) ↔
      (∀ v, v ≠ .null → src.members.lookup key = some v → ∃ items, v = .array items) ∧
      ∀ items, src.members.lookup key = some (.array items) →
        ∀ item ∈ items, Json.Fits σ src.limits src.depth kind item := by
  cases hget : src.get? key with
  | none =>
    have hnone := get?_eq_none_iff.1 hget
    rw [slot_none hget]
    refine ⟨fun _ => ⟨?_, ?_⟩, fun _ => ⟨[], rfl⟩⟩
    · intro v hnull hlookup
      exact absurd (hnone v hlookup) hnull
    · intro items hlookup
      cases hnone _ hlookup
  | some v =>
    rcases get?_eq_some_iff.1 hget with ⟨hnull, hlookup⟩
    rw [hlookup]
    -- Only an array is read, and every item of it as a value of the kind.
    by_cases harray : ∃ items, v = .array items
    · rcases harray with ⟨items, rfl⟩
      rw [slot_array hget, exists_mapM_iff]
      simp only [h hstrict, Option.some.injEq, Json.array.injEq]
      constructor
      · intro hitems
        refine ⟨fun v _ hv => ⟨items, hv.symm⟩, ?_⟩
        rintro items rfl
        exact hitems
      · rintro ⟨-, hmany⟩
        exact hmany items rfl
    · constructor
      · rintro ⟨slot, hslot⟩
        rcases slot_ok hslot with ⟨hnone, -⟩ | ⟨hloose, -⟩ | ⟨items, -, hitems, -⟩ |
          ⟨v', e, hsingle, -⟩
        · rw [hget] at hnone
          cases hnone
        · rw [hstrict] at hloose
          cases hloose
        · rw [hget] at hitems
          exact absurd ⟨items, Option.some.inj hitems⟩ harray
        · cases hsingle
      · rintro ⟨hlist, -⟩
        exact absurd (hlist v hnull rfl) harray

/-- A strict source without unknown keys can be read exactly if its members are an object of its
type. -/
theorem ReadsFitting.message_iff {t : MessageType} :
    (unknownKey? t src.members = none ∧ ∃ m, src.message σ t = .ok m) ↔
      Json.Typed σ src.limits t src.depth (.object src.members) := by
  rw [unknownKey?_eq_none_iff, message, exists_mapM_iff]
  constructor
  · rintro ⟨hkeys, hslots⟩
    have hone : ∀ f ∈ t.fields, f.repeated = false → _ := fun f hf hsingle =>
      (h.single_iff hstrict).1 (hsingle ▸ hslots f hf)
    have hmany : ∀ f ∈ t.fields, f.repeated = true → _ := fun f hf hrepeated =>
      (h.repeated_iff hstrict).1 (hrepeated ▸ hslots f hf)
    exact .object hkeys hone (fun f hf hr => (hmany f hf hr).1) fun f hf hr => (hmany f hf hr).2
  · intro htyped
    cases htyped with
    | object hkeys hone hlist hmany =>
      refine ⟨hkeys, ?_⟩
      intro f hf
      cases hrepeated : f.repeated with
      | false => exact (h.single_iff hstrict).2 (hone f hf hrepeated)
      | true => exact (h.repeated_iff hstrict).2 ⟨hlist f hf hrepeated, hmany f hf hrepeated⟩

omit h hstrict

theorem readsFitting (σ : Schema) (src : FieldSource) : src.ReadsFitting σ := by
  -- Of all kinds, only submessages lead to another source, and that one is deeper.
  induction src using nested with
  | _ src ih =>
    intro hstrict key kind v
    cases kind with
    | string =>
      rw [element_string, exists_map_iff, hstrict]
      simp only [fit_ok_iff, Coercion.string_strict_iff]
      constructor
      · rintro ⟨s, rfl⟩
        exact .string s
      · intro hfits
        cases hfits with
        | string s => exact ⟨s, rfl⟩
    | bool =>
      rw [element_bool, exists_map_iff, hstrict]
      simp only [fit_ok_iff, Coercion.bool_strict_iff]
      constructor
      · rintro ⟨b, rfl⟩
        exact .bool b
      · intro hfits
        cases hfits with
        | bool b => exact ⟨b, rfl⟩
    | int32 =>
      rw [element_int32, exists_map_iff, hstrict]
      simp only [fit_ok_iff, Coercion.int32_strict_iff]
      constructor
      · rintro ⟨n, rfl⟩
        exact .int32 n.toInt n.le_toInt n.toInt_lt
      · intro hfits
        cases hfits with
        | int32 n hlow hhigh =>
          exact ⟨.ofInt n, by rw [Int32.toInt_ofInt_of_le hlow hhigh]⟩
    | uint64 =>
      rw [element_uint64, exists_map_iff]
      simp only [uint64_ok_iff, hstrict, Coercion.uint64_strict_iff]
      constructor
      · rintro ⟨n, rfl | ⟨s, rfl, hdigits⟩, hrange⟩
        · exact .uint64 n.toNat n.toNat_lt (by rwa [UInt64.ofNat_toNat])
        · exact .digits s n.toNat hdigits n.toNat_lt (by rwa [UInt64.ofNat_toNat])
      · intro hfits
        cases hfits with
        | uint64 n hbound hrange =>
          exact ⟨.ofNat n, .inl (by rw [UInt64.toNat_ofNat_of_lt' hbound]), hrange⟩
        | digits s n hdigits hbound hrange =>
          exact ⟨.ofNat n, .inr ⟨s, rfl, by rwa [UInt64.toNat_ofNat_of_lt' hbound]⟩, hrange⟩
    | «enum» type =>
      rw [element_enum, exists_map_iff, hstrict]
      simp only [fit_ok_iff, Coercion.enum_strict_iff]
      constructor
      · rintro ⟨n, rfl | ⟨s, rfl, hs⟩⟩
        · exact .number type n.toInt n.le_toInt n.toInt_lt
        · exact .symbol type s (EnumType.exists_numberOf?_iff.1 ⟨n, hs⟩)
      · intro hfits
        cases hfits with
        | number type n hlow hhigh =>
          exact ⟨.ofInt n, .inl (by rw [Int32.toInt_ofInt_of_le hlow hhigh])⟩
        | symbol type s hs =>
          rcases EnumType.exists_numberOf?_iff.2 hs with ⟨n, hn⟩
          exact ⟨n, .inr ⟨s, rfl, hn⟩⟩
    | message name =>
      constructor
      · rintro ⟨e, he⟩
        rcases element_message_ok he with
          ⟨hopen, ⟨members, slots, rfl, hkeys, hm, -⟩ | ⟨hloose, -⟩⟩
        · have hchild := ih hopen (σ.type name) members
          exact .message hopen ((hchild.message_iff hstrict).1 ⟨hkeys hstrict, slots, hm⟩)
        · rw [hstrict] at hloose
          cases hloose
      · intro hfits
        cases hfits with
        | message hopen htyped =>
          cases v with
          | object members =>
            have hchild := ih hopen (σ.type name) members
            rcases (hchild.message_iff hstrict).2 htyped with ⟨hkeys, m, hm⟩
            have hobject : src.element σ key (.message name) (.object members) = _ :=
              element_object hopen fun _ => hkeys
            exact ⟨.message m, hobject.trans (map_eq_ok_iff.2 ⟨m, hm, rfl⟩)⟩
          | _ => cases htyped

/-! ## What is read -/

theorem denotesItems_of_forall₂ {items : List Json} {es : Slot}
    (h : List.Forall₂ (fun item e => Json.Denotes σ kind item e) items es) :
    Json.DenotesItems σ kind items es := by
  induction h with
  | nil => exact .nil
  | cons he _ ih => exact .cons he ih

/-- The slots of a strict source are what its members stand for, if its values are. -/
theorem denotesSlots_of_forall₂ (hstrict : src.coercion = .strict)
    (helement : ∀ key kind v e, src.element σ key kind v = .ok e → Json.Denotes σ kind v e)
    {fields : List Field} {slots : List Slot}
    (h : List.Forall₂ (fun f slot => src.slot σ f.jsonName f.kind f.repeated = .ok slot)
      fields slots) : Json.DenotesSlots σ src.members fields slots := by
  induction h with
  | nil => exact .nil
  | cons hslot _ ih =>
    rcases slot_ok hslot with ⟨hnone, rfl⟩ | ⟨hloose, -⟩ | ⟨items, hrepeated, hget, hitems⟩ |
      ⟨v, e, hsingle, hget, he, rfl⟩
    · exact .absent (get?_eq_none_iff.1 hnone) ih
    · rw [hstrict] at hloose
      cases hloose
    · have hread := hitems.imp fun item e he => helement _ _ item e he
      exact .repeated hrepeated (get?_eq_some_iff.1 hget).2 (denotesItems_of_forall₂ hread) ih
    · exact .single hsingle (get?_eq_some_iff.1 hget).2 (helement _ _ v e he) ih

theorem denotes_of_element (src : FieldSource) : src.coercion = .strict →
    ∀ key kind v e, src.element σ key kind v = .ok e → Json.Denotes σ kind v e := by
  induction src using nested with
  | _ src ih =>
    intro hstrict key kind v e he
    cases kind with
    | string =>
      rw [element_string, hstrict] at he
      rcases map_eq_ok_iff.1 he with ⟨s, hs, rfl⟩
      obtain rfl := Coercion.string_strict_iff.1 (fit_ok_iff.1 hs)
      exact .string s
    | bool =>
      rw [element_bool, hstrict] at he
      rcases map_eq_ok_iff.1 he with ⟨b, hb, rfl⟩
      obtain rfl := Coercion.bool_strict_iff.1 (fit_ok_iff.1 hb)
      exact .bool b
    | int32 =>
      rw [element_int32, hstrict] at he
      rcases map_eq_ok_iff.1 he with ⟨n, hn, rfl⟩
      obtain rfl := Coercion.int32_strict_iff.1 (fit_ok_iff.1 hn)
      exact .int32 n
    | uint64 =>
      rw [element_uint64] at he
      rcases map_eq_ok_iff.1 he with ⟨n, hn, rfl⟩
      have hread := (uint64_ok_iff.1 hn).1
      rw [hstrict] at hread
      rcases Coercion.uint64_strict_iff.1 hread with rfl | ⟨s, rfl, hdigits⟩
      · exact .uint64 n
      · exact .digits s n hdigits
    | «enum» type =>
      rw [element_enum, hstrict] at he
      rcases map_eq_ok_iff.1 he with ⟨n, hn, rfl⟩
      rcases Coercion.enum_strict_iff.1 (fit_ok_iff.1 hn) with rfl | ⟨s, rfl, hs⟩
      · exact .number type n
      · rcases EnumType.exists_value_of_numberOf? hs with ⟨value, hvalue, rfl, rfl⟩
        exact .symbol type value hvalue
    | message name =>
      rcases element_message_ok he with
        ⟨hopen, ⟨members, slots, rfl, -, hm, rfl⟩ | ⟨hloose, -⟩⟩
      · have hchild : (src.child (σ.type name) members).coercion = .strict := hstrict
        have hread := ih hopen (σ.type name) members hchild
        exact .message (denotesSlots_of_forall₂ hchild hread (message_ok_iff.1 hm))
      · rw [hstrict] at hloose
        cases hloose

end FieldSource

/-! ## Messages -/

theorem Schema.readJson_strict_ok_iff {σ : Schema} {t : MessageType} {limits : Limits} {v : Json}
    {m : Message} :
    σ.readJson t .strict limits v = .ok m ↔ ∃ members, v = .object members ∧
      FieldSource.unknownKey? t members = none ∧
      FieldSource.message σ ⟨members, t.name, .strict, limits, 0⟩ t = .ok m := by
  cases v with
  | object members =>
    rw [readJson, FieldSource.ofJson, FieldSource.membersOf?]
    cases hkey : FieldSource.unknownKey? t members with
    | none => simp [hkey]
    | some key => simp [hkey]
  | _ => simp [readJson, FieldSource.ofJson, FieldSource.membersOf?]

/-- The strict reading takes exactly the objects of a type, within the limits. A message that it
gives holds what the members stand for, field by field. -/
theorem Schema.readJson_strict_iff_typed (σ : Schema) (t : MessageType) (limits : Limits)
    (v : Json) :
    ((∃ m, σ.readJson t .strict limits v = .ok m) ↔ Json.Typed σ limits t 0 v) ∧
    ∀ m, σ.readJson t .strict limits v = .ok m →
      ∃ members, v = .object members ∧ Json.DenotesSlots σ members t.fields m := by
  constructor
  · constructor
    · rintro ⟨m, hm⟩
      rcases readJson_strict_ok_iff.1 hm with ⟨members, rfl, hkeys, hread⟩
      have hsource := FieldSource.readsFitting σ ⟨members, t.name, .strict, limits, 0⟩
      exact (hsource.message_iff rfl).1 ⟨hkeys, m, hread⟩
    · intro htyped
      cases v with
      | object members =>
        have hsource := FieldSource.readsFitting σ ⟨members, t.name, .strict, limits, 0⟩
        rcases (hsource.message_iff rfl).2 htyped with ⟨hkeys, m, hread⟩
        exact ⟨m, readJson_strict_ok_iff.2 ⟨members, rfl, hkeys, hread⟩⟩
      | _ => cases htyped
  · intro m hm
    rcases readJson_strict_ok_iff.1 hm with ⟨members, rfl, -, hread⟩
    have hslots := FieldSource.message_ok_iff.1 hread
    exact ⟨members, rfl,
      FieldSource.denotesSlots_of_forall₂ rfl (FieldSource.denotes_of_element _ rfl) hslots⟩

namespace Catalog

/-- Options of a table with one more column, of eight characters, and without a name. -/
def tenantJson : Json :=
  .object [
    ("include", .array [.object [
      ("name", .string "tenant"), ("tag", .object [("size", .ofInt 8)])]]),
    ("ormable", .bool true),
    ("table", .null)]

/-- The column is read two submessages deep, and the null counts as the default. -/
theorem readJson_strict_tenantJson :
    standard.readJson messageOptions .strict {} tenantJson =
      .ok [[.bool true], [.message [[], [.string "tenant"],
        [.message (columnTag.put columnTag.empty 3 (.int32 8))], []]], [], []] ∧
    Json.Typed standard {} messageOptions 0 tenantJson ∧
    ∃ members, tenantJson = .object members ∧
      Json.DenotesSlots standard members messageOptions.fields [[.bool true],
        [.message [[], [.string "tenant"],
          [.message (columnTag.put columnTag.empty 3 (.int32 8))], []]], [], []] := by
  have hread : standard.readJson messageOptions .strict {} tenantJson =
      .ok [[.bool true], [.message [[], [.string "tenant"],
        [.message (columnTag.put columnTag.empty 3 (.int32 8))], []]], [], []] := by cbv
  have htyped := Schema.readJson_strict_iff_typed standard messageOptions {} tenantJson
  exact ⟨hread, htyped.1.1 ⟨_, hread⟩, htyped.2 _ hread⟩

end Catalog

end SchemaCodec
