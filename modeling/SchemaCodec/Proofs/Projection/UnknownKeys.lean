import Mathlib
import SchemaCodec.Proofs.Projection.Pruning
import SchemaCodec.Proofs.Projection.Typing
import SchemaCodec.Proofs.Text.ByteOrder

/-!
# Proofs.Projection.UnknownKeys — keys that a type lacks

- `Json.Reached`: the objects that a strict reading looks at before it can meet another fault.
- `MessageType.FirstUnknown`: the first of the keys that a type lacks, in the order of their bytes.

A strict reading looks at the keys of an object before its values, and at fields and items one
after the other. So the first unknown key of an object that is reached is the fault of the whole
reading (`FieldSource.checked_of_reached`), while loosely no unknown key is seen at all
(`Catalog.pruning_is_harmless`).
-/

namespace SchemaCodec

/-! ## Objects that are reached -/

/-- The values that members hold for a field fit it. -/
def Json.FitsUnder (σ : Schema) (limits : Limits) (d : Nat) (members : List (String × Json))
    (f : Field) : Prop :=
  ∀ v, v ≠ .null → members.lookup f.jsonName = some v →
    (f.repeated = false → Json.Fits σ limits d f.kind v) ∧
    (f.repeated = true → ∃ items, v = .array items ∧
      ∀ item ∈ items, Json.Fits σ limits d f.kind item)

/-- The objects that a strict reading looks at, each as one of a type, before it can meet another
fault: the fields and items in front of an object fit, its enclosing objects have no unknown keys,
and it may open. -/
inductive Json.Reached (σ : Schema) (limits : Limits) (u : MessageType)
    (inner : List (String × Json)) : MessageType → Nat → Json → Prop where
  | here {d : Nat} : Json.Reached σ limits u inner u d (.object inner)
  | single {t : MessageType} {d : Nat} {members : List (String × Json)} {f : Field}
      {pre post : List Field} {name : String} {v : Json}
      (hkeys : ∀ m ∈ members, ∃ f ∈ t.fields, f.jsonName = m.1)
      (hfields : t.fields = pre ++ f :: post)
      (hpre : ∀ g ∈ pre, Json.FitsUnder σ limits d members g)
      (hkind : f.kind = .message name) (hsingle : f.repeated = false)
      (hlookup : members.lookup f.jsonName = some v) (hopen : d + 1 ≤ limits.recursion)
      (h : Json.Reached σ limits u inner (σ.type name) (d + 1) v) :
      Json.Reached σ limits u inner t d (.object members)
  | item {t : MessageType} {d : Nat} {members : List (String × Json)} {f : Field}
      {pre post : List Field} {name : String} {before after : List Json} {v : Json}
      (hkeys : ∀ m ∈ members, ∃ f ∈ t.fields, f.jsonName = m.1)
      (hfields : t.fields = pre ++ f :: post)
      (hpre : ∀ g ∈ pre, Json.FitsUnder σ limits d members g)
      (hkind : f.kind = .message name) (hrepeated : f.repeated = true)
      (hlookup : members.lookup f.jsonName = some (.array (before ++ v :: after)))
      (hbefore : ∀ item ∈ before, Json.Fits σ limits d f.kind item)
      (hopen : d + 1 ≤ limits.recursion)
      (h : Json.Reached σ limits u inner (σ.type name) (d + 1) v) :
      Json.Reached σ limits u inner t d (.object members)

/-- The first of the keys that a type lacks, in the order of their bytes. -/
structure MessageType.FirstUnknown (t : MessageType) (members : List (String × Json))
    (key : String) : Prop where
  mem : key ∈ members.map (·.1)
  unknown : ∀ f ∈ t.fields, f.jsonName ≠ key
  first : ∀ k ∈ members.map (·.1), (∀ f ∈ t.fields, f.jsonName ≠ k) → k ≠ key →
    Text.utf8 key < Text.utf8 k

theorem MessageType.firstUnknown_of_unknownKey? {t : MessageType} {members : List (String × Json)}
    {key : String} (hkeys : members.Pairwise fun a b => a.1 < b.1)
    (h : FieldSource.unknownKey? t members = some key) : t.FirstUnknown members key := by
  rcases Option.map_eq_some_iff.1 h with ⟨m, hfind, rfl⟩
  rcases List.find?_eq_some_iff_append.1 hfind with ⟨hunknown, before, after, rfl, hbefore⟩
  have hlater : ∀ a ∈ after, m.1 < a.1 :=
    (List.pairwise_cons.1 (List.pairwise_append.1 hkeys).2.1).1
  refine ⟨by simp, by simpa using hunknown, ?_⟩
  intro k hk hlacks hne
  rcases List.mem_map.1 hk with ⟨a, ha, rfl⟩
  rcases List.mem_append.1 ha with hearlier | hrest
  · -- All keys in front of it are known.
    obtain ⟨f, hf, hname⟩ : ∃ f ∈ t.fields, f.jsonName = a.1 := by
      simpa using hbefore a hearlier
    exact absurd hname (hlacks f hf)
  · rcases List.mem_cons.1 hrest with rfl | hrest
    · exact absurd rfl hne
    · exact (Text.lt_iff_utf8_lt _ _).1 (hlater a hrest)

namespace FieldSource

variable {σ : Schema} {src : FieldSource} {t u : MessageType} {inner : List (String × Json)}

theorem ReadsFitting.fitsUnder_iff (h : src.ReadsFitting σ) (hstrict : src.coercion = .strict)
    {f : Field} :
    (∃ slot, src.slot σ f.jsonName f.kind f.repeated = .ok slot) ↔
      Json.FitsUnder σ src.limits src.depth src.members f := by
  unfold Json.FitsUnder
  cases hrepeated : f.repeated with
  | false =>
    rw [h.single_iff hstrict]
    simp
  | true =>
    rw [h.repeated_iff hstrict]
    constructor
    · rintro ⟨hlist, hmany⟩ v hnull hlookup
      refine ⟨fun hsingle => absurd hsingle (by decide), fun _ => ?_⟩
      rcases hlist v hnull hlookup with ⟨items, rfl⟩
      exact ⟨items, rfl, hmany items hlookup⟩
    · intro hfits
      constructor
      · intro v hnull hlookup
        rcases (hfits v hnull hlookup).2 rfl with ⟨items, rfl, -⟩
        exact ⟨items, rfl⟩
      · intro items hlookup
        rcases (hfits (.array items) (by simp) hlookup).2 rfl with ⟨same, hsame, hitems⟩
        cases hsame
        exact hitems

/-- The first field that is not read decides, if no key is unknown. -/
theorem checked_eq_error (hstrict : src.coercion = .strict)
    (hkeys : ∀ m ∈ src.members, ∃ f ∈ t.fields, f.jsonName = m.1) {f : Field}
    {pre post : List Field} (hfields : t.fields = pre ++ f :: post)
    (hpre : ∀ g ∈ pre, Json.FitsUnder σ src.limits src.depth src.members g) {e : Fault}
    (hslot : src.slot σ f.jsonName f.kind f.repeated = .error e) : src.checked σ t = .error e := by
  rw [checked, unknownKey?_eq_none_iff.2 hkeys, message, hfields]
  refine mapM_eq_error ?_ hslot
  intro g hg
  exact ((readsFitting σ src).fitsUnder_iff hstrict).2 (hpre g hg)

theorem exists_object_of_reached {limits : Limits} {d : Nat} {v : Json}
    (h : Json.Reached σ limits u inner t d v) : ∃ members, v = .object members := by
  cases h <;> exact ⟨_, rfl⟩

/-- The unknown key of an object that is reached is the fault of the whole reading. -/
theorem checked_of_reached {limits : Limits} {d : Nat} {v : Json}
    (h : Json.Reached σ limits u inner t d v) {key : String}
    (hkey : unknownKey? u inner = some key) {src : FieldSource} (hstrict : src.coercion = .strict)
    (hlimits : src.limits = limits) (hdepth : src.depth = d) (hv : v = .object src.members) :
    src.checked σ t = .error (.parse u.name (Mismatch.unknownField key).message) := by
  -- The fault passes from an object to the one around it, where all in front of it is read.
  induction h generalizing src with
  | here =>
    cases hv
    rw [checked, hkey]
  | @single t d _ f pre post name v hkeys hfields hpre hkind hsingle hlookup hopen h ih =>
    subst hlimits hdepth
    cases hv
    rcases exists_object_of_reached h with ⟨members, rfl⟩
    have hchild : (src.child (σ.type name) members).checked σ (σ.type name) = _ :=
      ih hstrict rfl rfl rfl
    refine checked_eq_error hstrict hkeys hfields hpre ?_
    have hget := get?_eq_some_iff.2 ⟨by simp, hlookup⟩
    rw [hsingle, slot_single hget, hkind, element_checked hstrict hopen, hchild]
    rfl
  | @item t d _ f pre post name before after v hkeys hfields hpre hkind hrepeated hlookup hbefore
      hopen h ih =>
    subst hlimits hdepth
    cases hv
    rcases exists_object_of_reached h with ⟨members, rfl⟩
    have hchild : (src.child (σ.type name) members).checked σ (σ.type name) = _ :=
      ih hstrict rfl rfl rfl
    refine checked_eq_error hstrict hkeys hfields hpre ?_
    have hget := get?_eq_some_iff.2 ⟨by simp, hlookup⟩
    rw [hrepeated, slot_array hget]
    refine mapM_eq_error ?_ ?_
    · intro item hitem
      exact (readsFitting σ src hstrict _ _ _).2 (hbefore item hitem)
    · rw [hkind, element_checked hstrict hopen, hchild]
      rfl

end FieldSource

/-! ## Messages -/

theorem Json.Ordered.of_reached {σ : Schema} {limits : Limits} {t u : MessageType}
    {inner : List (String × Json)} {d : Nat} {v : Json} (h : Json.Reached σ limits u inner t d v)
    (hv : v.Ordered) : inner.Pairwise fun a b => a.1 < b.1 := by
  induction h with
  | here => exact (ordered_object_iff.1 hv).1
  | single hkeys hfields hpre hkind hsingle hlookup hopen h ih =>
    exact ih ((ordered_object_iff.1 hv).2 _ (mem_of_lookup hlookup))
  | item hkeys hfields hpre hkind hrepeated hlookup hbefore hopen h ih =>
    have hitems := (ordered_object_iff.1 hv).2 _ (mem_of_lookup hlookup)
    exact ih (ordered_array_iff.1 hitems _ (List.mem_append_right _ List.mem_cons_self))

namespace Catalog

/-- Members that are null, and loosely those under unknown keys, carry no information. Strictly an
unknown key is a fault wherever an object is reached, and the first one in the order of the bytes
is named with the type that lacks it. -/
theorem pruning_is_harmless {t : MessageType} (ht : t ∈ types) (limits : Limits) {v : Json}
    (hv : v.Ordered) :
    standard.readJson t .loose limits (v.prune standard .loose t) =
      standard.readJson t .loose limits v ∧
    standard.readJson t .strict limits (v.prune standard .strict t) =
      standard.readJson t .strict limits v ∧
    ∀ u inner, Json.Reached standard limits u inner t 0 v →
      (∃ m ∈ inner, ∀ f ∈ u.fields, f.jsonName ≠ m.1) →
      ∃ key, u.FirstUnknown inner key ∧ standard.readJson t .strict limits v =
        .error (.parse u.name (Mismatch.unknownField key).message) := by
  have hwell : t.WellFormed := standard_wellFormed t ht
  refine ⟨Schema.readJson_prune standard_wellFormed hwell hv .loose,
    Schema.readJson_prune standard_wellFormed hwell hv .strict, ?_⟩
  rintro u inner hreached ⟨m, hm, hlacks⟩
  cases hkey : FieldSource.unknownKey? u inner with
  | none =>
    rcases FieldSource.unknownKey?_eq_none_iff.1 hkey m hm with ⟨f, hf, hname⟩
    exact absurd hname (hlacks f hf)
  | some key =>
    refine ⟨key, MessageType.firstUnknown_of_unknownKey? (hv.of_reached hreached) hkey, ?_⟩
    rcases FieldSource.exists_object_of_reached hreached with ⟨members, rfl⟩
    rw [Schema.readJson_strict_object]
    exact FieldSource.checked_of_reached hreached hkey rfl rfl rfl rfl

/-- The members of a column with two unknown keys, one of them null. -/
def strayColumn : List (String × Json) := [
  ("color", .null), ("name", .string "tenant"), ("shade", .ofInt 1), ("type", .null)]

/-- Options of a table with such a column. -/
def strayJson : Json :=
  .object [("include", .array [.object strayColumn]), ("table", .null)]

/-- Loosely only the name of the column is read, and strictly the null is refused. -/
theorem pruning_is_harmless_strayJson :
    strayJson.Ordered ∧
    strayJson.prune standard .loose messageOptions =
      .object [("include", .array [.object [("name", .string "tenant")]])] ∧
    standard.readJson messageOptions .loose {}
        (strayJson.prune standard .loose messageOptions) =
      standard.readJson messageOptions .loose {} strayJson ∧
    (∃ key, extraField.FirstUnknown strayColumn key ∧
      standard.readJson messageOptions .strict {} strayJson =
        .error (.parse extraField.name (Mismatch.unknownField key).message)) ∧
    standard.readJson messageOptions .strict {} strayJson =
      .error (.parse extraField.name (Mismatch.unknownField "color").message) := by
  have hcolumn : (Json.object strayColumn).Ordered := by
    refine .object _ (by decide) ?_
    simp only [strayColumn, List.forall_mem_cons, List.not_mem_nil, false_imp_iff, implies_true,
      and_true]
    exact ⟨.null, .string _, .number _, .null⟩
  have hordered : strayJson.Ordered := by
    refine .object _ (by decide) ?_
    simp only [List.forall_mem_cons, List.not_mem_nil, false_imp_iff, implies_true, and_true]
    exact ⟨.array _ (List.forall_mem_singleton.2 hcolumn), .null⟩
  have hreached : Json.Reached standard {} extraField strayColumn messageOptions 0 strayJson := by
    have hfields : messageOptions.fields =
        [⟨1, "ormable", "ormable", .bool, false⟩] ++
        ⟨2, "include", "include", .message "gorm.ExtraField", true⟩ ::
          messageOptions.fields.drop 2 := rfl
    have hlookup : [("include", .array [.object strayColumn]), ("table", Json.null)].lookup
        "include" = some (.array ([] ++ .object strayColumn :: [])) := rfl
    have hinner : Json.Reached standard {} extraField strayColumn
        (standard.type extraField.name) 1 (.object strayColumn) := by
      rw [type_of_mem extraField (by decide)]
      exact .here
    refine .item (by decide) hfields ?_ rfl rfl hlookup (by simp) (by decide) hinner
    intro g hg v _ hv
    rw [List.mem_singleton.1 hg] at hv
    cases hv
  have hlaw := pruning_is_harmless (t := messageOptions) (by decide) {} hordered
  have hunknown : ∃ m ∈ strayColumn, ∀ f ∈ extraField.fields, f.jsonName ≠ m.1 :=
    ⟨("color", .null), List.mem_cons_self, by decide⟩
  have hcolor : FieldSource.unknownKey? extraField strayColumn = some "color" := by decide
  exact ⟨hordered, by cbv, hlaw.1, hlaw.2.2 extraField strayColumn hreached hunknown,
    Schema.readJson_strict_object.trans
      (FieldSource.checked_of_reached hreached hcolor rfl rfl rfl rfl)⟩

end Catalog

end SchemaCodec
