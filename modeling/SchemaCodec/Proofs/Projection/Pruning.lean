import Mathlib
import SchemaCodec.Proofs.Json.Members
import SchemaCodec.Proofs.Projection.Refinement

/-!
# Proofs.Projection.Pruning — members that carry no information

- `Json.prune`: a value without the members that a reading passes over, submessages included.
- `FieldSource.checked`: what a strict reading makes of an object.

A source gives the same slots with its members pruned (`FieldSource.slot_pruned`), because what a
pruned object denotes under the key of a field differs from the original only inside submessages
(`Json.lookup_pruneMembers`), and these are read alike one level deeper
(`FieldSource.readsPruned`). So a value and its pruned form give the same message or the same
fault (`Schema.readJson_prune`).
-/

namespace SchemaCodec

/-! ## Pruning -/

/-- Whether a value is null. -/
def Json.isNull : Json → Bool
  | .null => true
  | _ => false

mutual
/-- An object of a message type without the members that a reading passes over: those that are
null under the key of a field and, loosely, all those under other keys. Objects that stand for
submessages are pruned likewise. -/
def Json.prune (σ : Schema) (coercion : Coercion) (t : MessageType) : Json → Json
  | .object members => .object (Json.pruneMembers σ coercion t members)
  | v => v

/-- An array with its items pruned. -/
def Json.pruneArray (σ : Schema) (coercion : Coercion) (t : MessageType) : Json → Json
  | .array items => .array (Json.pruneItems σ coercion t items)
  | v => v

/-- Items, each of them pruned. -/
def Json.pruneItems (σ : Schema) (coercion : Coercion) (t : MessageType) : List Json → List Json
  | [] => []
  | item :: rest => Json.prune σ coercion t item :: Json.pruneItems σ coercion t rest

/-- Members without those that are passed over. -/
def Json.pruneMembers (σ : Schema) (coercion : Coercion) (t : MessageType) :
    List (String × Json) → List (String × Json)
  | [] => []
  | (key, v) :: rest =>
    match t.fields.find? fun f => f.jsonName == key with
    | none =>
      if coercion = .strict then (key, v) :: Json.pruneMembers σ coercion t rest
      else Json.pruneMembers σ coercion t rest
    | some f =>
      if v.isNull then Json.pruneMembers σ coercion t rest
      else
        let inner :=
          match f.kind with
          | .message name =>
            if f.repeated then Json.pruneArray σ coercion (σ.type name) v
            else Json.prune σ coercion (σ.type name) v
          | _ => v
        (key, inner) :: Json.pruneMembers σ coercion t rest
end

/-- No two fields share a key. -/
theorem MessageType.WellFormed.find?_jsonName {t : MessageType} (ht : t.WellFormed) {f : Field}
    (hf : f ∈ t.fields) : t.fields.find? (fun g => g.jsonName == f.jsonName) = some f := by
  have hsome : (t.fields.find? fun g => g.jsonName == f.jsonName).isSome = true :=
    List.find?_isSome.2 ⟨f, hf, by simp⟩
  rcases Option.isSome_iff_exists.1 hsome with ⟨g, hg⟩
  have hname := List.find?_some hg
  have hsame : g = f :=
    List.inj_on_of_nodup_map ht.keys (List.mem_of_find?_eq_some hg) hf (by simpa using hname)
  rw [hg, hsame]

namespace Json

variable {σ : Schema} {coercion : Coercion} {t : MessageType} {members : List (String × Json)}

/-- A value of a kind with the objects that stand for submessages pruned. -/
def pruneIn (σ : Schema) (coercion : Coercion) (kind : Kind) (v : Json) : Json :=
  match kind with
  | .message name => prune σ coercion (σ.type name) v
  | _ => v

/-- The value of a field with the objects that stand for submessages pruned. -/
def pruneUnder (σ : Schema) (coercion : Coercion) (f : Field) (v : Json) : Json :=
  match f.kind with
  | .message name =>
    if f.repeated then pruneArray σ coercion (σ.type name) v
    else prune σ coercion (σ.type name) v
  | _ => v

theorem pruneMembers_unknown {key : String} {v : Json}
    (hfind : t.fields.find? (fun f => f.jsonName == key) = none) :
    pruneMembers σ coercion t ((key, v) :: members) =
      if coercion = .strict then (key, v) :: pruneMembers σ coercion t members
      else pruneMembers σ coercion t members := by
  rw [pruneMembers, hfind]

theorem pruneMembers_known {key : String} {v : Json} {f : Field}
    (hfind : t.fields.find? (fun f => f.jsonName == key) = some f) :
    pruneMembers σ coercion t ((key, v) :: members) =
      if v.isNull then pruneMembers σ coercion t members
      else (key, pruneUnder σ coercion f v) :: pruneMembers σ coercion t members := by
  rw [pruneMembers, hfind]
  rfl

theorem pruneItems_eq_map (items : List Json) :
    pruneItems σ coercion t items = items.map (prune σ coercion t) := by
  induction items with
  | nil => rfl
  | cons item items ih => rw [pruneItems, ih, List.map_cons]

@[simp]
theorem isNull_pruneUnder {f : Field} (v : Json) :
    (pruneUnder σ coercion f v).isNull = v.isNull := by
  unfold pruneUnder
  cases f.kind with
  | message name =>
    dsimp only
    split <;> cases v <;> rfl
  | _ => rfl

/-- Under the key of a field, pruned members denote the pruned value, and nothing if it is null. -/
theorem lookup_pruneMembers (ht : t.WellFormed) (hkeys : members.Pairwise fun a b => a.1 < b.1)
    {f : Field} (hf : f ∈ t.fields) :
    (pruneMembers σ coercion t members).lookup f.jsonName =
      ((members.lookup f.jsonName).filter fun v => !v.isNull).map (pruneUnder σ coercion f) := by
  induction members with
  | nil => rfl
  | cons m members ih =>
    obtain ⟨key, v⟩ := m
    obtain ⟨hfirst, hrest⟩ := List.pairwise_cons.1 hkeys
    have hothers := ih hrest
    by_cases hkey : f.jsonName = key
    · subst hkey
      -- The key stands nowhere else, so nothing takes the place of a null.
      have hnone : members.lookup f.jsonName = none := by
        refine lookup_eq_none_iff.2 fun hmem => ?_
        rcases List.mem_map.1 hmem with ⟨m, hm, hsame⟩
        exact absurd (hfirst m hm) (hsame ▸ lt_irrefl _)
      rw [hnone] at hothers
      rw [pruneMembers_known (ht.find?_jsonName hf), lookup_cons, if_pos rfl]
      cases hnull : v.isNull with
      | true => exact hothers.trans (by rw [Option.filter_some, hnull]; rfl)
      | false => rw [Option.filter_some, hnull, if_neg Bool.false_ne_true, lookup_cons]; simp
    · have hskip : ∀ w, ((key, w) :: pruneMembers σ coercion t members).lookup f.jsonName =
          (pruneMembers σ coercion t members).lookup f.jsonName := by
        intro w
        rw [lookup_cons, if_neg hkey]
      rw [lookup_cons, if_neg hkey, ← hothers]
      cases hfind : t.fields.find? fun g => g.jsonName == key with
      | none =>
        rw [pruneMembers_unknown hfind]
        split
        next => exact hskip v
        next => rfl
      | some g =>
        rw [pruneMembers_known hfind]
        split
        next => rfl
        next => exact hskip _

/-- Strictly, the unknown keys stay, and with them the one that is refused. -/
theorem unknownKey?_pruneMembers :
    FieldSource.unknownKey? t (pruneMembers σ .strict t members) =
      FieldSource.unknownKey? t members := by
  induction members with
  | nil => rfl
  | cons m members ih =>
    obtain ⟨key, v⟩ := m
    cases hfind : t.fields.find? fun f => f.jsonName == key with
    | none =>
      have hunknown : (!t.fields.any fun f => f.jsonName == key) = true := by
        simpa [List.find?_eq_none] using hfind
      rw [pruneMembers_unknown hfind, if_pos rfl]
      simp only [FieldSource.unknownKey?, List.find?_cons, hunknown]
    | some f =>
      have hknown : (!t.fields.any fun f => f.jsonName == key) = false := by
        have hname := List.find?_some hfind
        simpa using ⟨f, List.mem_of_find?_eq_some hfind, by simpa using hname⟩
      have hskip : ∀ w rest, FieldSource.unknownKey? t ((key, w) :: rest) =
          FieldSource.unknownKey? t rest := by
        intro w rest
        simp only [FieldSource.unknownKey?, List.find?_cons, hknown]
      rw [pruneMembers_known hfind, hskip, ← ih]
      split
      next => rfl
      next => exact hskip _ _

end Json

/-! ## Sources -/

namespace FieldSource

variable {σ : Schema} {src : FieldSource} {t : MessageType} {key : String} {kind : Kind}

/-- A source with its members pruned. -/
def pruned (σ : Schema) (t : MessageType) (src : FieldSource) : FieldSource :=
  { src with members := Json.pruneMembers σ src.coercion t src.members }

theorem get?_eq_filter : src.get? key = (src.members.lookup key).filter fun v => !v.isNull := by
  rw [get?]
  cases src.members.lookup key with
  | none => rfl
  | some v => cases v <;> rfl

theorem get?_pruned (ht : t.WellFormed) (hkeys : src.members.Pairwise fun a b => a.1 < b.1)
    {f : Field} (hf : f ∈ t.fields) :
    (src.pruned σ t).get? f.jsonName =
      (src.get? f.jsonName).map (Json.pruneUnder σ src.coercion f) := by
  rw [get?_eq_filter, get?_eq_filter, pruned, Json.lookup_pruneMembers ht hkeys hf]
  cases src.members.lookup f.jsonName with
  | none => rfl
  | some v =>
    rw [Option.filter_some]
    cases hnull : v.isNull with
    | true => rfl
    | false => simp [hnull]

/-- A list that is no array is nothing or refused. -/
theorem slot_of_ne_array {v : Json} (hget : src.get? key = some v)
    (hv : ∀ items, v ≠ .array items) :
    src.slot σ key kind true =
      match src.coercion with
      | .loose => .ok []
      | .strict => .error (src.refuse key (.expected "an array" v.describe)) := by
  rw [slot.eq_def, hget]
  dsimp only
  rw [if_pos rfl]
  split
  next items => exact absurd rfl (hv items)
  next hcoercion => rw [hcoercion]
  next hcoercion => rw [hcoercion]

/-- How a value is read does not depend on the members around it. -/
theorem element_pruned {v : Json} :
    (src.pruned σ t).element σ key kind v = src.element σ key kind v := by
  rw [element.eq_def, element.eq_def σ src]
  rfl

/-- The pruned values of a source are read as the values themselves. -/
def ReadsPruned (σ : Schema) (src : FieldSource) : Prop :=
  ∀ key kind v, v.Ordered →
    src.element σ key kind (v.pruneIn σ src.coercion kind) = src.element σ key kind v

/-- Of the items of an array, each is pruned as a value of the kind. -/
theorem pruneUnder_array {f : Field} (hrepeated : f.repeated = true) (items : List Json) :
    Json.pruneUnder σ src.coercion f (.array items) =
      .array (items.map (Json.pruneIn σ src.coercion f.kind)) := by
  unfold Json.pruneUnder Json.pruneIn
  cases f.kind with
  | message name =>
    dsimp only
    rw [if_pos hrepeated, Json.pruneArray, Json.pruneItems_eq_map]
  | _ => simp

/-- Any other value of a repeated field stays as it is. -/
theorem pruneUnder_of_ne_array {f : Field} (hrepeated : f.repeated = true) {v : Json}
    (hv : ∀ items, v ≠ .array items) : Json.pruneUnder σ src.coercion f v = v := by
  unfold Json.pruneUnder
  cases f.kind with
  | message name =>
    dsimp only
    rw [if_pos hrepeated]
    cases v with
    | array items => exact absurd rfl (hv items)
    | _ => rfl
  | _ => rfl

theorem pruneUnder_single {f : Field} (hsingle : f.repeated = false) (v : Json) :
    Json.pruneUnder σ src.coercion f v = v.pruneIn σ src.coercion f.kind := by
  unfold Json.pruneUnder Json.pruneIn
  cases f.kind with
  | message name => simp [hsingle]
  | _ => rfl

/-- A field has the same slot in a pruned source. -/
theorem slot_pruned (h : src.ReadsPruned σ) (ht : t.WellFormed)
    (hsrc : (Json.object src.members).Ordered) {f : Field} (hf : f ∈ t.fields) :
    (src.pruned σ t).slot σ f.jsonName f.kind f.repeated =
      src.slot σ f.jsonName f.kind f.repeated := by
  obtain ⟨hkeys, hordered⟩ := Json.ordered_object_iff.1 hsrc
  -- The cases are the forms of value that a slot is read from, as `slot` takes them.
  have hpruned := get?_pruned (σ := σ) ht hkeys hf
  cases hget : src.get? f.jsonName with
  | none =>
    rw [hget] at hpruned
    rw [slot_none hget, slot_none hpruned]
  | some v =>
    rw [hget, Option.map_some] at hpruned
    have hv : v.Ordered := hordered _ (Json.mem_of_lookup (get?_eq_some_iff.1 hget).2)
    cases hrepeated : f.repeated with
    | false =>
      rw [slot_single hpruned, slot_single hget, element_pruned, pruneUnder_single hrepeated,
        h f.jsonName f.kind v hv]
    | true =>
      by_cases harray : ∃ items, v = .array items
      · obtain ⟨items, rfl⟩ := harray
        rw [pruneUnder_array hrepeated] at hpruned
        rw [slot_array hpruned, slot_array hget, List.mapM_map]
        apply mapM_congr
        intro item hitem
        exact element_pruned.trans (h f.jsonName f.kind item (Json.ordered_array_iff.1 hv item hitem))
      · have hne : ∀ items, v ≠ .array items := fun items hitems => harray ⟨items, hitems⟩
        rw [pruneUnder_of_ne_array hrepeated hne] at hpruned
        exact (slot_of_ne_array hpruned hne).trans (slot_of_ne_array hget hne).symm

theorem message_pruned (h : src.ReadsPruned σ) (ht : t.WellFormed)
    (hsrc : (Json.object src.members).Ordered) :
    (src.pruned σ t).message σ t = src.message σ t := by
  rw [message, message]
  exact mapM_congr fun f hf => slot_pruned h ht hsrc hf

/-- The message of a strict source, unless one of its keys is unknown. -/
def checked (σ : Schema) (src : FieldSource) (t : MessageType) : Except Fault Message :=
  match unknownKey? t src.members with
  | some key => .error (.parse t.name (Mismatch.unknownField key).message)
  | none => src.message σ t

theorem element_checked {name : String} {members : List (String × Json)}
    (hstrict : src.coercion = .strict) (hopen : src.depth + 1 ≤ src.limits.recursion) :
    src.element σ key (.message name) (.object members) =
      ((src.child (σ.type name) members).checked σ (σ.type name)).map .message := by
  cases hkey : unknownKey? (σ.type name) members with
  | none =>
    rw [element_object hopen fun _ => hkey, checked]
    simp only [child, hkey]
  | some unknown =>
    rw [element_of_open hopen, checked]
    simp only [child, hstrict, hkey]
    rfl

theorem checked_pruned (h : src.ReadsPruned σ) (ht : t.WellFormed)
    (hsrc : (Json.object src.members).Ordered) (hstrict : src.coercion = .strict) :
    (src.pruned σ t).checked σ t = src.checked σ t := by
  have hkey : unknownKey? t (src.pruned σ t).members = unknownKey? t src.members := by
    rw [pruned, hstrict]
    exact Json.unknownKey?_pruneMembers
  rw [checked, checked, hkey, message_pruned h ht hsrc]

/-- The values of submessages are read alike when pruned, at any depth. -/
theorem readsPruned (hσ : σ.WellFormed) (src : FieldSource) : src.ReadsPruned σ := by
  -- A source inside another one is deeper, and reads alike by the induction.
  induction src using nested with
  | _ src ih =>
    intro key kind v hv
    cases kind with
    | message name =>
      by_cases hdeep : src.limits.recursion < src.depth + 1
      · rw [element_of_deep hdeep, element_of_deep hdeep]
      · cases v with
        | object members =>
          have hopen := Nat.le_of_not_lt hdeep
          have hchild := ih hopen (σ.type name) members
          have hpruned : src.child (σ.type name)
              (Json.pruneMembers σ src.coercion (σ.type name) members) =
                (src.child (σ.type name) members).pruned σ (σ.type name) := rfl
          rw [Json.pruneIn, Json.prune]
          by_cases hstrict : src.coercion = .strict
          · rw [element_checked hstrict hopen, element_checked hstrict hopen, hpruned,
              checked_pruned hchild (hσ.type name) hv hstrict]
          · rw [element_object hopen fun h => absurd h hstrict,
              element_object hopen fun h => absurd h hstrict, hpruned,
              message_pruned hchild (hσ.type name) hv]
        | _ => rfl
    | _ => rfl

end FieldSource

/-! ## Messages -/

namespace Schema

variable {σ : Schema} {t : MessageType} {limits : Limits} {v : Json}

theorem readJson_strict_object {members : List (String × Json)} :
    σ.readJson t .strict limits (.object members) =
      FieldSource.checked σ ⟨members, t.name, .strict, limits, 0⟩ t := by
  rw [readJson, FieldSource.ofJson, FieldSource.membersOf?, FieldSource.checked]
  cases hkey : FieldSource.unknownKey? t members <;> simp [hkey]

theorem readJson_prune (hσ : σ.WellFormed) (ht : t.WellFormed) (hv : v.Ordered)
    (coercion : Coercion) :
    σ.readJson t coercion limits (v.prune σ coercion t) = σ.readJson t coercion limits v := by
  cases v with
  | object members =>
    have hsource := FieldSource.readsPruned hσ ⟨members, t.name, coercion, limits, 0⟩
    rw [Json.prune]
    cases coercion with
    | loose => exact FieldSource.message_pruned hsource ht hv
    | strict =>
      rw [readJson_strict_object, readJson_strict_object]
      exact FieldSource.checked_pruned hsource ht hv rfl
  | _ => rfl

end Schema

end SchemaCodec
