import Mathlib
import SchemaCodec.Annotation.Store
import SchemaCodec.Proofs.Registry.Lookup
import SchemaCodec.Proofs.Text.ByteOrder

/-!
# Proofs.Annotation.History — options after any insertions

- `ElementKey.Precedes`: the order of keys, by kind and then by the bytes of the name.
- `Annotatable`: what options can be attached to, by the names it is declared under.
- `Annotations.attemptAll`: a store after insertions were tried, refused ones included.
- `Annotations.lastAccepted?`: the option that was attached last.
- `Annotations.Kinded`: every option is of the kind of its element.
- `Annotations.Follows`: a store answers as its history says.

A store answers with the last option that was accepted for a key (`Annotations.get?_attemptAll`),
and what was accepted is of the kind of its key, so a store stays `Kinded`. The name of a field is
joined to that of its message by a dot, so two fields could share a key; they do not while the names
of fields have no dots themselves (`Annotatable.key_injective`).
-/

namespace SchemaCodec

/-! ## Keys -/

theorem ElementKind.rank_injective : Function.Injective ElementKind.rank := by
  intro k k' h
  cases k <;> cases k' <;> first | rfl | cases h

namespace ElementKey

variable {k k' : ElementKey}

/-- Keys by kind, and of one kind by the bytes of the name. -/
def Precedes (k k' : ElementKey) : Prop :=
  k.kind.rank < k'.kind.rank ∨ k.kind = k'.kind ∧ Text.utf8 k.name < Text.utf8 k'.name

theorem Precedes.ne (h : k.Precedes k') : k ≠ k' := by
  rintro rfl
  rcases h with hkind | ⟨-, hname⟩
  · exact absurd hkind (Nat.lt_irrefl _)
  · exact absurd hname (List.lt_irrefl _)

theorem order_eq_lt_iff : order k k' = .lt ↔ k.Precedes k' := by
  rw [order, compareLex, Ordering.then_eq_lt, compareOn, compareOn, Nat.compare_eq_lt,
    Nat.compare_eq_eq, ElementKind.rank_injective.eq_iff]
  refine or_congr Iff.rfl (and_congr Iff.rfl ?_)
  rw [← Text.lt_iff_utf8_lt]
  exact compareOfLessAndEq_eq_lt

theorem order_eq_eq_iff : order k k' = .eq ↔ k = k' := by
  obtain ⟨kind, name⟩ := k
  obtain ⟨kind', name'⟩ := k'
  rw [order, compareLex_eq_eq, compareOn, compareOn, Nat.compare_eq_eq,
    ElementKind.rank_injective.eq_iff, Std.compare_eq_iff_eq, mk.injEq]

instance : Std.LawfulEqCmp order where
  eq_of_compare h := order_eq_eq_iff.1 h

end ElementKey

/-! ## Elements by their declared names -/

/-- What options can be attached to. A field goes by its message and its own name, a method by its
service and its own name. -/
inductive Annotatable where
  | file (path : String)
  | message (name : String)
  | field (message name : String)
  | service (name : String)
  | method (service name : String)
  deriving DecidableEq, Repr

namespace Annotatable

/-- The key of an element. -/
def key : Annotatable → ElementKey
  | .file path => ⟨.file, path⟩
  | .message name => ⟨.message, name⟩
  | .field owner name => .field owner name
  | .service name => ⟨.service, name⟩
  | .method owner name => .method owner name

/-- The name that a field or a method is declared under has no dot. -/
def Simple : Annotatable → Prop
  | .field _ name => '.' ∉ name.toList
  | .method _ name => '.' ∉ name.toList
  | _ => True

instance : DecidablePred Simple
  | .file _ | .message _ | .service _ => inferInstanceAs (Decidable True)
  | .field _ name | .method _ name => inferInstanceAs (Decidable ('.' ∉ name.toList))

/-- What a name without a dot was joined to can be told from the joined name. -/
theorem joined_inj {owner owner' name name' : String} (h : '.' ∉ name.toList)
    (h' : '.' ∉ name'.toList) :
    owner ++ "." ++ name = owner' ++ "." ++ name' ↔ owner = owner' ∧ name = name' := by
  constructor
  · intro hjoined
    have hname : name = name' := by
      calc
        name = unqualified (owner ++ "." ++ name) := (Registry.unqualified_append h owner).symm
        _ = unqualified (owner' ++ "." ++ name') := by rw [hjoined]
        _ = name' := Registry.unqualified_append h' owner'
    subst hname
    rw [String.append_left_inj, String.append_left_inj] at hjoined
    exact ⟨hjoined, rfl⟩
  · rintro ⟨rfl, rfl⟩
    rfl

/-- Elements whose own names have no dots share no key. -/
theorem key_injective {e e' : Annotatable} (h : e.Simple) (h' : e'.Simple)
    (hkey : e.key = e'.key) : e = e' := by
  cases e <;> cases e' <;>
    simp only [key, ElementKey.field, ElementKey.method, ElementKey.mk.injEq, reduceCtorEq,
      true_and, false_and] at hkey
  case file.file => rw [hkey]
  case message.message => rw [hkey]
  case field.field =>
    obtain ⟨rfl, rfl⟩ := (joined_inj h h').1 hkey
    rfl
  case service.service => rw [hkey]
  case method.method =>
    obtain ⟨rfl, rfl⟩ := (joined_inj h h').1 hkey
    rfl

/-- A dot in the name of a field itself can make its key that of another field. -/
example : (field "shop.Order" "item.id").key = (field "shop.Order.item" "id").key := by decide

end Annotatable

/-! ## Messages that ask for a row model -/

/-- The option named `ormable` is set. -/
def AsksForRow (m : Message) : Prop :=
  ∃ p ∈ Catalog.messageOptions.fields.zip m, p.1.name = "ormable" ∧ p.2 = [.bool true]

theorem Annotations.isOrmable_iff {m : Message} : isOrmable m = true ↔ AsksForRow m := by
  cases m with
  | nil => simp [isOrmable, AsksForRow, MessageType.slot]
  | cons slot slots =>
    let ormable : Field := ⟨1, "ormable", "ormable", .bool, false⟩
    have hzip : Catalog.messageOptions.fields.zip (slot :: slots) =
        (ormable, slot) :: Catalog.messageOptions.fields.tail.zip slots := rfl
    have hfirst : isOrmable (slot :: slots) = true ↔ slot = [.bool true] := beq_iff_eq
    rw [hfirst, AsksForRow, hzip]
    constructor
    · intro hslot
      exact ⟨(ormable, slot), List.mem_cons_self, rfl, hslot⟩
    · rintro ⟨p, hp, hname, hslot⟩
      rcases List.mem_cons.1 hp with rfl | hp
      · exact hslot
      · -- No other field of the table has this name.
        have hother : ∀ f ∈ Catalog.messageOptions.fields.tail, f.name ≠ "ormable" := by decide
        exact absurd hname (hother p.1 (List.of_mem_zip hp).1)

namespace Annotations

/-! ## Histories -/

/-- A store after an insertion was tried. A refused one leaves the store as it was. -/
def attempt (a : Annotations) (step : ElementKey × ElementOption) : Annotations :=
  match a.insert step.1 step.2 with
  | .ok (_, b) => b
  | .error _ => a

/-- A store after insertions were tried one after the other. -/
def attemptAll (a : Annotations) (steps : List (ElementKey × ElementOption)) : Annotations :=
  steps.foldl attempt a

/-- The option of the last insertion for an element that was accepted. The elements of the history
may be keys, or anything else of a kind. -/
def lastAccepted? {α : Type} [DecidableEq α] (kindOf : α → ElementKind)
    (steps : List (α × ElementOption)) (e : α) : Option ElementOption :=
  (steps.reverse.find? fun s => s.1 = e ∧ kindOf s.1 = s.2.kind).map (·.2)

section LastAccepted

variable {α : Type} [DecidableEq α] {kindOf : α → ElementKind}
  {steps later : List (α × ElementOption)} {e : α} {x : ElementOption}

theorem lastAccepted?_append :
    lastAccepted? kindOf (steps ++ later) e =
      (lastAccepted? kindOf later e).or (lastAccepted? kindOf steps e) := by
  rw [lastAccepted?, List.reverse_append, List.find?_append, Option.map_or]
  rfl

theorem kind_of_lastAccepted? (h : lastAccepted? kindOf steps e = some x) : kindOf e = x.kind := by
  obtain ⟨s, hs, rfl⟩ := Option.map_eq_some_iff.1 h
  obtain ⟨rfl, hkind⟩ : s.1 = e ∧ kindOf s.1 = s.2.kind := by simpa using List.find?_some hs
  exact hkind

theorem lastAccepted?_concat_of_ne {e' : α} (h : e' ≠ e) :
    lastAccepted? kindOf (steps ++ [(e', x)]) e = lastAccepted? kindOf steps e := by
  have hother : lastAccepted? kindOf [(e', x)] e = none := by simp [lastAccepted?, h]
  rw [lastAccepted?_append, hother, Option.none_or]

/-- Where different elements have different keys, the histories of keys and of elements agree. -/
theorem lastAccepted?_map {β : Type} [DecidableEq β] {kindOf' : β → ElementKind} {key : α → β}
    (hkind : ∀ a, kindOf' (key a) = kindOf a) (hkey : ∀ s ∈ steps, key s.1 = key e → s.1 = e) :
    lastAccepted? kindOf' (steps.map fun s => (key s.1, s.2)) (key e) =
      lastAccepted? kindOf steps e := by
  have hsame : ∀ s ∈ steps.reverse,
      (decide (key s.1 = key e ∧ kindOf' (key s.1) = s.2.kind) : Bool) =
        decide (s.1 = e ∧ kindOf s.1 = s.2.kind) := by
    intro s hs
    have helement : key s.1 = key e ↔ s.1 = e :=
      ⟨hkey s (List.mem_reverse.1 hs), congrArg key⟩
    rw [decide_eq_decide, helement, hkind]
  rw [lastAccepted?, ← List.map_reverse, List.find?_map, Option.map_map, lastAccepted?]
  exact congrArg _ (List.find?_congr hsame)

end LastAccepted

/-! ## Insertions -/

section Insertions

variable {a b : Annotations} {key : ElementKey} {x : ElementOption}

theorem insert_of_ne (h : key.kind ≠ x.kind) :
    a.insert key x = .error (.invalidSchema key.describe
      ("expected " ++ key.kind.optionType.name ++ ", found " ++ x.kind.optionType.name)) := by
  rw [insert, if_neg h]
  rfl

theorem exists_insert (h : key.kind = x.kind) :
    ∃ b, a.insert key x = .ok (a.get? key, b) ∧ a.attempt (key, x) = b ∧
      ∀ k, b.get? k = if k = key then some x else a.get? k := by
  have hinsert : a.insert key x = .ok (a.get? key, ⟨a.entries.insert key x⟩) := if_pos h
  refine ⟨_, hinsert, ?_, ?_⟩
  · rw [attempt, hinsert]
  · intro k
    rw [get?, Std.TreeMap.getElem?_insert]
    exact if_congr (ElementKey.order_eq_eq_iff.trans eq_comm) rfl rfl

theorem attempt_of_ne (h : key.kind ≠ x.kind) : a.attempt (key, x) = a := by
  rw [attempt, insert_of_ne h]

theorem get?_attempt (step : ElementKey × ElementOption) (k : ElementKey) :
    (a.attempt step).get? k = (lastAccepted? ElementKey.kind [step] k).or (a.get? k) := by
  obtain ⟨key, x⟩ := step
  by_cases h : key.kind = x.kind
  · obtain ⟨b, -, rfl, hget⟩ := exists_insert (a := a) h
    rw [hget]
    by_cases hk : k = key
    · simp [lastAccepted?, hk, h]
    · simp [lastAccepted?, Ne.symm hk, hk]
  · rw [attempt_of_ne h]
    by_cases hk : k = key
    · simp [lastAccepted?, hk, h]
    · simp [lastAccepted?, Ne.symm hk]

theorem get?_attemptAll (steps : List (ElementKey × ElementOption)) (k : ElementKey) :
    (a.attemptAll steps).get? k = (lastAccepted? ElementKey.kind steps k).or (a.get? k) := by
  induction steps generalizing a with
  | nil => rfl
  | cons step steps ih =>
    -- The insertions that follow come first: what they accept hides the step.
    have hsplit : lastAccepted? ElementKey.kind (step :: steps) k =
        (lastAccepted? ElementKey.kind steps k).or (lastAccepted? ElementKey.kind [step] k) := by
      rw [← List.singleton_append, lastAccepted?_append]
    calc
      (a.attemptAll (step :: steps)).get? k = ((a.attempt step).attemptAll steps).get? k := rfl
      _ = (lastAccepted? ElementKey.kind steps k).or ((a.attempt step).get? k) := ih
      _ = (lastAccepted? ElementKey.kind (step :: steps) k).or (a.get? k) := by
        rw [get?_attempt, hsplit, Option.or_assoc]

end Insertions

/-! ## Listings -/

section Listings

variable {a : Annotations}

theorem mem_toList_iff {key : ElementKey} {x : ElementOption} :
    (key, x) ∈ a.toList ↔ a.get? key = some x :=
  Std.TreeMap.mem_toList_iff_getElem?_eq_some

theorem toList_ascending : a.toList.Pairwise fun p q => p.1.Precedes q.1 := by
  refine Std.TreeMap.ordered_keys_toList.imp ?_
  intro p q h
  exact ElementKey.order_eq_lt_iff.1 h

theorem nodup_keys : (a.toList.map (·.1)).Nodup := by
  refine List.pairwise_map.2 (toList_ascending.imp ?_)
  intro p q h
  exact h.ne

end Listings

/-! ## Look-up by kind -/

/-- Every option is of the kind of its element. -/
def Kinded (a : Annotations) : Prop :=
  ∀ key x, a.get? key = some x → key.kind = x.kind

namespace Kinded

variable {a : Annotations} (h : a.Kinded)

include h

theorem attemptAll (steps : List (ElementKey × ElementOption)) : (a.attemptAll steps).Kinded := by
  intro key x hget
  rw [get?_attemptAll, Option.or_eq_some_iff] at hget
  rcases hget with hlast | ⟨-, hfirst⟩
  · exact kind_of_lastAccepted? hlast
  · exact h key x hfirst

theorem get?_message (name : String) :
    a.get? ⟨.message, name⟩ = (a.messageOptions? name).map (⟨.message, ·⟩) := by
  cases hget : a.get? ⟨.message, name⟩ with
  | none => simp [messageOptions?, hget]
  | some x =>
    obtain ⟨kind, m⟩ := x
    obtain rfl : ElementKind.message = kind := h _ _ hget
    simp [messageOptions?, hget]

theorem get?_field (message name : String) :
    a.get? (.field message name) = (a.fieldOptions? message name).map (⟨.field, ·⟩) := by
  cases hget : a.get? (.field message name) with
  | none => simp [fieldOptions?, hget]
  | some x =>
    obtain ⟨kind, m⟩ := x
    obtain rfl : ElementKind.field = kind := h _ _ hget
    simp [fieldOptions?, hget]

theorem fieldOptions?_eq (message name : String) :
    a.fieldOptions? message name = (a.get? (.field message name)).map (·.message) := by
  rw [h.get?_field, Option.map_map]
  exact Option.map_id'.symm

theorem mem_ormable_iff {name : String} :
    name ∈ a.ormable ↔ ∃ m, a.get? ⟨.message, name⟩ = some ⟨.message, m⟩ ∧ AsksForRow m := by
  rw [ormable, List.mem_filterMap]
  constructor
  · rintro ⟨⟨key, x⟩, hmem, hselect⟩
    obtain ⟨⟨hkind, hormable⟩, hname⟩ := Option.ite_none_right_eq_some.1 hselect
    obtain rfl : key.name = name := Option.some.inj hname
    have hget : a.get? key = some x := mem_toList_iff.1 hmem
    obtain ⟨kind, m⟩ := x
    obtain ⟨kind', name⟩ := key
    obtain rfl : kind' = kind := h _ _ hget
    obtain rfl : kind' = .message := hkind
    exact ⟨m, hget, isOrmable_iff.1 hormable⟩
  · rintro ⟨m, hget, hasks⟩
    refine ⟨(⟨.message, name⟩, ⟨.message, m⟩), mem_toList_iff.2 hget, ?_⟩
    exact if_pos ⟨rfl, isOrmable_iff.2 hasks⟩

theorem ormable_ascending : a.ormable.Pairwise fun m n => Text.utf8 m < Text.utf8 n := by
  rw [ormable, List.pairwise_filterMap]
  refine toList_ascending.imp_of_mem ?_
  rintro ⟨key, x⟩ ⟨key', x'⟩ hmem hmem' hprecedes m hm n hn
  obtain ⟨⟨hkind, -⟩, hkey⟩ := Option.ite_none_right_eq_some.1 hm
  obtain ⟨⟨hkind', -⟩, hkey'⟩ := Option.ite_none_right_eq_some.1 hn
  obtain rfl : key.name = m := Option.some.inj hkey
  obtain rfl : key'.name = n := Option.some.inj hkey'
  -- Both keys are of messages, so their names decide.
  have hmessage : key.kind = .message := (h key x (mem_toList_iff.1 hmem)).trans hkind
  have hmessage' : key'.kind = .message := (h key' x' (mem_toList_iff.1 hmem')).trans hkind'
  rcases hprecedes with hrank | ⟨-, hname⟩
  · rw [hmessage, hmessage'] at hrank
    exact absurd hrank (Nat.lt_irrefl _)
  · exact hname

end Kinded

/-! ## The stores that histories begin with -/

theorem get?_blank (key : ElementKey) : ({} : Annotations).get? key = none :=
  Std.TreeMap.getElem?_emptyc

theorem standard_toList :
    standard.toList = [
      (⟨.file, Catalog.queueFile.path⟩, ⟨.file, Catalog.fileOptions.empty⟩),
      (⟨.message, Catalog.deleteAccount.name⟩,
        ⟨.message, Catalog.messageOptions.put Catalog.messageOptions.empty 1 (.bool true)⟩)] := by
  rfl

section Start

variable {start : Annotations} (hstart : start = {} ∨ start = .standard)

include hstart

theorem kinded_start : start.Kinded := by
  intro key x hget
  rcases hstart with rfl | rfl
  · rw [get?_blank] at hget
    cases hget
  · rw [← mem_toList_iff, standard_toList] at hget
    rcases List.mem_cons.1 hget with h | hget
    · cases h
      rfl
    · cases List.mem_singleton.1 hget
      rfl

/-- No field has options at first. -/
theorem get?_start_field (message name : String) : start.get? (.field message name) = none := by
  refine Option.eq_none_iff_forall_ne_some.2 ?_
  intro x hget
  rcases hstart with rfl | rfl
  · rw [get?_blank] at hget
    cases hget
  · rw [← mem_toList_iff, standard_toList] at hget
    rcases List.mem_cons.1 hget with h | hget
    · cases h
    · cases List.mem_singleton.1 hget

end Start

/-! ## Stores and their histories -/

/-- What a store answers after insertions were tried on another one. -/
structure Follows (start : Annotations) (steps : List (ElementKey × ElementOption))
    (a : Annotations) : Prop where
  kinds : a.Kinded
  /-- an option of another kind is refused, and nothing changes -/
  refused : ∀ key x, key.kind ≠ x.kind →
    a.insert key x = .error (.invalidSchema key.describe
      ("expected " ++ key.kind.optionType.name ++ ", found " ++ x.kind.optionType.name)) ∧
    a.attempt (key, x) = a
  /-- any other option is attached, the earlier one is given back, and no other key changes -/
  accepted : ∀ key x, key.kind = x.kind →
    ∃ b, a.insert key x = .ok (a.get? key, b) ∧ a.attempt (key, x) = b ∧
      ∀ k, b.get? k = if k = key then some x else a.get? k
  /-- the option of a key is the last one accepted for it, or the one it began with -/
  latest : ∀ key, a.get? key = (lastAccepted? ElementKey.kind steps key).or (start.get? key)
  /-- the entries are the options that are found -/
  listed : ∀ key x, (key, x) ∈ a.toList ↔ a.get? key = some x
  ascending : a.toList.Pairwise fun p q => p.1.Precedes q.1
  once : (a.toList.map (·.1)).Nodup
  counted : a.size = a.toList.length
  /-- the messages that ask for a row model are those whose options say so -/
  ormable_iff : ∀ name, name ∈ a.ormable ↔
    ∃ m, a.get? ⟨.message, name⟩ = some ⟨.message, m⟩ ∧ AsksForRow m
  ormable_ascending : a.ormable.Pairwise fun m n => Text.utf8 m < Text.utf8 n
  messages : ∀ name, a.get? ⟨.message, name⟩ = (a.messageOptions? name).map (⟨.message, ·⟩)
  fields : ∀ message name,
    a.get? (.field message name) = (a.fieldOptions? message name).map (⟨.field, ·⟩)

theorem Kinded.follows {start : Annotations} (h : start.Kinded)
    (steps : List (ElementKey × ElementOption)) : Follows start steps (start.attemptAll steps) where
  kinds := h.attemptAll steps
  refused _ _ hkind := ⟨insert_of_ne hkind, attempt_of_ne hkind⟩
  accepted _ _ hkind := exists_insert hkind
  latest := get?_attemptAll steps
  listed _ _ := mem_toList_iff
  ascending := toList_ascending
  once := nodup_keys
  counted := Std.TreeMap.length_toList.symm
  ormable_iff _ := (h.attemptAll steps).mem_ormable_iff
  ormable_ascending := (h.attemptAll steps).ormable_ascending
  messages := (h.attemptAll steps).get?_message
  fields := (h.attemptAll steps).get?_field

/-- The keys of insertions for elements. -/
def keyed (history : List (Annotatable × ElementOption)) : List (ElementKey × ElementOption) :=
  history.map fun s => (s.1.key, s.2)

theorem get?_keyed {a : Annotations} {history : List (Annotatable × ElementOption)}
    (hsimple : ∀ s ∈ history, s.1.Simple) {e : Annotatable} (he : e.Simple) :
    (a.attemptAll (keyed history)).get? e.key =
      (lastAccepted? (·.key.kind) history e).or (a.get? e.key) := by
  have hkey : ∀ s ∈ history, s.1.key = e.key → s.1 = e :=
    fun s hs => Annotatable.key_injective (hsimple s hs) he
  rw [get?_attemptAll, keyed, lastAccepted?_map (fun _ => rfl) hkey]

/-- A store that began empty or as the schema declares it follows the insertions that were tried on
it. While fields and methods have no dots in their own names, the options of a field are those that
were attached last to this field of this message, and no insertion for another element of whatever
kind changes them. -/
theorem store_follows_history (start : Annotations) (hstart : start = {} ∨ start = .standard) :
    (∀ steps, Follows start steps (start.attemptAll steps)) ∧
    ∀ history : List (Annotatable × ElementOption), (∀ s ∈ history, s.1.Simple) →
      ∀ message name, '.' ∉ name.toList →
        (start.attemptAll (keyed history)).fieldOptions? message name =
          (lastAccepted? (·.key.kind) history (.field message name)).map (·.message) ∧
        ∀ e x, e.Simple → e ≠ .field message name →
          (start.attemptAll (keyed (history ++ [(e, x)]))).fieldOptions? message name =
            (start.attemptAll (keyed history)).fieldOptions? message name := by
  have hkinded : start.Kinded := kinded_start hstart
  refine ⟨hkinded.follows, ?_⟩
  -- What is found for a field is what its history says, as no field had options at first.
  have hfield : ∀ history : List (Annotatable × ElementOption), (∀ s ∈ history, s.1.Simple) →
      ∀ message name, '.' ∉ name.toList →
        (start.attemptAll (keyed history)).fieldOptions? message name =
          (lastAccepted? (·.key.kind) history (.field message name)).map (·.message) := by
    intro history hsimple message name hname
    have hget := get?_keyed (a := start) hsimple (e := .field message name) hname
    have hnone : start.get? (Annotatable.field message name).key = none :=
      get?_start_field hstart message name
    rw [hnone, Option.or_none] at hget
    rw [(hkinded.attemptAll _).fieldOptions?_eq]
    exact congrArg _ hget
  intro history hsimple message name hname
  refine ⟨hfield history hsimple message name hname, ?_⟩
  intro e x he hne
  have hlonger : ∀ s ∈ history ++ [(e, x)], s.1.Simple := by
    intro s hs
    rcases List.mem_append.1 hs with hs | hs
    · exact hsimple s hs
    · rw [List.mem_singleton.1 hs]
      exact he
  rw [hfield _ hlonger message name hname, hfield _ hsimple message name hname,
    lastAccepted?_concat_of_ne hne]

/-- A column that is left out of the row. -/
def droppedColumn : ElementOption :=
  ⟨.field, [[], [.bool true], [], [], [], [], []]⟩

/-- Insertions for elements that share the name of a field, one of them refused. -/
def orderHistory : List (Annotatable × ElementOption) :=
  [(.field "shop.Order" "id", droppedColumn),
    (.method "shop.Order" "id", ⟨.method, [[.string "Order"]]⟩),
    (.message "shop.Order.id", ⟨.message, [[.bool true], [], [], []]⟩),
    (.field "shop.Order" "id", ⟨.method, [[.string "Order"]]⟩)]

theorem store_follows_history_orders :
    (standard.attemptAll (keyed orderHistory)).fieldOptions? "shop.Order" "id" =
      some droppedColumn.message ∧
    "shop.Order.id" ∈ (standard.attemptAll (keyed orderHistory)).ormable ∧
    (standard.attemptAll (keyed orderHistory)).get? ⟨.file, Catalog.queueFile.path⟩ =
      some ⟨.file, []⟩ := by
  obtain ⟨hfollows, hfields⟩ := store_follows_history standard (.inr rfl)
  have hstore := hfollows (keyed orderHistory)
  refine ⟨(hfields orderHistory (by decide) "shop.Order" "id" (by decide)).1, ?_, ?_⟩
  · refine (hstore.ormable_iff "shop.Order.id").2 ⟨[[.bool true], [], [], []], ?_, ?_⟩
    · rw [hstore.latest]
      rfl
    · exact isOrmable_iff.1 rfl
  · rw [hstore.latest]
    rfl

end Annotations
end SchemaCodec
