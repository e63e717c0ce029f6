import Mathlib
import SchemaCodec.Proofs.Schema.Places

/-!
# Proofs.Schema.Obeying — invariants of messages

- `Element.Obeys`, `Schema.Obeys`: a property of all places of a value, and of a message.

Readers build messages from the empty one by putting values into it, or slot by slot. Both ways
keep such a property, if it holds of each value (`Schema.Obeys.put`, `Schema.obeys_of_slots`).
-/

namespace SchemaCodec

/-- A value of a kind, `d` submessages deep, with a property of all places inside it. -/
structure Element.Obeys (σ : Schema) (P : Place → Prop) (kind : Kind) (d : Nat) (e : Element) :
    Prop where
  conforms : e.Conforms σ kind
  places : ∀ path, ∀ p ∈ e.places σ path kind d, P p

/-- A message of a type, `d` submessages deep, with a property of all places inside it. -/
structure Schema.Obeys (σ : Schema) (P : Place → Prop) (t : MessageType) (d : Nat) (m : Message) :
    Prop where
  length_eq : m.length = t.fields.length
  admits : ∀ q ∈ t.fields.zip m, q.1.Admits q.2
  values : ∀ q ∈ t.fields.zip m, ∀ e ∈ q.2, e.Obeys σ P q.1.kind d

section Obeys

variable {σ : Schema} {P : Place → Prop} {t : MessageType} {d : Nat} {m : Message}

theorem Schema.Obeys.conforms (h : σ.Obeys P t d m) : σ.Conforms t m :=
  ⟨h.length_eq, h.admits, fun q hq e he => (h.values q hq e he).conforms⟩

theorem Schema.Obeys.fieldPlaces (h : σ.Obeys P t d m) (name : String) :
    ∀ p ∈ fieldPlaces σ name d t.fields m, P p := by
  intro p hp
  rcases mem_fieldPlaces_iff.1 hp with ⟨q, hq, e, he, hp⟩
  exact (h.values q hq e he).places _ p hp

theorem Schema.Obeys.places (h : σ.Obeys P t 0 m) : ∀ p ∈ σ.places t m, P p :=
  h.fieldPlaces t.name

theorem Schema.Obeys.imp {Q : Place → Prop} (h : σ.Obeys P t d m) (hPQ : ∀ p, P p → Q p) :
    σ.Obeys Q t d m := by
  refine ⟨h.length_eq, h.admits, ?_⟩
  intro q hq e he
  have hvalue := h.values q hq e he
  exact ⟨hvalue.conforms, fun path p hp => hPQ p (hvalue.places path p hp)⟩

/-! ## Values -/

theorem Element.obeys_scalar {kind : Kind} {e : Element} (h : e.Conforms σ kind)
    (hkind : kind.reference? = none) (hP : ∀ path, P ⟨path, d, kind, e⟩) :
    e.Obeys σ P kind d := by
  refine ⟨h, ?_⟩
  intro path p hp
  cases h with
  | message => cases hkind
  | _ =>
    rw [List.mem_singleton.1 hp]
    exact hP path

theorem Element.obeys_message {name : String} {slots : List Slot}
    (h : σ.Obeys P (σ.type name) (d + 1) slots)
    (hP : ∀ path, P ⟨path, d + 1, .message name, .message slots⟩) :
    (Element.message slots).Obeys σ P (.message name) d := by
  constructor
  · exact .message name slots h.length_eq h.admits fun q hq e he => (h.values q hq e he).conforms
  · intro path p hp
    rw [Element.places] at hp
    rcases List.mem_cons.1 hp with rfl | hp
    · exact hP path
    · exact h.fieldPlaces _ p hp

/-! ## Slots -/

theorem Field.admits_nil (f : Field) : f.Admits [] :=
  fun _ => ⟨Nat.zero_le 1, fun _ he => absurd he List.not_mem_nil⟩

theorem Field.admits_of_repeated {f : Field} (h : f.repeated = true) (slot : Slot) :
    f.Admits slot := by
  intro hsingle
  rw [h] at hsingle
  cases hsingle

theorem Field.admits_single (f : Field) (e : Element) : f.Admits (Slot.single e) := by
  rw [Slot.single]
  cases hdefault : e.isDefault with
  | true => exact f.admits_nil
  | false =>
    intro _
    refine ⟨Nat.le_refl 1, ?_⟩
    intro x hx
    rw [List.mem_singleton.1 hx]
    exact hdefault

theorem Slot.eq_of_mem_single {x e : Element} (h : x ∈ Slot.single e) : x = e := by
  rw [single] at h
  split at h
  next => cases h
  next => exact List.mem_singleton.1 h

theorem Slot.single_eq_nil_iff {e : Element} : Slot.single e = [] ↔ e.isDefault = true := by
  rw [single]
  split
  next hdefault => exact iff_of_true rfl hdefault
  next hdefault => exact iff_of_false (List.cons_ne_nil _ _) hdefault

theorem Field.admits_put (f : Field) (slot : Slot) (e : Element) : f.Admits (f.put slot e) := by
  cases hrepeated : f.repeated with
  | true => exact f.admits_of_repeated hrepeated _
  | false =>
    rw [Field.put, hrepeated]
    exact f.admits_single e

theorem Field.mem_put {f : Field} {slot : Slot} {x e : Element} (h : x ∈ f.put slot e) :
    x ∈ slot ∨ x = e := by
  rw [put] at h
  split at h
  next =>
    rcases List.mem_append.1 h with hslot | he
    · exact .inl hslot
    · exact .inr (List.mem_singleton.1 he)
  next => exact .inr (Slot.eq_of_mem_single h)

/-! ## Messages -/

theorem Schema.obeys_empty (σ : Schema) (P : Place → Prop) (t : MessageType) (d : Nat) :
    σ.Obeys P t d t.empty := by
  have hslot : ∀ q ∈ t.fields.zip t.empty, q.2 = [] := by
    intro q hq
    rcases List.mem_map.1 (List.of_mem_zip hq).2 with ⟨f, -, hf⟩
    exact hf.symm
  refine ⟨by simp [MessageType.empty], ?_, ?_⟩
  · intro q hq
    rw [hslot q hq]
    exact q.1.admits_nil
  · intro q hq e he
    rw [hslot q hq] at he
    cases he

theorem Schema.obeys_of_slots
    (h : List.Forall₂ (fun f slot => f.Admits slot ∧ ∀ e ∈ slot, e.Obeys σ P f.kind d)
      t.fields m) : σ.Obeys P t d m := by
  rcases List.forall₂_iff_zip.1 h with ⟨hlen, hslots⟩
  exact ⟨hlen.symm, fun q hq => (hslots hq).1, fun q hq => (hslots hq).2⟩

/-- Field numbers tell the fields of a table apart. -/
theorem MessageType.WellFormed.eq_of_number_eq (ht : t.WellFormed) {f g : Field}
    (hf : f ∈ t.fields) (hg : g ∈ t.fields) (h : f.number = g.number) : f = g := by
  have hnodup : (t.fields.map (·.number)).Nodup :=
    List.pairwise_map.2 (ht.ascending.imp Nat.ne_of_lt)
  exact List.inj_on_of_nodup_map hnodup hf hg h

theorem MessageType.mem_zip_put {number : Nat} {x : Element} {q : Field × Slot}
    (hq : q ∈ t.fields.zip (t.put m number x)) :
    ∃ slot, (q.1, slot) ∈ t.fields.zip m ∧
      q.2 = if q.1.number == number then q.1.put slot x else slot := by
  unfold put at hq
  generalize t.fields = fields at hq ⊢
  induction fields generalizing m with
  | nil => cases hq
  | cons f fields ih =>
    cases m with
    | nil => cases hq
    | cons slot m =>
      rw [List.zipWith_cons_cons, List.zip_cons_cons] at hq
      rcases List.mem_cons.1 hq with rfl | hq
      · exact ⟨slot, List.mem_cons_self, rfl⟩
      · rcases ih hq with ⟨slot', hslot', heq⟩
        exact ⟨slot', List.mem_cons_of_mem _ hslot', heq⟩

/-- A value that has the property may be put into a message that has it. -/
theorem Schema.Obeys.put (h : σ.Obeys P t d m) (ht : t.WellFormed) {number : Nat} {f : Field}
    (hfield : t.field? number = some f) {x : Element} (hx : x.Obeys σ P f.kind d) :
    σ.Obeys P t d (t.put m number x) := by
  have hmem : f ∈ t.fields := List.mem_of_find?_eq_some hfield
  have hnumber : f.number = number := by simpa using List.find?_some hfield
  refine ⟨by simp [MessageType.put, h.length_eq], ?_, ?_⟩
  · intro q hq
    rcases MessageType.mem_zip_put hq with ⟨slot, hslot, heq⟩
    rw [heq]
    split
    next => exact q.1.admits_put slot x
    next => exact h.admits _ hslot
  · intro q hq e he
    rcases MessageType.mem_zip_put hq with ⟨slot, hslot, heq⟩
    rw [heq] at he
    split at he
    next hq' =>
      rcases Field.mem_put he with hold | rfl
      · exact h.values _ hslot e hold
      · have hsame : q.1.number = number := by simpa using hq'
        have hfield' : f = q.1 :=
          ht.eq_of_number_eq hmem (List.of_mem_zip hslot).1 (hnumber.trans hsame.symm)
        rw [← hfield']
        exact hx
    next => exact h.values _ hslot e he

end Obeys
end SchemaCodec
