import Mathlib
import SchemaCodec.Proofs.Schema.Places
import SchemaCodec.Settings.Limits

/-!
# Proofs.Schema.Settling — readers that stop at the first fault

- `Limits.fault?`: the fault of a place that a reader with limits refuses.
- `Limits.Passes`: the limits refuse nothing at a place.
- `settle`: the result of a reader that stops at the first place with a fault.

Readers of messages are compared with `settle`, since it is easy to compute with: places one after
the other are readers one after the other (`settle_append`).
-/

namespace SchemaCodec

/-- Why a reader with limits refuses what stands at a place, if it does. -/
def Limits.fault? (limits : Limits) (p : Place) : Option Fault :=
  match p.value with
  | .uint64 n => if limits.range.accepts n then none else some (.rangeOverflow p.path n)
  | .message _ =>
    if p.depth ≤ limits.recursion then none else some (.recursionLimit limits.recursion)
  | _ => none

/-- The limits refuse nothing at a place. -/
def Limits.Passes (limits : Limits) (p : Place) : Prop :=
  limits.fault? p = none

/-- The result of a reader that stops at the first place with a fault. -/
def settle {α : Type} (fault : Place → Option Fault) (ps : List Place) (a : α) :
    Except Fault α :=
  match ps.findSome? fault with
  | none => .ok a
  | some e => .error e

section Settle

variable {α β : Type} {fault : Place → Option Fault}

@[simp] theorem settle_nil (a : α) : settle fault [] a = .ok a := rfl

theorem settle_cons_of_none {p : Place} (h : fault p = none) (ps : List Place) (a : α) :
    settle fault (p :: ps) a = settle fault ps a := by
  simp [settle, h]

theorem settle_cons_of_some {p : Place} {e : Fault} (h : fault p = some e) (ps : List Place)
    (a : α) : settle fault (p :: ps) a = .error e := by
  simp [settle, h]

theorem settle_map (ps : List Place) (f : α → β) (a : α) :
    (settle fault ps a).map f = settle fault ps (f a) := by
  unfold settle
  cases ps.findSome? fault with
  | none => rfl
  | some e => rfl

/-- A reader that passes some places goes on with the next ones. -/
theorem settle_append (ps qs : List Place) (a : α) (b : β) :
    settle fault (ps ++ qs) b = settle fault ps a >>= fun _ => settle fault qs b := by
  unfold settle
  rw [List.findSome?_append]
  cases ps.findSome? fault with
  | none => rfl
  | some e => rfl

theorem settle_eq_ok_iff {ps : List Place} {a b : α} :
    settle fault ps a = .ok b ↔ (∀ p ∈ ps, fault p = none) ∧ a = b := by
  unfold settle
  rw [← List.findSome?_eq_none_iff]
  cases ps.findSome? fault with
  | none => simp
  | some e => simp

theorem exists_fault_of_settle {ps : List Place} {a : α} {e : Fault}
    (h : settle fault ps a = .error e) : ∃ p ∈ ps, fault p = some e := by
  unfold settle at h
  split at h
  next => cases h
  next hfind =>
    cases h
    exact List.exists_of_findSome?_eq_some hfind

theorem settle_congr {fault' : Place → Option Fault} {ps : List Place} (a : α)
    (h : ∀ p ∈ ps, fault p = fault' p) : settle fault ps a = settle fault' ps a := by
  have hfind : ps.findSome? fault = ps.findSome? fault' := by
    induction ps with
    | nil => rfl
    | cons p ps ih =>
      obtain ⟨hp, hps⟩ := List.forall_mem_cons.1 h
      rw [List.findSome?_cons, List.findSome?_cons, hp, ih hps]
  rw [settle, settle, hfind]

theorem settle_number {limits : Limits} (path : FieldPath) (d : Nat) (kind : Kind) (n : UInt64)
    (a : α) :
    settle limits.fault? [⟨path, d, kind, .uint64 n⟩] a =
      if limits.range.accepts n then .ok a else .error (.rangeOverflow path n) := by
  by_cases hrange : limits.range.accepts n = true
  · simp [settle, Limits.fault?, hrange]
  · simp [settle, Limits.fault?, hrange]

theorem settle_submessage {limits : Limits} (path : FieldPath) (d : Nat) (kind : Kind)
    (slots : List Slot) (ps : List Place) (a : α) :
    settle limits.fault? (⟨path, d, kind, .message slots⟩ :: ps) a =
      if d ≤ limits.recursion then settle limits.fault? ps a
      else .error (.recursionLimit limits.recursion) := by
  by_cases hdepth : d ≤ limits.recursion
  · simp [settle, Limits.fault?, hdepth]
  · simp [settle, Limits.fault?, hdepth]

end Settle

section Outcome

variable {α : Type} {σ : Schema} {t : MessageType} {m : Message} {limits : Limits}

/-- A reader passes exactly the messages that are not too deep, with accepted numbers only. -/
theorem Schema.Conforms.settle_eq_ok_iff (h : σ.Conforms t m) {a b : α} :
    settle limits.fault? (σ.places t m) a = .ok b ↔
      (m.depth ≤ limits.recursion ∧
        ∀ p ∈ σ.numbers t m, limits.range.accepts p.2 = true) ∧ a = b := by
  rw [SchemaCodec.settle_eq_ok_iff, ← h.depth_iff]
  refine and_congr_left' ?_
  constructor
  · intro hfaults
    constructor
    · intro p hp slots hslots
      have hfault := hfaults p hp
      by_contra hdeep
      simp [Limits.fault?, hslots, hdeep] at hfault
    · intro q hq
      obtain ⟨p, hp, hnumber⟩ := List.mem_filterMap.1 hq
      obtain ⟨-, hvalue⟩ := Place.number?_eq_some_iff.1 hnumber
      have hfault := hfaults p hp
      by_contra hrange
      simp [Limits.fault?, hvalue, hrange] at hfault
  · rintro ⟨hdepth, hrange⟩
    intro p hp
    unfold Limits.fault?
    split
    next n hvalue =>
      have hnumber : (p.path, n) ∈ σ.numbers t m :=
        List.mem_filterMap.2 ⟨p, hp, Place.number?_eq_some_iff.2 ⟨rfl, hvalue⟩⟩
      exact if_pos (hrange _ hnumber)
    next slots hvalue => exact if_pos (hdepth p hp slots hvalue)
    next => rfl

/-- A message without numbers that is too deep is refused for its depth. -/
theorem Schema.Conforms.settle_of_depth (h : σ.Conforms t m) (hnumbers : σ.numbers t m = [])
    (hdeep : limits.recursion < m.depth) (a : α) :
    settle limits.fault? (σ.places t m) a = .error (.recursionLimit limits.recursion) := by
  cases hsettle : settle limits.fault? (σ.places t m) a with
  | ok b =>
    obtain ⟨⟨hdepth, -⟩, -⟩ := h.settle_eq_ok_iff.1 hsettle
    exact absurd hdepth (Nat.not_le_of_lt hdeep)
  | error e =>
    obtain ⟨p, hp, hfault⟩ := exists_fault_of_settle hsettle
    have hnumber : p.number? = none := List.filterMap_eq_nil_iff.1 hnumbers p hp
    -- Without numbers, a depth is all that can be refused.
    unfold Limits.fault? at hfault
    unfold Place.number? at hnumber
    split at hfault
    next n hvalue => simp [hvalue] at hnumber
    next slots hvalue =>
      split at hfault <;> cases hfault
      rfl
    next => cases hfault

/-- Where there are no submessages, the first fault is that of the first refused number. -/
theorem findSome?_fault_of_flat {ps : List Place}
    (hflat : ∀ p ∈ ps, ∀ slots, p.value ≠ .message slots) :
    ps.findSome? limits.fault? =
      ((ps.filterMap Place.number?).find? fun q => !limits.range.accepts q.2).map
        fun q => .rangeOverflow q.1 q.2 := by
  induction ps with
  | nil => rfl
  | cons p ps ih =>
    obtain ⟨hp, hps⟩ := List.forall_mem_cons.1 hflat
    cases hvalue : p.value with
    | uint64 n =>
      have hnumber : p.number? = some (p.path, n) := Place.number?_eq_some_iff.2 ⟨rfl, hvalue⟩
      cases hrange : limits.range.accepts n with
      | true => simp [Limits.fault?, hvalue, hnumber, hrange, ih hps]
      | false => simp [Limits.fault?, hvalue, hnumber, hrange]
    | message slots => exact absurd hvalue (hp slots)
    | _ => simp [Limits.fault?, Place.number?, hvalue, ih hps]

/-- A message without submessages is refused for its first number out of range. -/
theorem settle_of_number (hflat : ∀ p ∈ σ.places t m, ∀ slots, p.value ≠ .message slots)
    {path : FieldPath} {n : UInt64}
    (hfirst : (σ.numbers t m).find? (fun p => !limits.range.accepts p.2) = some (path, n))
    (a : α) : settle limits.fault? (σ.places t m) a = .error (.rangeOverflow path n) := by
  rw [settle, findSome?_fault_of_flat hflat, ← Schema.numbers, hfirst]
  rfl

end Outcome

end SchemaCodec
