import Mathlib
import SchemaCodec.Proofs.Wire.Skipping
import SchemaCodec.Wire.Decode

/-!
# Proofs.Wire.Steps — one step of a run

What `fill` does with the next key of a payload, one theorem for each way on:

- `fill_nil`, `fill_stop`, `fill_tag_error`: there is no further record.
- `fill_scalar`, `fill_submessage`, `fill_submessage_error`, `fill_frame_error`: the record of a
  field.
- `fill_skip`, `fill_skip_error`: a record that is not the type's own.
-/

namespace SchemaCodec

/-- A field number with a wire type is not a type's own: the type has no such field, or its field
is written with another wire type. -/
def MessageType.Foreign (t : MessageType) (number : Nat) (w : WireType) : Prop :=
  ∀ f, t.field? number = some f → f.wireType ≠ w

/-- The remark made about a record that is not a type's own. -/
def MessageType.foreignEvent (t : MessageType) (number : Nat) (w : WireType) : Event :=
  match t.field? number with
  | some f => .wireTypeMismatch t.name f.jsonName f.wireType w
  | none => .unknownField t.name number w

theorem MessageType.foreign_of_ne {t : MessageType} {number : Nat} {w : WireType} {f : Field}
    (hfield : t.field? number = some f) (hwire : f.wireType ≠ w) : t.Foreign number w := by
  intro g hg
  rw [hfield] at hg
  cases hg
  exact hwire

theorem MessageType.foreign_of_none {t : MessageType} {number : Nat} (w : WireType)
    (hfield : t.field? number = none) : t.Foreign number w := by
  intro g hg
  rw [hfield] at hg
  cases hg

theorem MessageType.exists_field_of_not_foreign {t : MessageType} {number : Nat} {w : WireType}
    (h : ¬ t.Foreign number w) : ∃ f, t.field? number = some f ∧ f.wireType = w := by
  simpa [Foreign] using h

theorem MessageType.foreignEvent_of_field {t : MessageType} {number : Nat} {f : Field}
    (hfield : t.field? number = some f) (w : WireType) :
    t.foreignEvent number w = .wireTypeMismatch t.name f.jsonName f.wireType w := by
  simp only [foreignEvent, hfield]

theorem MessageType.foreignEvent_of_none {t : MessageType} {number : Nat}
    (hfield : t.field? number = none) (w : WireType) :
    t.foreignEvent number w = .unknownField t.name number w := by
  simp only [foreignEvent, hfield]

/-- One step of a run, without the proofs that it makes progress. -/
theorem fill_step (σ : Schema) (t : MessageType) (m : Message) (c : Cursor) :
    fill σ t m c =
      if c.rest.isEmpty then ⟨m, c, .ok ()⟩
      else
        match Scan.tag c with
        | .error e d => ⟨m, d, .error e⟩
        | .ok .stop d => ⟨m, d.note (.endMarker t.name c.position), .ok ()⟩
        | .ok (.field number w) d =>
          match t.field? number with
          | some f =>
            if f.wireType = w then
              match Scan.frame f.kind { d with path := ⟨t.name, f.jsonName⟩ } with
              | .error e d' => ⟨m, d', .error e⟩
              | .ok (.scalar e) d' => fill σ t (t.put m number e) { d' with path := d.path }
              | .ok (.submessage name payload) d' =>
                let run := fill σ (σ.type name) (σ.type name).empty (d'.child payload)
                match run.outcome with
                | .error e => ⟨m, { d' with log := run.cursor.log }, .error e⟩
                | .ok () =>
                  fill σ t (t.put m number (.message run.message))
                    { d' with path := d.path, log := run.cursor.log }
            else
              match Scan.skip w (d.note (.wireTypeMismatch t.name f.jsonName f.wireType w)) with
              | .error e d' => ⟨m, d', .error e⟩
              | .ok () d' => fill σ t m d'
          | none =>
            match Scan.skip w (d.note (.unknownField t.name number w)) with
            | .error e d' => ⟨m, d', .error e⟩
            | .ok () d' => fill σ t m d' := by
  -- `fill` keeps the equation of each result for its termination; here the results are enough.
  rw [fill]
  split
  next => rfl
  next =>
    split
    next ht => rw [ht]
    next ht => rw [ht]
    next number w d ht =>
      rw [ht]
      dsimp only
      cases t.field? number with
      | some f =>
        dsimp only
        split
        next =>
          split
          next hf => rw [hf]
          next hf => rw [hf]
          next hf =>
            split
            next hrun => simp only [hf, hrun]
            next hrun => simp only [hf, hrun]
        next =>
          split
          next hs => rw [hs]
          next hs => rw [hs]
      | none =>
        dsimp only
        split
        next hs => rw [hs]
        next hs => rw [hs]

variable {σ : Schema} {t : MessageType} {m : Message} {c d d' : Cursor} {e : Fault}

/-! ## No further record -/

theorem fill_nil (h : c.rest = []) : fill σ t m c = ⟨m, c, .ok ()⟩ := by
  rw [fill_step, if_pos (by simp [h])]

theorem fill_tag_error (hrest : ¬ c.rest.isEmpty = true) (ht : Scan.tag c = .error e d) :
    fill σ t m c = ⟨m, d, .error e⟩ := by
  rw [fill_step, if_neg hrest, ht]

/-- Where a key was read, there was something to read. -/
theorem Scan.rest_ne_nil_of_tag {tag : Tag} (ht : Scan.tag c = .ok tag d) :
    ¬ c.rest.isEmpty = true := by
  intro hempty
  have hlen := Scan.tag_length ht
  rw [List.isEmpty_iff.1 hempty] at hlen
  exact absurd hlen (Nat.not_lt_zero _)

theorem fill_stop (ht : Scan.tag c = .ok .stop d) :
    fill σ t m c = ⟨m, d.note (.endMarker t.name c.position), .ok ()⟩ := by
  rw [fill_step, if_neg (Scan.rest_ne_nil_of_tag ht), ht]

/-! ## The record of a field -/

section Known

variable {number : Nat} {w : WireType} {f : Field} (ht : Scan.tag c = .ok (.field number w) d)
  (hfield : t.field? number = some f) (hwire : f.wireType = w)

include ht hfield hwire

theorem fill_frame_error
    (hframe : Scan.frame f.kind { d with path := ⟨t.name, f.jsonName⟩ } = .error e d') :
    fill σ t m c = ⟨m, d', .error e⟩ := by
  rw [fill_step, if_neg (Scan.rest_ne_nil_of_tag ht), ht]
  simp only [hfield, if_pos hwire]
  rw [hframe]

theorem fill_scalar {x : Element}
    (hframe : Scan.frame f.kind { d with path := ⟨t.name, f.jsonName⟩ } = .ok (.scalar x) d') :
    fill σ t m c = fill σ t (t.put m number x) { d' with path := d.path } := by
  rw [fill_step, if_neg (Scan.rest_ne_nil_of_tag ht), ht]
  simp only [hfield, if_pos hwire]
  rw [hframe]

variable {name : String} {payload : List UInt8}
  (hframe : Scan.frame f.kind { d with path := ⟨t.name, f.jsonName⟩ } =
    .ok (.submessage name payload) d')

include hframe

theorem fill_submessage_error {run : Run}
    (hrun : fill σ (σ.type name) (σ.type name).empty (d'.child payload) = run)
    (houtcome : run.outcome = .error e) :
    fill σ t m c = ⟨m, { d' with log := run.cursor.log }, .error e⟩ := by
  rw [fill_step, if_neg (Scan.rest_ne_nil_of_tag ht), ht]
  simp only [hfield, if_pos hwire]
  rw [hframe]
  simp only [hrun, houtcome]

theorem fill_submessage {run : Run}
    (hrun : fill σ (σ.type name) (σ.type name).empty (d'.child payload) = run)
    (houtcome : run.outcome = .ok ()) :
    fill σ t m c =
      fill σ t (t.put m number (.message run.message))
        { d' with path := d.path, log := run.cursor.log } := by
  rw [fill_step, if_neg (Scan.rest_ne_nil_of_tag ht), ht]
  simp only [hfield, if_pos hwire]
  rw [hframe]
  simp only [hrun, houtcome]

end Known

/-! ## A foreign record -/

section Foreign

variable {number : Nat} {w : WireType} (ht : Scan.tag c = .ok (.field number w) d)
  (hforeign : t.Foreign number w)

include ht hforeign

theorem fill_skip_error
    (hskip : Scan.skip w (d.note (t.foreignEvent number w)) = .error e d') :
    fill σ t m c = ⟨m, d', .error e⟩ := by
  rw [fill_step, if_neg (Scan.rest_ne_nil_of_tag ht), ht]
  cases hfield : t.field? number with
  | some f =>
    rw [MessageType.foreignEvent_of_field hfield] at hskip
    simp only [hfield, if_neg (hforeign f hfield)]
    rw [hskip]
  | none =>
    rw [MessageType.foreignEvent_of_none hfield] at hskip
    simp only [hfield]
    rw [hskip]

theorem fill_skip
    (hskip : Scan.skip w (d.note (t.foreignEvent number w)) = .ok () d') :
    fill σ t m c = fill σ t m d' := by
  rw [fill_step, if_neg (Scan.rest_ne_nil_of_tag ht), ht]
  cases hfield : t.field? number with
  | some f =>
    rw [MessageType.foreignEvent_of_field hfield] at hskip
    simp only [hfield, if_neg (hforeign f hfield)]
    rw [hskip]
  | none =>
    rw [MessageType.foreignEvent_of_none hfield] at hskip
    simp only [hfield]
    rw [hskip]

end Foreign
end SchemaCodec
