import Mathlib
import SchemaCodec.Proofs.Schema.Obeying
import SchemaCodec.Proofs.Schema.Settling
import SchemaCodec.Proofs.Wire.Filling

/-!
# Proofs.Wire.Accepted — what a payload may denote

A message that was read from a payload is one of its type, and its limits would refuse none of its
places: `Schema.decodeAt_obeys`. The steps are a value (`WireValue.read_obeys`), a record
(`Record.mergeInto_obeys`) and the records of a payload (`Record.foldlM_obeys`).
-/

namespace SchemaCodec

variable {σ : Schema} {t : MessageType} {limits : Limits} {d : Nat} {m m' : Message}

theorem WireValue.read_obeys {path : FieldPath} {kind : Kind} {w : WireType} (v : WireValue w)
    (hw : kind.wireType = w) {x : Element} (hx : v.read σ limits d path kind hw = .ok x)
    (hinner : ∀ name payload inner, payload.length ≤ v.bytes.length →
      σ.decodeAt (σ.type name) limits (d + 1) payload = .ok inner →
      σ.Obeys limits.Passes (σ.type name) (d + 1) inner) :
    x.Obeys σ limits.Passes kind d := by
  -- The wire type of a kind leaves one form of value for each kind.
  match kind, w, v, hw with
  | .string, _, .flat (.lengthDelimited count payload hlen), _ =>
    rw [read_string] at hx
    split at hx
    next s hutf8 =>
      cases hx
      exact Element.obeys_scalar (.string s) rfl fun path => rfl
    next => cases hx
  | .bool, _, .flat (.varint n), _ =>
    cases hx
    exact Element.obeys_scalar (.bool _) rfl fun path => rfl
  | .int32, _, .flat (.varint n), _ =>
    cases hx
    exact Element.obeys_scalar (.int32 _) rfl fun path => rfl
  | .uint64, _, .flat (.varint n), _ =>
    rw [read_uint64] at hx
    split at hx
    next hrange =>
      cases hx
      exact Element.obeys_scalar (.uint64 _) rfl fun path => if_pos hrange
    next => cases hx
  | .enum type, _, .flat (.varint n), _ =>
    cases hx
    exact Element.obeys_scalar (.enum type _) rfl fun path => rfl
  | .message name, _, .flat (.lengthDelimited count payload hlen), _ =>
    rw [read_message] at hx
    split at hx
    next hopen =>
      rcases map_eq_ok_iff.1 hx with ⟨inner, hdecode, rfl⟩
      have hshort : payload.length ≤ (count.bytes ++ payload).length := by simp
      exact Element.obeys_message (hinner name payload inner hshort hdecode) fun path =>
        if_pos hopen
    next => cases hx

namespace Record

variable (ht : t.WellFormed)

include ht

/-- A record keeps the property of a message, if the payloads of submessages do. -/
theorem mergeInto_obeys {r : Record} (h : σ.Obeys limits.Passes t d m)
    (hm : r.mergeInto σ t limits d m = .ok m')
    (hinner : ∀ name payload inner, payload.length < r.bytes.length →
      σ.decodeAt (σ.type name) limits (d + 1) payload = .ok inner →
      σ.Obeys limits.Passes (σ.type name) (d + 1) inner) :
    σ.Obeys limits.Passes t d m' := by
  by_cases hforeign : t.Foreign r.number r.wire
  · rw [mergeInto_of_foreign hforeign] at hm
    split at hm
    next =>
      cases hm
      exact h
    next => cases hm
  · rcases MessageType.exists_field_of_not_foreign hforeign with ⟨f, hfield, hwire⟩
    rw [mergeInto_of_field hfield hwire] at hm
    rcases map_eq_ok_iff.1 hm with ⟨x, hx, rfl⟩
    refine h.put ht hfield (r.value.read_obeys hwire hx ?_)
    intro name payload inner hle
    refine hinner name payload inner ?_
    have := r.key.length_pos
    simp only [bytes, List.length_append]
    omega

theorem foldlM_obeys (rs : List Record) (h : σ.Obeys limits.Passes t d m)
    (hm : rs.foldlM (mergeInto σ t limits d) m = .ok m')
    (hinner : ∀ name payload inner, payload.length < (concat rs).length →
      σ.decodeAt (σ.type name) limits (d + 1) payload = .ok inner →
      σ.Obeys limits.Passes (σ.type name) (d + 1) inner) :
    σ.Obeys limits.Passes t d m' := by
  induction rs generalizing m with
  | nil =>
    cases hm
    exact h
  | cons r rs ih =>
    rw [List.foldlM_cons] at hm
    rcases bind_eq_ok_iff.1 hm with ⟨m₁, hr, hrs⟩
    rw [concat_cons, List.length_append] at hinner
    refine ih (mergeInto_obeys ht h hr ?_) hrs ?_
    · intro name payload inner hlt
      exact hinner name payload inner (by omega)
    · intro name payload inner hlt
      exact hinner name payload inner (by omega)

end Record

/-- The limits refuse nothing in a message that was read under them. -/
theorem Schema.decodeAt_obeys (hσ : σ.WellFormed) (ht : t.WellFormed) {b : List UInt8}
    (h : σ.decodeAt t limits d b = .ok m) : σ.Obeys limits.Passes t d m := by
  -- The payload of a submessage is shorter than the payload that it stands in.
  induction hn : b.length using Nat.strong_induction_on generalizing t d b m with
  | _ n ih =>
    rcases fill_result_eq_ok_iff.1 h with ⟨rs, s, hb, hs, hfold⟩
    have hle : (Record.concat rs).length ≤ n := by
      have hbytes : b = Record.concat rs ++ s := hb
      rw [← hn, hbytes, List.length_append]
      omega
    refine Record.foldlM_obeys ht rs (σ.obeys_empty limits.Passes t d) hfold ?_
    intro name payload inner hlt hinner
    exact ih payload.length (by omega) (hσ.type name) hinner rfl

end SchemaCodec
