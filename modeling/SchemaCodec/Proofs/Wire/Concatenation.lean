import Mathlib
import SchemaCodec.Proofs.Wire.Foreign
import SchemaCodec.Proofs.Wire.RoundTrip

/-!
# Proofs.Wire.Concatenation — one payload behind another

- `Run.Complete`: a run that ended with its payload, and not at an end marker.

A payload behind one that was read to its end is read as on its own, only into the message that is
there already (`Schema.decode_append_iff`). So payloads that were written one behind the other are
read as the merge of their messages (`Schema.decode_encode_append`), as far as the limits let them.
-/

namespace SchemaCodec

/-- A run came to the end of its payload without a failure, and without an end marker. An end marker
inside a submessage is remarked under the type of that submessage and does not count. -/
structure Run.Complete (t : MessageType) (r : Run) : Prop where
  outcome : r.outcome = .ok ()
  rest : r.cursor.rest = []
  unmarked : ∀ position, .endMarker t.name position ∉ r.cursor.log

section Append

variable {σ : Schema} {t : MessageType} {limits : Limits}

/-- What was read to its end without an end marker is made of records only. -/
theorem exists_records_of_complete {m : Message} {c : Cursor} (h : (fill σ t m c).Complete t) :
    ∃ rs, c.rest = Record.concat rs := by
  rcases exists_records_of_fill h.outcome with ⟨rs, s, hrest, -, hend⟩
  rcases hend with rfl | ⟨position, hmarker⟩
  · exact ⟨rs, by rw [hrest, List.append_nil]⟩
  · exact absurd hmarker (h.unmarked position)

namespace Schema

/-- Behind a payload that was read to its end, another one is read into the message so far. -/
theorem decode_append_iff {a b : List UInt8} {m : Message} (h : (σ.run t limits a).Complete t) :
    σ.decode t limits (a ++ b) = .ok m ↔
      (fill σ t (σ.run t limits a).message (.start limits b)).result = .ok m := by
  have hresult : (σ.run t limits a).result = .ok (σ.run t limits a).message :=
    Run.result_eq_ok_iff.2 ⟨h.outcome, rfl⟩
  rcases exists_records_of_complete h with ⟨rs, hrs⟩
  replace hrs : a = Record.concat rs := hrs
  have hfold : rs.foldlM (Record.mergeInto σ t limits 0) t.empty =
      .ok (σ.run t limits a).message := by
    rw [← decodeAt_concat, ← hrs]
    exact hresult
  generalize (σ.run t limits a).message = x at hfold ⊢
  rw [hrs, decode_concat, hfold]
  -- The other payload is read at a later position here, which shows in faults only.
  exact fill_result_congr rfl rfl rfl

/-- Messages that were written one behind the other are read as their merge, or refused with the
fault of the first place in them that is refused. -/
theorem decode_encode_append (hσ : σ.WellFormed) (ht : t.WellFormed) {m₁ m₂ : Message}
    (h₁ : σ.Conforms t m₁) (h₂ : σ.Conforms t m₂) (hlen₁ : (σ.encode t m₁).length < 2 ^ 64)
    (hlen₂ : (σ.encode t m₂).length < 2 ^ 64) (limits : Limits) :
    σ.decode t limits (σ.encode t m₁ ++ σ.encode t m₂) =
      settle limits.fault? (σ.places t m₁ ++ σ.places t m₂) (t.merge m₁ m₂) := by
  rcases exists_records_of_message ht h₁.length_eq h₁.admits (h₁.returns hσ hlen₁) with
    ⟨rs, hrs, hfirst⟩
  rcases exists_records_of_message ht h₂.length_eq h₂.admits (h₂.returns hσ hlen₂) with
    ⟨qs, hqs, hsecond⟩
  have hstart := hfirst limits 0 t.empty (by simp [MessageType.empty])
  rw [MessageType.merge_empty h₁.length_eq] at hstart
  have hread : (rs ++ qs).foldlM (Record.mergeInto σ t limits 0) t.empty =
      settle limits.fault? (σ.places t m₁ ++ σ.places t m₂) (t.merge m₁ m₂) := by
    rw [List.foldlM_append, hstart, settle_append _ _ m₁, places]
    cases hsettle : settle limits.fault? (fieldPlaces σ t.name 0 t.fields m₁) m₁ with
    | error fault => rfl
    | ok m =>
      rcases settle_eq_ok_iff.1 hsettle with ⟨-, rfl⟩
      exact hsecond limits 0 m₁ h₁.length_eq
  rw [decode_eq_decodeAt, ← hrs, ← hqs, ← Record.concat_append, decodeAt_concat]
  exact hread

end Schema
end Append

/-! ## The catalogue -/

namespace Catalog

/-- Concatenation is merge. Behind a payload that is read to its end and without an end marker, any
other payload is read into the message that is there, and fails if it fails there. Two messages
that are each within the limits are read from one payload as their merge. -/
theorem concatenation_is_merge {t : MessageType} (ht : t ∈ types) (limits : Limits) :
    (∀ a x, (standard.run t limits a).Complete t → (standard.run t limits a).message = x →
      ∀ b m, standard.decode t limits (a ++ b) = .ok m ↔
        (fill standard t x (.start limits b)).result = .ok m) ∧
    ∀ m₁ m₂, standard.Conforms t m₁ → standard.Conforms t m₂ →
      (standard.encode t m₁).length < 2 ^ 63 → (standard.encode t m₂).length < 2 ^ 63 →
      (m₁.depth ≤ limits.recursion ∧
        ∀ p ∈ standard.numbers t m₁, limits.range.accepts p.2 = true) →
      (m₂.depth ≤ limits.recursion ∧
        ∀ p ∈ standard.numbers t m₂, limits.range.accepts p.2 = true) →
      standard.decode t limits (standard.encode t m₁ ++ standard.encode t m₂) =
        .ok (t.merge m₁ m₂) := by
  constructor
  · rintro a x hcomplete rfl b m
    exact Schema.decode_append_iff hcomplete
  · intro m₁ m₂ h₁ h₂ hlen₁ hlen₂ hin₁ hin₂
    have hpass₁ := (settle_places ht h₁ limits m₁).1.2 hin₁
    have hpass₂ := (settle_places ht h₂ limits m₂).1.2 hin₂
    rw [Schema.decode_encode_append standard_wellFormed (standard_wellFormed t ht) h₁ h₂
      (Nat.lt_trans hlen₁ (by norm_num)) (Nat.lt_trans hlen₂ (by norm_num)), settle_eq_ok_iff]
    refine ⟨?_, rfl⟩
    intro p hp
    rcases List.mem_append.1 hp with hp | hp
    · exact (settle_eq_ok_iff.1 hpass₁).1 p hp
    · exact (settle_eq_ok_iff.1 hpass₂).1 p hp

/-- A text column of eight characters. -/
def sizedColumn : Message :=
  [[.string "text"], [.string "name"], [.message (columnTag.put columnTag.empty 3 (.int32 8))], []]

/-- The column under another name and with another setting. -/
def renamedColumn : Message :=
  [[], [.string "label"], [.message (columnTag.put columnTag.empty 6 (.bool true))], []]

/-- A column keeps its type and takes the new name, and the new settings replace the old ones. A
user id that a payload lacks is the one of the payload in front. -/
theorem concatenation_is_merge_instances :
    standard.decode extraField {}
      (standard.encode extraField sizedColumn ++ standard.encode extraField renamedColumn) =
        .ok [[.string "text"], [.string "label"],
          [.message (columnTag.put columnTag.empty 6 (.bool true))], []] ∧
    ∀ b m, standard.decode deleteAccount {} ([0x18, 0x07] ++ b) = .ok m ↔
      (fill standard deleteAccount [[], [], [.uint64 7], []] (.start {} b)).result = .ok m := by
  have hrun : standard.run deleteAccount {} [0x18, 0x07] =
      ⟨[[], [], [.uint64 7], []], { rest := [], position := 2 }, .ok ()⟩ := by cbv
  have hcomplete : (standard.run deleteAccount {} [0x18, 0x07]).Complete deleteAccount := by
    rw [hrun]
    exact ⟨rfl, rfl, fun position => List.not_mem_nil⟩
  constructor
  · have hcolumns := concatenation_is_merge (t := extraField) (by decide) {}
    exact hcolumns.2 sizedColumn renamedColumn (by decide) (by decide) (by cbv) (by cbv)
      (by decide) (by decide)
  · have haccounts := concatenation_is_merge (t := deleteAccount) (by decide) {}
    exact haccounts.1 _ _ hcomplete (by rw [hrun])

end Catalog
end SchemaCodec
