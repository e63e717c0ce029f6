import Mathlib
import SchemaCodec.Catalog.Standard
import SchemaCodec.Proofs.Wire.Filling

/-!
# Proofs.Wire.Foreign — records of other schemas

A record whose field number a type lacks, or has with another wire type, does not show in what is
read: `Schema.decode_foreign_record` takes one out from between any records and any bytes behind
them. Only groups that nest too deep are noticed.

What stands behind a foreign record is read at a later position, and positions occur in faults. So
the two runs agree in the messages that they leave, and need not agree in their faults.
-/

namespace SchemaCodec

variable {σ : Schema} {t : MessageType} {m n : Message} {limits : Limits}

/-- The message that a run leaves depends on the bytes, the limits and the depth only. -/
theorem fill_result_congr {c d : Cursor} (hrest : c.rest = d.rest) (hlimits : c.limits = d.limits)
    (hdepth : c.depth = d.depth) :
    (fill σ t m c).result = .ok n ↔ (fill σ t m d).result = .ok n := by
  rw [fill_result_eq_ok_iff, fill_result_eq_ok_iff, hrest, hlimits, hdepth]

/-- A foreign record whose groups fit can be taken out of the front of a payload. -/
theorem fill_foreign_record {u : Record} (hforeign : t.Foreign u.number u.wire) {c : Cursor}
    {s : List UInt8} (h : c.rest = u.bytes ++ s) (hfits : u.nesting ≤ c.limits.room c.depth) :
    (fill σ t m c).result = .ok n ↔ (fill σ t m { c with rest := s }).result = .ok n := by
  have hmerge : u.mergeInto σ t c.limits c.depth m = .ok m := by
    rw [Record.mergeInto_of_foreign hforeign, if_pos hfits]
  rw [(fill_record u h hmerge).result]
  exact fill_result_congr rfl rfl rfl

namespace Schema

/-- A run over a payload that starts with records goes on behind them, or stops in them. -/
theorem decode_concat (rs : List Record) (s : List UInt8) :
    σ.decode t limits (Record.concat rs ++ s) =
      match rs.foldlM (Record.mergeInto σ t limits 0) t.empty with
      | .ok m => (fill σ t m ((Cursor.start limits (Record.concat rs ++ s)).moveTo s)).result
      | .error e => .error e := by
  have hrest : (Cursor.start limits (Record.concat rs ++ s)).rest = Record.concat rs ++ s := rfl
  cases hm : rs.foldlM (Record.mergeInto σ t limits 0) t.empty with
  | ok m => exact (fill_records rs hrest hm).result
  | error e => exact Run.result_eq_error_iff.2 (fill_records_error rs hrest hm)

/-- Foreign records are invisible: wherever one stands between records and any other bytes, the
payload denotes the same message without it. A foreign record with too many groups inside each
other fails, if what is in front of it is read. -/
theorem decode_foreign_record (σ : Schema) (t : MessageType) (limits : Limits)
    (rs : List Record) (u : Record) (s : List UInt8) (hforeign : t.Foreign u.number u.wire) :
    (u.nesting ≤ limits.recursion → ∀ m,
      σ.decode t limits (Record.concat rs ++ u.bytes ++ s) = .ok m ↔
        σ.decode t limits (Record.concat rs ++ s) = .ok m) ∧
    (limits.recursion < u.nesting → (∃ m, σ.decode t limits (Record.concat rs) = .ok m) →
      σ.decode t limits (Record.concat rs ++ u.bytes ++ s) =
        .error (.recursionLimit limits.recursion)) := by
  constructor
  · intro hfits m
    rw [List.append_assoc, decode_concat, decode_concat]
    cases rs.foldlM (Record.mergeInto σ t limits 0) t.empty with
    | ok m₁ =>
      have htake := fill_foreign_record (σ := σ) (m := m₁) (n := m) (s := s) hforeign
        (c := (Cursor.start limits (Record.concat rs ++ (u.bytes ++ s))).moveTo (u.bytes ++ s))
        rfl hfits
      exact htake.trans (fill_result_congr rfl rfl rfl)
    | error e => rfl
  · rintro hdeep ⟨m, hm⟩
    rw [List.append_assoc, decode_concat]
    rw [← List.append_nil (Record.concat rs), decode_concat] at hm
    cases hfold : rs.foldlM (Record.mergeInto σ t limits 0) t.empty with
    | ok m₁ =>
      have hmerge : u.mergeInto σ t limits 0 m₁ = .error (.recursionLimit limits.recursion) := by
        rw [Record.mergeInto_of_foreign hforeign]
        exact if_neg (Nat.not_le_of_lt hdeep)
      exact Run.result_eq_error_iff.2 (fill_record_error (s := s) u rfl hmerge).2
    | error e =>
      rw [hfold] at hm
      cases hm

/-- A user id. -/
def userIdRecord : Record where
  key := .single 0x08 rfl
  wire := .varint
  value := .flat (.varint (.single 0x07 rfl))
  wire_eq := by decide
  key_ne_zero := by decide

/-- An empty group of field 1 inside a group of field 15. -/
def nestedGroups : Record where
  key := .single 0x7b rfl
  wire := .startGroup
  value := .group (.group (.single 0x0b rfl) (by decide) (.close (.single 0x0c rfl) (by decide))
    (.close (.single 0x7c rfl) (by decide)))
  wire_eq := by decide
  key_ne_zero := by decide

/-- Two groups between two user ids are passed where two may be open, and refused where one may. -/
theorem decode_nestedGroups :
    Catalog.socialService.Foreign nestedGroups.number nestedGroups.wire ∧
    (∀ m, Catalog.standard.decode Catalog.socialService { recursion := 2 }
        (Record.concat [userIdRecord] ++ nestedGroups.bytes ++ [0x08, 0x09]) = .ok m ↔
      Catalog.standard.decode Catalog.socialService { recursion := 2 }
        (Record.concat [userIdRecord] ++ [0x08, 0x09]) = .ok m) ∧
    Catalog.standard.decode Catalog.socialService { recursion := 1 }
      (Record.concat [] ++ nestedGroups.bytes ++ [0x08, 0x09]) = .error (.recursionLimit 1) := by
  have hforeign : Catalog.socialService.Foreign nestedGroups.number nestedGroups.wire :=
    MessageType.foreign_of_none _ (by decide)
  have htwo := decode_foreign_record Catalog.standard Catalog.socialService { recursion := 2 }
    [userIdRecord] nestedGroups [0x08, 0x09] hforeign
  have hone := decode_foreign_record Catalog.standard Catalog.socialService { recursion := 1 }
    [] nestedGroups [0x08, 0x09] hforeign
  exact ⟨hforeign, htwo.1 (by decide), hone.2 (by decide) ⟨_, fill_ends (.inl rfl)⟩⟩

end Schema
end SchemaCodec
