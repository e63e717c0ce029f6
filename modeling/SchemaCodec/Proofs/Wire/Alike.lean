import Mathlib
import SchemaCodec.Proofs.Wire.Foreign
import SchemaCodec.Proofs.Wire.Grammar

/-!
# Proofs.Wire.Alike — what may be exchanged in a payload

- `Record.Alike`: two records that do the same to every message.
- `Schema.Alike`: two payloads that do the same to every message.

Both speak of messages and not of faults, since what stands behind an exchanged part is read at
another position. Alike records in front of alike payloads are alike (`Schema.Alike.record`), and
records of a field are alike if their payloads are (`Schema.Alike.submessage`). So whatever is
exchanged inside a submessage, at any depth, may be exchanged in the payload around it.
-/

namespace SchemaCodec

/-- Two records do the same to every message of a type at a depth: both leave the same message, or
both are refused. -/
def Record.Alike (σ : Schema) (t : MessageType) (limits : Limits) (d : Nat) (r r' : Record) :
    Prop :=
  ∀ m m', r.mergeInto σ t limits d m = .ok m' ↔ r'.mergeInto σ t limits d m = .ok m'

/-- Two payloads do the same to every message of a type at a depth: both leave the same message, or
both are refused. -/
def Schema.Alike (σ : Schema) (t : MessageType) (limits : Limits) (d : Nat) (b b' : List UInt8) :
    Prop :=
  ∀ m m', (fill σ t m { rest := b, limits := limits, depth := d }).result = .ok m' ↔
    (fill σ t m { rest := b', limits := limits, depth := d }).result = .ok m'

variable {σ : Schema} {t : MessageType} {limits : Limits} {d : Nat} {s s' : List UInt8}

/-! ## Records -/

/-- A payload that starts with a record is read if the record merges and the rest is read into the
message behind it. -/
theorem fill_record_iff (r : Record) {m m' : Message} :
    (fill σ t m { rest := r.bytes ++ s, limits := limits, depth := d }).result = .ok m' ↔
      ∃ m₁, r.mergeInto σ t limits d m = .ok m₁ ∧
        (fill σ t m₁ { rest := s, limits := limits, depth := d }).result = .ok m' := by
  let c : Cursor := { rest := r.bytes ++ s, limits := limits, depth := d }
  have hrest : c.rest = r.bytes ++ s := rfl
  cases hr : r.mergeInto σ t limits d m with
  | ok m₁ =>
    have hbehind : (fill σ t m₁ (c.moveTo s)).result = .ok m' ↔
        (fill σ t m₁ { rest := s, limits := limits, depth := d }).result = .ok m' :=
      fill_result_congr rfl rfl rfl
    rw [(fill_record r hrest hr).result, hbehind]
    simp
  | error e =>
    have herror := Run.result_eq_error_iff.2 (fill_record_error r hrest hr).2
    rw [herror]
    simp

/-- A payload that starts with records is read if they merge and the rest is read into the message
behind them. -/
theorem fill_records_iff (rs : List Record) {m m' : Message} :
    (fill σ t m { rest := Record.concat rs ++ s, limits := limits, depth := d }).result = .ok m' ↔
      ∃ m₁, rs.foldlM (Record.mergeInto σ t limits d) m = .ok m₁ ∧
        (fill σ t m₁ { rest := s, limits := limits, depth := d }).result = .ok m' := by
  induction rs generalizing m with
  | nil => simp [pure, Except.pure]
  | cons r rs ih =>
    rw [Record.concat_cons, List.append_assoc, fill_record_iff, List.foldlM_cons]
    simp only [ih, bind_eq_ok_iff]
    constructor
    · rintro ⟨m₁, hr, m₂, hrs, hs⟩
      exact ⟨m₂, ⟨m₁, hr, hrs⟩, hs⟩
    · rintro ⟨m₂, ⟨m₁, hr, hrs⟩, hs⟩
      exact ⟨m₁, hr, m₂, hrs, hs⟩

namespace Schema.Alike

theorem refl (σ : Schema) (t : MessageType) (limits : Limits) (d : Nat) (b : List UInt8) :
    σ.Alike t limits d b b :=
  fun _ _ => Iff.rfl

/-- Alike records in front of alike payloads. -/
theorem record {r r' : Record} (hr : r.Alike σ t limits d r') (hs : σ.Alike t limits d s s') :
    σ.Alike t limits d (r.bytes ++ s) (r'.bytes ++ s') := by
  intro m m'
  rw [fill_record_iff, fill_record_iff]
  exact exists_congr fun m₁ => and_congr (hr m m₁) (hs m₁ m')

/-- The same records in front of alike payloads. -/
theorem records (rs : List Record) (hs : σ.Alike t limits d s s') :
    σ.Alike t limits d (Record.concat rs ++ s) (Record.concat rs ++ s') := by
  intro m m'
  rw [fill_records_iff, fill_records_iff]
  exact exists_congr fun m₁ => and_congr_right' (hs m₁ m')

/-- Where a message ends makes no difference. -/
theorem ends (hs : EndsMessage s) (hs' : EndsMessage s') : σ.Alike t limits d s s' := by
  intro m m'
  rw [fill_ends hs, fill_ends hs']

theorem decodeAt (h : σ.Alike t limits d s s') (m : Message) :
    σ.decodeAt t limits d s = .ok m ↔ σ.decodeAt t limits d s' = .ok m :=
  h t.empty m

end Schema.Alike

/-! ## Values of a field -/

namespace Numeral.Announces

variable {key key' : Numeral} {f : Field}

/-- Records of one field are alike if the same is read from their values. -/
theorem alike (h : key.Announces t f) (h' : key'.Announces t f) {w : WireType}
    (hw : f.kind.wireType = w) {v v' : WireValue w}
    (hread : ∀ x, v.read σ limits d ⟨t.name, f.jsonName⟩ f.kind hw = .ok x ↔
      v'.read σ limits d ⟨t.name, f.jsonName⟩ f.kind hw = .ok x) :
    (h.record hw v).Alike σ t limits d (h'.record hw v') := by
  intro m m'
  have hnumber : (h.record hw v).number = (h'.record hw v').number :=
    h.number_eq.trans h'.number_eq.symm
  rw [Record.mergeInto_of_field (r := h.record hw v) h.field hw,
    Record.mergeInto_of_field (r := h'.record hw v') h'.field hw, hnumber, map_eq_ok_iff,
    map_eq_ok_iff]
  exact exists_congr fun x => and_congr_left' (hread x)

end Numeral.Announces

namespace Schema.Alike

variable {key key' : Numeral} {f : Field} (hkey : key.Announces t f) (hkey' : key'.Announces t f)
  (hs : σ.Alike t limits d s s')

include hkey hkey' hs

/-- Records of one field in front of alike payloads, where the same is read from their values. -/
theorem field {w : WireType} (hw : f.kind.wireType = w) (v v' : WireValue w)
    (hread : ∀ x, v.read σ limits d ⟨t.name, f.jsonName⟩ f.kind hw = .ok x ↔
      v'.read σ limits d ⟨t.name, f.jsonName⟩ f.kind hw = .ok x) :
    σ.Alike t limits d (key.bytes ++ v.bytes ++ s) (key'.bytes ++ v'.bytes ++ s') :=
  record (hkey.alike hkey' hw hread) hs

/-- Submessages of one field in front of alike payloads, where the payloads of the submessages are
alike one level deeper. -/
theorem submessage {name : String} (hkind : f.kind = .message name) {count count' : Numeral}
    {payload payload' : List UInt8} (hlen : payload.length = count.value)
    (hlen' : payload'.length = count'.value)
    (hpayload : σ.Alike (σ.type name) limits (d + 1) payload payload') :
    σ.Alike t limits d (key.bytes ++ (count.bytes ++ payload) ++ s)
      (key'.bytes ++ (count'.bytes ++ payload') ++ s') := by
  have hw : f.kind.wireType = .lengthDelimited := by rw [hkind]; rfl
  refine field hkey hkey' hs hw (.flat (.lengthDelimited count payload hlen))
    (.flat (.lengthDelimited count' payload' hlen')) ?_
  intro x
  simp only [hkind, WireValue.read_message]
  split
  next =>
    rw [map_eq_ok_iff, map_eq_ok_iff]
    exact exists_congr fun inner => and_congr_left' (hpayload.decodeAt inner)
  next => exact Iff.rfl

end Schema.Alike
end SchemaCodec
