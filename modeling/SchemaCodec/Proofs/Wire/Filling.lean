import Mathlib
import SchemaCodec.Proofs.Wire.Reading

/-!
# Proofs.Wire.Filling — messages from records

A payload acts on a message record by record. This module defines `Record.mergeInto`, a message
after one more record, and proves

- that a run over records is the fold of `Record.mergeInto` over them (`fill_records`,
  `fill_records_error`),
- that a run succeeds exactly on records that all merge, up to the end of the message
  (`fill_result_eq_ok_iff`).
-/

namespace SchemaCodec

/-! ## Runs and their results -/

namespace Run

theorem result_eq_ok_iff {r : Run} {m : Message} :
    r.result = .ok m ↔ r.outcome = .ok () ∧ r.message = m := by
  unfold result
  cases r.outcome with
  | ok u => simp [Except.map]
  | error e => simp [Except.map]

theorem result_eq_error_iff {r : Run} {e : Fault} :
    r.result = .error e ↔ r.outcome = .error e :=
  map_eq_error_iff

end Run

variable {σ : Schema} {t : MessageType} {m m' : Message} {c : Cursor} {s : List UInt8}

/-- A submessage is read as a payload of its own. -/
theorem fill_child (payload : List UInt8) :
    (fill σ t t.empty (c.child payload)).result =
      σ.decodeAt t c.limits (c.depth + 1) payload := by
  have hrelabel := fill_relabel σ t t.empty
    { rest := payload, limits := c.limits, depth := c.depth + 1 } (fun _ => c.path) c.log
  exact hrelabel.result

/-! ## Records -/

namespace Record

/-- A message of a type after one more record: the value of a field is put into the message, and
a foreign record leaves the message as it was if its groups fit. -/
def mergeInto (σ : Schema) (t : MessageType) (limits : Limits) (depth : Nat) (m : Message)
    (r : Record) : Except Fault Message :=
  let foreign : Except Fault Message :=
    if r.nesting ≤ limits.room depth then .ok m else .error (.recursionLimit limits.recursion)
  match t.field? r.number with
  | none => foreign
  | some f =>
    if h : f.kind.wireType = r.wire then
      (r.value.read σ limits depth ⟨t.name, f.jsonName⟩ f.kind h).map (t.put m r.number)
    else foreign

variable {limits : Limits} {depth : Nat}

theorem mergeInto_of_foreign {r : Record} (h : t.Foreign r.number r.wire) :
    r.mergeInto σ t limits depth m =
      if r.nesting ≤ limits.room depth then .ok m
      else .error (.recursionLimit limits.recursion) := by
  unfold mergeInto
  cases hfield : t.field? r.number with
  | none => rfl
  | some f => exact dif_neg (h f hfield)

theorem mergeInto_of_field {r : Record} {f : Field} (hfield : t.field? r.number = some f)
    (hwire : f.kind.wireType = r.wire) :
    r.mergeInto σ t limits depth m =
      (r.value.read σ limits depth ⟨t.name, f.jsonName⟩ f.kind hwire).map
        (t.put m r.number) := by
  unfold mergeInto
  rw [hfield]
  exact dif_pos hwire

end Record

/-- A record whose value is read is passed, and the message goes on with that value. -/
theorem fill_record (r : Record) (h : c.rest = r.bytes ++ s)
    (hm : r.mergeInto σ t c.limits c.depth m = .ok m') :
    (fill σ t m c).Agrees (fill σ t m' (c.moveTo s)) := by
  have ht := Scan.tag_record r h
  have hrest : c.rest = r.key.bytes ++ (r.value.bytes ++ s) := by simpa [Record.bytes] using h
  by_cases hforeign : t.Foreign r.number r.wire
  · rw [Record.mergeInto_of_foreign hforeign] at hm
    split at hm
    next hfits =>
      cases hm
      have hskip := r.value.skip_of_le
        (c := (c.moveTo (r.value.bytes ++ s)).note (t.foreignEvent r.number r.wire))
        (s := s) rfl hfits
      rw [fill_skip ht hforeign hskip]
      -- The remark about the record stays in the log, where no later step looks.
      have hmove : ((c.moveTo (r.value.bytes ++ s)).note
          (t.foreignEvent r.number r.wire)).moveTo s =
          (c.moveTo s).relabel id (c.log ++ [t.foreignEvent r.number r.wire]) := by
        rw [← Cursor.moveTo_moveTo s hrest]
        rfl
      rw [hmove]
      exact fill_relabel σ t m (c.moveTo s) id _
    next => cases hm
  · obtain ⟨f, hfield, hwire⟩ := MessageType.exists_field_of_not_foreign hforeign
    rw [Record.mergeInto_of_field hfield hwire] at hm
    have hmove : (c.moveTo (r.value.bytes ++ s)).moveTo s = c.moveTo s :=
      Cursor.moveTo_moveTo s hrest
    -- A frame is taken with the path of its field, and the path of before is set again behind it.
    cases hframe : r.value.frame c.limits c.depth ⟨t.name, f.jsonName⟩ f.kind hwire with
    | error e =>
      rw [WireValue.read_of_error hframe] at hm
      cases hm
    | ok frame =>
      have hscan := WireValue.frame_ok r.value hwire (s := s)
        (c := { c.moveTo (r.value.bytes ++ s) with path := ⟨t.name, f.jsonName⟩ }) rfl hframe
      cases frame with
      | scalar x =>
        rw [WireValue.read_of_scalar hframe] at hm
        cases hm
        rw [fill_scalar ht hfield hwire hscan, ← hmove]
        exact ⟨rfl, rfl, rfl, rfl⟩
      | submessage name payload =>
        rw [WireValue.read_of_submessage hframe, map_eq_ok_iff] at hm
        obtain ⟨x, hx, rfl⟩ := hm
        obtain ⟨inner, hinner, rfl⟩ := map_eq_ok_iff.1 hx
        have hchild := fill_child (t := σ.type name) (σ := σ) payload
          (c := { c.moveTo (r.value.bytes ++ s) with path := ⟨t.name, f.jsonName⟩ }.moveTo s)
        obtain ⟨houtcome, hmessage⟩ := Run.result_eq_ok_iff.1 (hchild.trans hinner)
        rw [fill_submessage ht hfield hwire hscan rfl houtcome, hmessage, ← hmove]
        exact fill_relabel σ t _ ((c.moveTo (r.value.bytes ++ s)).moveTo s) id _

/-- A record whose value is refused stops the run, and the message stays as it was. -/
theorem fill_record_error (r : Record) (h : c.rest = r.bytes ++ s) {e : Fault}
    (hm : r.mergeInto σ t c.limits c.depth m = .error e) :
    (fill σ t m c).message = m ∧ (fill σ t m c).outcome = .error e := by
  have ht := Scan.tag_record r h
  by_cases hforeign : t.Foreign r.number r.wire
  · rw [Record.mergeInto_of_foreign hforeign] at hm
    split at hm
    next => cases hm
    next hfits =>
      cases hm
      obtain ⟨d, hskip⟩ := r.value.skip_of_lt
        (c := (c.moveTo (r.value.bytes ++ s)).note (t.foreignEvent r.number r.wire))
        (s := s) rfl (Nat.lt_of_not_le hfits)
      rw [fill_skip_error ht hforeign hskip]
      exact ⟨rfl, rfl⟩
  · obtain ⟨f, hfield, hwire⟩ := MessageType.exists_field_of_not_foreign hforeign
    rw [Record.mergeInto_of_field hfield hwire, map_eq_error_iff] at hm
    cases hframe : r.value.frame c.limits c.depth ⟨t.name, f.jsonName⟩ f.kind hwire with
    | error e' =>
      rw [WireValue.read_of_error hframe] at hm
      cases hm
      obtain ⟨d, hscan⟩ := WireValue.frame_error r.value hwire (s := s)
        (c := { c.moveTo (r.value.bytes ++ s) with path := ⟨t.name, f.jsonName⟩ }) rfl hframe
      rw [fill_frame_error ht hfield hwire hscan]
      exact ⟨rfl, rfl⟩
    | ok frame =>
      have hscan := WireValue.frame_ok r.value hwire (s := s)
        (c := { c.moveTo (r.value.bytes ++ s) with path := ⟨t.name, f.jsonName⟩ }) rfl hframe
      cases frame with
      | scalar x =>
        rw [WireValue.read_of_scalar hframe] at hm
        cases hm
      | submessage name payload =>
        rw [WireValue.read_of_submessage hframe, map_eq_error_iff] at hm
        have hchild := fill_child (t := σ.type name) (σ := σ) payload
          (c := { c.moveTo (r.value.bytes ++ s) with path := ⟨t.name, f.jsonName⟩ }.moveTo s)
        rw [fill_submessage_error ht hfield hwire hscan rfl
          (Run.result_eq_error_iff.1 (hchild.trans hm))]
        exact ⟨rfl, rfl⟩

/-- Records that all merge are passed one after the other. -/
theorem fill_records (rs : List Record) (h : c.rest = Record.concat rs ++ s)
    (hm : rs.foldlM (Record.mergeInto σ t c.limits c.depth) m = .ok m') :
    (fill σ t m c).Agrees (fill σ t m' (c.moveTo s)) := by
  induction rs generalizing m c with
  | nil =>
    cases hm
    have hs : s = c.rest := h.symm
    rw [hs, Cursor.moveTo_self]
    exact ⟨rfl, rfl, rfl, rfl⟩
  | cons r rs ih =>
    rw [List.foldlM_cons] at hm
    cases hr : r.mergeInto σ t c.limits c.depth m with
    | error e =>
      rw [hr] at hm
      cases hm
    | ok m₁ =>
      rw [hr] at hm
      have hrest : c.rest = r.bytes ++ (Record.concat rs ++ s) := by simpa using h
      have hstep := fill_record (s := Record.concat rs ++ s) r hrest hr
      have hgo := ih (c := c.moveTo (Record.concat rs ++ s)) rfl hm
      rw [Cursor.moveTo_moveTo s hrest] at hgo
      exact hstep.trans hgo

/-- The first record that does not merge stops the run. -/
theorem fill_records_error (rs : List Record) (h : c.rest = Record.concat rs ++ s) {e : Fault}
    (hm : rs.foldlM (Record.mergeInto σ t c.limits c.depth) m = .error e) :
    (fill σ t m c).outcome = .error e := by
  induction rs generalizing m c with
  | nil => cases hm
  | cons r rs ih =>
    rw [List.foldlM_cons] at hm
    have hrest : c.rest = r.bytes ++ (Record.concat rs ++ s) := by simpa using h
    cases hr : r.mergeInto σ t c.limits c.depth m with
    | error e' =>
      rw [hr] at hm
      cases hm
      exact (fill_record_error r hrest hr).2
    | ok m₁ =>
      rw [hr] at hm
      have hstep := fill_record (s := Record.concat rs ++ s) r hrest hr
      rw [hstep.outcome]
      exact ih (c := c.moveTo (Record.concat rs ++ s)) rfl hm

/-! ## Whole payloads -/

/-- Where a message ends, the run ends without a failure. -/
theorem fill_ends (h : EndsMessage c.rest) : (fill σ t m c).result = .ok m := by
  rcases h with hnil | ⟨marker, rest, hmarker, hrest⟩
  · rw [fill_nil hnil]
    rfl
  · rw [fill_stop (Scan.tag_endMarker hmarker hrest)]
    rfl

/-- Records up to the end of a message act on the message one after the other. -/
theorem fill_result_eq_foldlM (rs : List Record) (h : c.rest = Record.concat rs ++ s)
    (hs : EndsMessage s) :
    (fill σ t m c).result = rs.foldlM (Record.mergeInto σ t c.limits c.depth) m := by
  cases hm : rs.foldlM (Record.mergeInto σ t c.limits c.depth) m with
  | ok m' =>
    rw [(fill_records rs h hm).result]
    exact fill_ends hs
  | error e => exact Run.result_eq_error_iff.2 (fill_records_error rs h hm)

/-- A payload that is made of records denotes what they make of the empty message. -/
theorem Schema.decodeAt_concat (σ : Schema) (t : MessageType) (limits : Limits) (depth : Nat)
    (rs : List Record) :
    σ.decodeAt t limits depth (Record.concat rs) =
      rs.foldlM (Record.mergeInto σ t limits depth) t.empty :=
  fill_result_eq_foldlM rs (List.append_nil _).symm (.inl rfl)

namespace Scan

variable {d : Cursor}

/-- One more record in front of records up to an end. -/
theorem exists_records_of_tag {number : Nat} {w : WireType} {v : WireValue w}
    {P : List UInt8 → Prop} (ht : tag c = .ok (.field number w) d) (hv : d.rest = v.bytes ++ s)
    (h : ∃ rs s', s = Record.concat rs ++ s' ∧ P s') :
    ∃ rs s', c.rest = Record.concat rs ++ s' ∧ P s' := by
  obtain ⟨rs, s', rfl, hs⟩ := h
  obtain ⟨r, hr⟩ := exists_record ht hv
  exact ⟨r :: rs, s', by simp [hr], hs⟩

end Scan

/-- What was read without a failure is made of records up to the end of the message. An end that
is not the end of the payload is remarked. -/
theorem exists_records_of_fill (h : (fill σ t m c).outcome = .ok ()) :
    ∃ rs s, c.rest = Record.concat rs ++ s ∧ EndsMessage s ∧
      (s = [] ∨ ∃ position, .endMarker t.name position ∈ (fill σ t m c).cursor.log) := by
  fun_induction fill σ t m c with
  | case1 t m c hempty => exact ⟨[], [], List.isEmpty_iff.1 hempty, .inl rfl, .inl rfl⟩
  | case2 => cases h
  | case3 t m c hempty d ht =>
    obtain ⟨key, hkey, hrest⟩ := Scan.tag_stop ht
    refine ⟨[], c.rest, rfl, .inr ⟨key, d.rest, hkey, hrest⟩, .inr ⟨c.position, ?_⟩⟩
    exact List.mem_append_right _ List.mem_cons_self
  | case4 => cases h
  | case5 t m c hempty number d field hfield x d' hframe ht ih =>
    obtain ⟨v, hv⟩ := Scan.exists_value_of_frame hframe
    exact Scan.exists_records_of_tag ht hv (ih h)
  | case6 => cases h
  | case7 t m c hempty number d field hfield name payload d' hframe run houtcome ht ih ihNext =>
    obtain ⟨v, hv⟩ := Scan.exists_value_of_frame hframe
    exact Scan.exists_records_of_tag ht hv (ihNext h)
  | case8 => cases h
  | case9 t m c hempty number w d ht field hfield hwire d' hskip ih =>
    obtain ⟨v, hv⟩ := Scan.skip_ok hskip
    exact Scan.exists_records_of_tag ht hv (ih h)
  | case10 => cases h
  | case11 t m c hempty number w d ht hfield d' hskip ih =>
    obtain ⟨v, hv⟩ := Scan.skip_ok hskip
    exact Scan.exists_records_of_tag ht hv (ih h)

/-- A run leaves a message exactly if its payload is made of records up to the end of the message,
and that message is what the records make of the one at the start. -/
theorem fill_result_eq_ok_iff :
    (fill σ t m c).result = .ok m' ↔
      ∃ rs s, c.rest = Record.concat rs ++ s ∧ EndsMessage s ∧
        rs.foldlM (Record.mergeInto σ t c.limits c.depth) m = .ok m' := by
  constructor
  · intro h
    obtain ⟨rs, s, hrest, hs, -⟩ := exists_records_of_fill (Run.result_eq_ok_iff.1 h).1
    exact ⟨rs, s, hrest, hs, (fill_result_eq_foldlM rs hrest hs).symm.trans h⟩
  · rintro ⟨rs, s, hrest, hs, hm⟩
    exact (fill_result_eq_foldlM rs hrest hs).trans hm

end SchemaCodec
