import Mathlib
import SchemaCodec.Catalog.Standard
import SchemaCodec.Proofs.Wire.Decomposition
import SchemaCodec.Proofs.Wire.Filling

/-!
# Proofs.Wire.Failing — what a failed record leaves behind

- `Draft`: a message that is read in place, with the cursor of its reader.
- `Draft.merge`: the value of a field read into such a message.
- `fill_failed`: a run that fails has merged the complete records in front of the one that failed.

A value is read as a whole before the message changes, so a field that fails leaves the message of
before (`Draft.merge_error`), and such steps lead a run from record to record (`fill_field`).
-/

namespace SchemaCodec

/-! ## Messages read in place -/

/-- A message that is read in place, and where its reader stands. -/
structure Draft where
  message : Message
  cursor : Cursor

namespace Draft

/-- A step of the reader of a message. -/
def scan {α : Type} (x : Scan α) : EStateM Fault Draft α := fun s =>
  match x s.cursor with
  | .ok a c => .ok a { s with cursor := c }
  | .error e c => .error e { s with cursor := c }

/-- Reads the value of a field into a message. A number that the type lacks reads nothing. -/
def merge (σ : Schema) (t : MessageType) (number : Nat) : EStateM Fault Draft Unit :=
  match t.field? number with
  | none => return ()
  | some f => do
    let e ← scan (Scan.element σ f.kind)
    modify fun s => { s with message := t.put s.message number e }

variable {σ : Schema} {t : MessageType} {number : Nat} {s s' : Draft} {e : Fault}

/-- Reading in place is reading the message that comes of it, and a failure keeps the message. -/
theorem merge_eq (s : Draft) :
    merge σ t number s =
      match Scan.merge σ t s.message number s.cursor with
      | .ok m c => .ok () ⟨m, c⟩
      | .error e c => .error e ⟨s.message, c⟩ := by
  rw [merge, Scan.merge]
  cases t.field? number with
  | none => rfl
  | some f =>
    simp only [bind, EStateM.bind, scan]
    cases Scan.element σ f.kind s.cursor <;> rfl

theorem merge_error (h : merge σ t number s = .error e s') : s'.message = s.message := by
  rw [merge_eq] at h
  split at h
  next => cases h
  next =>
    cases h
    rfl

end Draft

variable {σ : Schema} {t : MessageType} {m : Message} {c d : Cursor} {e : Fault}

/-- At the record of a field, a run goes on behind its value, or stops where the value fails. -/
theorem fill_element {number : Nat} {w : WireType} {f : Field}
    (ht : Scan.tag c = .ok (.field number w) d) (hfield : t.field? number = some f)
    (hwire : f.wireType = w) :
    fill σ t m c =
      match Scan.element σ f.kind { d with path := ⟨t.name, f.jsonName⟩ } with
      | .ok x d' => fill σ t (t.put m number x) { d' with path := d.path }
      | .error e d' => ⟨m, d', .error e⟩ := by
  rw [Scan.element]
  cases hframe : Scan.frame f.kind { d with path := ⟨t.name, f.jsonName⟩ } with
  | error e d' => exact fill_frame_error ht hfield hwire hframe
  | ok frame d' =>
    cases frame with
    | scalar x => exact fill_scalar ht hfield hwire hframe
    | submessage name payload =>
      dsimp only
      cases hrun : (fill σ (σ.type name) (σ.type name).empty (d'.child payload)).outcome with
      | error e => exact fill_submessage_error ht hfield hwire hframe rfl hrun
      | ok u => exact fill_submessage ht hfield hwire hframe rfl hrun

/-- In other words, it goes on with what reading in place leaves, or stops there. -/
theorem fill_field {number : Nat} {w : WireType} {f : Field}
    (ht : Scan.tag c = .ok (.field number w) d) (hfield : t.field? number = some f)
    (hwire : f.wireType = w) :
    fill σ t m c =
      match Draft.merge σ t number ⟨m, { d with path := ⟨t.name, f.jsonName⟩ }⟩ with
      | .ok () s => fill σ t s.message { s.cursor with path := d.path }
      | .error e s => ⟨s.message, s.cursor, .error e⟩ := by
  rw [Draft.merge_eq, Scan.merge, hfield, fill_element ht hfield hwire]
  simp only [bind, EStateM.bind]
  cases Scan.element σ f.kind { d with path := ⟨t.name, f.jsonName⟩ } <;> rfl

/-! ## Where a run fails -/

/-- Whether a record is refused does not depend on the message before it. -/
theorem Record.mergeInto_error {limits : Limits} {depth : Nat} {r : Record}
    (h : r.mergeInto σ t limits depth m = .error e) (m' : Message) :
    r.mergeInto σ t limits depth m' = .error e := by
  by_cases hforeign : t.Foreign r.number r.wire
  · rw [mergeInto_of_foreign hforeign] at h ⊢
    split at h
    next => cases h
    next hfits => rwa [if_neg hfits]
  · obtain ⟨f, hfield, hwire⟩ := MessageType.exists_field_of_not_foreign hforeign
    rw [mergeInto_of_field hfield hwire, map_eq_error_iff] at h ⊢
    exact h

/-- A run leaves the message as it was where no complete record stands. -/
theorem fill_message_of_incomplete (hnone : ∀ (r : Record) s, c.rest ≠ r.bytes ++ s) :
    (fill σ t m c).message = m := by
  -- Whatever would let the run go on is a complete record.
  have hcomplete : ∀ {number : Nat} {w : WireType} {v : WireValue w} {d : Cursor} {s : List UInt8},
      Scan.tag c = .ok (.field number w) d → d.rest = v.bytes ++ s → False := by
    intro number w v d s ht hv
    obtain ⟨r, hr⟩ := Scan.exists_record ht hv
    exact hnone r s hr
  fun_cases fill σ t m c with
  | case1 => rfl
  | case2 => rfl
  | case3 => rfl
  | case4 => rfl
  | case5 hempty number d field hfield x d' hframe ht =>
    obtain ⟨v, hv⟩ := Scan.exists_value_of_frame hframe
    exact (hcomplete ht hv).elim
  | case6 => rfl
  | case7 hempty number d field hfield name payload d' hframe run houtcome ht =>
    obtain ⟨v, hv⟩ := Scan.exists_value_of_frame hframe
    exact (hcomplete ht hv).elim
  | case8 => rfl
  | case9 hempty number w d ht field hfield hwire d' hskip =>
    obtain ⟨v, hv⟩ := Scan.skip_ok hskip
    exact (hcomplete ht hv).elim
  | case10 => rfl
  | case11 hempty number w d ht hfield d' hskip =>
    obtain ⟨v, hv⟩ := Scan.skip_ok hskip
    exact (hcomplete ht hv).elim

/-- A run that fails has merged the records in front of the one that failed, and nothing of that
one: it is not complete, or it is refused whatever the message is. -/
theorem fill_failed (h : (fill σ t m c).outcome = .error e) :
    ∃ rs s, c.rest = Record.concat rs ++ s ∧
      rs.foldlM (Record.mergeInto σ t c.limits c.depth) m = .ok (fill σ t m c).message ∧
      ¬ EndsMessage s ∧
      ∀ (r : Record) s', s = r.bytes ++ s' →
        ∀ m', r.mergeInto σ t c.limits c.depth m' = .error e := by
  -- The induction is on what is left; a complete record that merges makes it shorter.
  induction hlen : c.rest.length using Nat.strong_induction_on generalizing m c with
  | _ n ih =>
    have hgoes : ¬ EndsMessage c.rest := by
      intro hends
      have hresult := Run.result_eq_ok_iff.1 (fill_ends (σ := σ) (t := t) (m := m) hends)
      rw [hresult.1] at h
      cases h
    by_cases hcomplete : ∃ (r : Record) (s : List UInt8), c.rest = r.bytes ++ s
    · obtain ⟨r, s, hrest⟩ := hcomplete
      cases hr : r.mergeInto σ t c.limits c.depth m with
      | ok m₁ =>
        have hstep := fill_record r hrest hr
        have hshorter : (c.moveTo s).rest.length < n := by
          have hpos := r.length_pos
          rw [← hlen, hrest, List.length_append]
          simp only [Cursor.rest_moveTo]
          omega
        rw [hstep.outcome] at h
        obtain ⟨rs, q, hs, hfold, hends, hrefused⟩ := ih _ hshorter h rfl
        refine ⟨r :: rs, q, ?_, ?_, hends, hrefused⟩
        · rw [hrest, Record.concat_cons, List.append_assoc]
          exact congrArg (r.bytes ++ ·) hs
        · rw [List.foldlM_cons, hr, hstep.message]
          exact hfold
      | error e' =>
        obtain ⟨hmessage, houtcome⟩ := fill_record_error r hrest hr
        rw [h] at houtcome
        cases houtcome
        refine ⟨[], c.rest, rfl, congrArg Except.ok hmessage.symm, hgoes, ?_⟩
        intro r' s' hr' m'
        obtain ⟨rfl, -⟩ := Record.prefixFree (hrest.symm.trans hr')
        exact Record.mergeInto_error hr m'
    · have hnone : ∀ (r : Record) s, c.rest ≠ r.bytes ++ s := fun r s hr => hcomplete ⟨r, s, hr⟩
      have hmessage := fill_message_of_incomplete (σ := σ) (t := t) (m := m) hnone
      refine ⟨[], c.rest, rfl, congrArg Except.ok hmessage.symm, hgoes, ?_⟩
      intro r s hr
      exact absurd hr (hnone r s)

/-- A failing record leaves no trace. Where reading bytes into a message fails, the message that
is left is the one that the complete records before the failing one give, and these are read
without a failure. A field that fails leaves the message that it is read into as it was. -/
theorem Schema.failing_record_leaves_no_trace (σ : Schema) (t : MessageType) (m₀ : Message)
    (limits : Limits) (bytes : List UInt8) :
    (∀ e, (fill σ t m₀ (.start limits bytes)).outcome = .error e →
      ∃ rs s, bytes = Record.concat rs ++ s ∧ ¬ EndsMessage s ∧
        (∀ (r : Record) s', s = r.bytes ++ s' →
          ∀ m, r.mergeInto σ t limits 0 m = .error e) ∧
        (fill σ t m₀ (.start limits (Record.concat rs))).result =
          .ok (fill σ t m₀ (.start limits bytes)).message) ∧
    ∀ (m : Message) (c : Cursor) (number : Nat) (e : Fault) (s : Draft),
      Draft.merge σ t number ⟨m, c⟩ = .error e s → s.message = m := by
  constructor
  · intro e h
    obtain ⟨rs, s, hrest, hfold, hends, hrefused⟩ := fill_failed h
    refine ⟨rs, s, hrest, hends, hrefused, ?_⟩
    -- Nothing follows the records when they are read alone.
    have halone : (Cursor.start limits (Record.concat rs)).rest = Record.concat rs ++ [] :=
      (List.append_nil _).symm
    exact (fill_result_eq_foldlM rs halone (.inl rfl)).trans hfold
  · intro m c number e s h
    exact Draft.merge_error h

namespace Catalog

/-- The name of a table, and a column that breaks off behind its own name. -/
def brokenColumn : List UInt8 :=
  [0x1a, 1, 0x74, 0x12, 4, 0x12, 1, 0x61, 0x12]

/-- The table keeps its name, and no column is added. -/
theorem failing_record_leaves_no_trace_brokenColumn :
    (∃ rs s, brokenColumn = Record.concat rs ++ s ∧ ¬ EndsMessage s ∧
      (∀ (r : Record) s', s = r.bytes ++ s' → ∀ m,
        r.mergeInto standard messageOptions {} 0 m = .error (.bufferTooShort 1 0 4)) ∧
      (fill standard messageOptions [[.bool true], [], [], []]
        (.start {} (Record.concat rs))).result =
          .ok [[.bool true], [], [.string "t"], []]) ∧
    ∃ s, Draft.merge standard messageOptions 2
        ⟨[[.bool true], [], [], []], .start {} (brokenColumn.drop 4)⟩ =
          .error (.bufferTooShort 1 0 4) s ∧
      s.message = [[.bool true], [], [], []] := by
  have hlaw := Schema.failing_record_leaves_no_trace standard messageOptions
    [[.bool true], [], [], []] {} brokenColumn
  have houtcome : (fill standard messageOptions [[.bool true], [], [], []]
      (.start {} brokenColumn)).outcome = .error (.bufferTooShort 1 0 4) := by cbv
  have hmessage : (fill standard messageOptions [[.bool true], [], [], []]
      (.start {} brokenColumn)).message = [[.bool true], [], [.string "t"], []] := by cbv
  have hmerge : Draft.merge standard messageOptions 2
      ⟨[[.bool true], [], [], []], .start {} (brokenColumn.drop 4)⟩ =
        .error (.bufferTooShort 1 0 4)
          ⟨[[.bool true], [], [], []], { rest := [], position := 5 }⟩ := by cbv
  rw [← hmessage]
  exact ⟨hlaw.1 _ houtcome, _, hmerge, hlaw.2 _ _ _ _ _ hmerge⟩

end Catalog

end SchemaCodec
