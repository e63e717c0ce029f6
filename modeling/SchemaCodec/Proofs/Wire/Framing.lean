import Mathlib
import SchemaCodec.Proofs.Catalog.Kinds
import SchemaCodec.Proofs.Wire.Blame
import SchemaCodec.Proofs.Wire.Grammar

/-!
# Proofs.Wire.Framing — the same end for every schema

- `Run.EndsLike`: runs that stop at the same place in the same way.

A value is cut out of its payload by one function for each kind, and skipped by another for each
wire type. Both end at the same place (`Scan.skip_of_frame`), and where skipping fails so does
reading (`Scan.frame_of_skip_error`). So where a message ends does not depend on the type that it is
read as: a payload that is read as any type is passed by the type without fields, which skips
everything (`fill_unread`).
-/

namespace SchemaCodec

/-! ## Values -/

/-- No field is written as a group. -/
theorem WireValue.nesting_of_kind {kind : Kind} {w : WireType} (hw : kind.wireType = w)
    (v : WireValue w) : v.nesting = 0 := by
  cases v with
  | flat v => rfl
  | group body => cases kind <;> cases hw

namespace Scan

variable {kind : Kind} {c d : Cursor} {e : Fault}

/-- A value that is cut out for a field is skipped at the same cost. -/
theorem skip_of_frame {x : Frame} (h : frame kind c = .ok x d) :
    skip kind.wireType c = .ok () d := by
  obtain ⟨v, hv⟩ := exists_value_of_frame h
  obtain ⟨-, -, hmove⟩ := passes_frame kind c x d h
  have hflat : v.nesting ≤ c.limits.room c.depth := by
    rw [v.nesting_of_kind rfl]
    exact Nat.zero_le _
  have hskip := v.skip_of_le hv hflat
  rwa [← hmove] at hskip

theorem varint_of_skip_error (h : skip .varint c = .error e d) : varint c = .error e d := by
  rcases bind_eq_error h with hvarint | ⟨_, _, _, hpure⟩
  · exact hvarint
  · cases hpure

theorem bytes_of_skip_error (h : skip .lengthDelimited c = .error e d) :
    bytes c = .error e d := by
  rcases bind_eq_error h with hbytes | ⟨_, _, _, hpure⟩
  · exact hbytes
  · cases hpure

/-- Where a value cannot be skipped it cannot be cut out for a field. Only a submessage that may
not open says so first. -/
theorem frame_of_skip_error (h : skip kind.wireType c = .error e d) :
    ∃ e' d', frame kind c = .error e' d' ∧ (e' = e ∨ e' = .recursionLimit c.limits.recursion) := by
  cases kind with
  | string => exact ⟨e, d, bind_of_error (bind_of_error (bytes_of_skip_error h)), .inl rfl⟩
  | bool => exact ⟨e, d, bind_of_error (bind_of_error (varint_of_skip_error h)), .inl rfl⟩
  | int32 => exact ⟨e, d, bind_of_error (bind_of_error (varint_of_skip_error h)), .inl rfl⟩
  | uint64 => exact ⟨e, d, bind_of_error (bind_of_error (varint_of_skip_error h)), .inl rfl⟩
  | «enum» type => exact ⟨e, d, bind_of_error (bind_of_error (varint_of_skip_error h)), .inl rfl⟩
  | message name =>
    by_cases hopen : c.mayOpen 0 = true
    · exact ⟨e, d, (if_pos hopen).trans (bind_of_error (bytes_of_skip_error h)), .inl rfl⟩
    · exact ⟨_, c, if_neg hopen, .inr rfl⟩

end Scan

/-! ## Fields -/

namespace Scan

variable {σ : Schema} {t : MessageType} {m m' : Message} {number : Nat} {f : Field}
  {c d : Cursor} {e : Fault}

theorem merge_of_field (hfield : t.field? number = some f) :
    merge σ t m number = (do
      let e ← element σ f.kind
      return t.put m number e) := by
  rw [merge, hfield]

/-- The value of a field was cut out before it was read, and nothing behind it was read. -/
theorem frame_of_element {kind : Kind} {x : Element} (h : element σ kind c = .ok x d) :
    ∃ frame d', Scan.frame kind c = .ok frame d' ∧ d'.rest = d.rest ∧
      d'.position = d.position := by
  unfold element at h
  split at h
  next => cases h
  next y d' hframe =>
    cases h
    exact ⟨.scalar x, d, hframe, rfl, rfl⟩
  next name payload d' hframe =>
    dsimp only at h
    split at h
    next => cases h
    next =>
      cases h
      exact ⟨.submessage name payload, d', hframe, rfl, rfl⟩

/-- A value that is read into a message is skipped up to the same place. -/
theorem skip_of_merge (hfield : t.field? number = some f)
    (h : merge σ t m number c = .ok m' d) :
    ∃ d', skip f.wireType c = .ok () d' ∧ d'.rest = d.rest ∧ d'.position = d.position := by
  rw [merge_of_field hfield] at h
  obtain ⟨x, d₁, helement, hpure⟩ := bind_eq_ok.1 h
  cases hpure
  obtain ⟨frame, d', hframe, hrest, hposition⟩ := frame_of_element helement
  exact ⟨d', skip_of_frame hframe, hrest, hposition⟩

/-- A value that cannot be skipped is not read into a message, for the same reason or because no
submessage may open. -/
theorem merge_of_skip_error (hfield : t.field? number = some f)
    (h : skip f.wireType c = .error e d) :
    ∃ e' d', merge σ t m number c = .error e' d' ∧
      (e' = e ∨ e' = .recursionLimit c.limits.recursion) := by
  obtain ⟨e', d', hframe, he⟩ := frame_of_skip_error h
  have helement : element σ f.kind c = .error e' d' := by rw [element, hframe]
  rw [merge_of_field hfield]
  exact ⟨e', d', bind_of_error helement, he⟩

end Scan

/-! ## Runs -/

/-- Two runs stop at the same place in the same way, whatever messages they leave. -/
structure Run.EndsLike (r r' : Run) : Prop where
  outcome : r.outcome = r'.outcome
  rest : r.cursor.rest = r'.cursor.rest
  position : r.cursor.position = r'.cursor.position

theorem Run.Agrees.endsLike {r r' : Run} (h : r.Agrees r') : r.EndsLike r' :=
  ⟨h.outcome, h.rest, h.position⟩

theorem Run.EndsLike.symm {r r' : Run} (h : r.EndsLike r') : r'.EndsLike r :=
  ⟨h.outcome.symm, h.rest.symm, h.position.symm⟩

theorem Run.EndsLike.trans {r r' r'' : Run} (h : r.EndsLike r') (h' : r'.EndsLike r'') :
    r.EndsLike r'' :=
  ⟨h.outcome.trans h'.outcome, h.rest.trans h'.rest, h.position.trans h'.position⟩

variable {σ : Schema} {t u : MessageType} {m m' : Message} {c : Cursor}

/-- Where a message ends, it ends for every type. -/
theorem fill_endsLike (h : EndsMessage c.rest) :
    (fill σ t m c).EndsLike (fill σ u m' c) := by
  rcases h with hnil | ⟨marker, rest, hmarker, hrest⟩
  · rw [fill_nil hnil, fill_nil hnil]
    exact ⟨rfl, rfl, rfl⟩
  · have htag := Scan.tag_endMarker hmarker hrest
    rw [fill_stop htag, fill_stop htag]
    exact ⟨rfl, rfl, rfl⟩

/-- The groups of a record that merges into some type fit. -/
theorem Record.Merges.nesting_le {r : Record} {limits : Limits} {depth : Nat}
    (h : r.Merges σ t limits depth) : r.nesting ≤ limits.room depth := by
  by_cases hforeign : t.Foreign r.number r.wire
  · exact (merges_of_foreign hforeign).1 h
  · obtain ⟨f, -, hwire⟩ := MessageType.exists_field_of_not_foreign hforeign
    have hflat : r.nesting = 0 := r.value.nesting_of_kind hwire
    rw [hflat]
    exact Nat.zero_le _

/-- Records that are not a type's own leave a message as it was, if their groups fit. -/
theorem Record.foldlM_of_foreign {limits : Limits} {depth : Nat} {rs : List Record}
    (hforeign : ∀ r ∈ rs, u.Foreign r.number r.wire)
    (hfits : ∀ r ∈ rs, r.nesting ≤ limits.room depth) (m : Message) :
    rs.foldlM (Record.mergeInto σ u limits depth) m = .ok m := by
  induction rs with
  | nil => rfl
  | cons r rs ih =>
    obtain ⟨hr, hrs⟩ := List.forall_mem_cons.1 hforeign
    obtain ⟨hfit, hfits⟩ := List.forall_mem_cons.1 hfits
    have hmerge : r.mergeInto σ u limits depth m = .ok m := by
      rw [mergeInto_of_foreign hr, if_pos hfit]
    exact bind_eq_ok_iff.2 ⟨m, hmerge, ih hrs hfits⟩

/-- What is read as some type is skipped as a whole by a type that every record is foreign to. -/
theorem fill_unread (hu : ∀ number w, u.Foreign number w)
    (h : (fill σ t m c).outcome = .ok ()) (m' : Message) :
    (fill σ u m' c).result = .ok m' ∧ (fill σ u m' c).EndsLike (fill σ t m c) := by
  obtain ⟨rs, s, hrest, hends, hfold⟩ := fill_result_eq_ok_iff.1 (Run.result_eq_ok_iff.2 ⟨h, rfl⟩)
  have hmerges := Record.exists_foldlM_iff.1 ⟨_, hfold⟩
  have hfold' : rs.foldlM (Record.mergeInto σ u c.limits c.depth) m' = .ok m' :=
    Record.foldlM_of_foreign (fun r _ => hu r.number r.wire)
      (fun r hr => (hmerges r hr).nesting_le) m'
  have hends' : EndsMessage (c.moveTo s).rest := hends
  refine ⟨fill_result_eq_ok_iff.2 ⟨rs, s, hrest, hends, hfold'⟩, ?_⟩
  -- Behind the records both runs stand at the same end.
  exact (fill_records rs hrest hfold').endsLike.trans
    ((fill_endsLike hends').trans (fill_records rs hrest hfold).endsLike.symm)

/-! ## The catalogue -/

namespace Catalog

theorem field?_of_mem {t : MessageType} (ht : t ∈ types) {f : Field} (hf : f ∈ t.fields) :
    t.field? f.number = some f := by
  obtain ⟨pre, post, hfields⟩ := List.append_of_mem hf
  exact (standard_wellFormed t ht).field?_number hfields

theorem fileOptions_foreign (number : Nat) (w : WireType) : fileOptions.Foreign number w :=
  MessageType.foreign_of_none w rfl

/-- Reading and skipping agree on where values and messages end. For every field of the catalogue
and wherever a reader stands, a value that is read is skipped up to the same place, and one that
cannot be skipped is not read, for the same reason or for the depth of the submessage that it would
be. A payload that is read as some type is also read as the options of a file, which have no
fields, and both readers stop at the same place. -/
theorem framing_ignores_types :
    (∀ t ∈ types, ∀ f ∈ t.fields, ∀ (m : Message) (c : Cursor),
      (∀ m' d, Scan.merge standard t m f.number c = .ok m' d →
        ∃ d', Scan.skip f.wireType c = .ok () d' ∧ d'.rest = d.rest ∧ d'.position = d.position) ∧
      ∀ e d, Scan.skip f.wireType c = .error e d →
        ∃ e' d', Scan.merge standard t m f.number c = .error e' d' ∧
          (e' = e ∨ e' = .recursionLimit c.limits.recursion)) ∧
    ∀ t ∈ types, ∀ (limits : Limits) (b : List UInt8) (m : Message),
      standard.decode t limits b = .ok m →
        standard.decode fileOptions limits b = .ok fileOptions.empty ∧
        (standard.run fileOptions limits b).cursor.rest = (standard.run t limits b).cursor.rest ∧
        (standard.run fileOptions limits b).cursor.position =
          (standard.run t limits b).cursor.position := by
  constructor
  · intro t ht f hf m c
    have hfield := field?_of_mem ht hf
    exact ⟨fun m' d h => Scan.skip_of_merge hfield h,
      fun e d h => Scan.merge_of_skip_error hfield h⟩
  · intro t ht limits b m h
    have hrun : (standard.run t limits b).outcome = .ok () := (Run.result_eq_ok_iff.1 h).1
    obtain ⟨hresult, hlike⟩ := fill_unread fileOptions_foreign hrun fileOptions.empty
    exact ⟨hresult, hlike.rest, hlike.position⟩

/-- A column with a marker inside, a number of a field that tables lack, and the end of a table. -/
def markedColumns : List UInt8 :=
  [0x12, 3, 0x04, 0xff, 0xff, 0x28, 0xac, 0x02, 0x00, 0xff]

/-- A column that ends early is passed as a whole, and one without a length is not. As the options
of a file the same bytes end at the same zero key. -/
theorem framing_ignores_types_markedColumns :
    (∃ d', Scan.skip .lengthDelimited (.start {} (markedColumns.drop 1)) = .ok () d' ∧
      d'.rest = markedColumns.drop 5 ∧ d'.position = 4) ∧
    (∃ e' d', Scan.merge standard messageOptions messageOptions.empty 2 (.start {} []) =
        .error e' d' ∧ (e' = .bufferTooShort 1 0 0 ∨ e' = .recursionLimit 100)) ∧
    standard.decode messageOptions {} markedColumns =
      .ok [[], [.message [[], [], [], []]], [], []] ∧
    standard.decode fileOptions {} markedColumns = .ok [] ∧
    (standard.run fileOptions {} markedColumns).cursor.position = 9 := by
  obtain ⟨hfields, hruns⟩ := framing_ignores_types
  have hcolumn := hfields messageOptions (by decide)
    ⟨2, "include", "include", .message "gorm.ExtraField", true⟩ (by decide) messageOptions.empty
  have hmerge : Scan.merge standard messageOptions messageOptions.empty 2
      (.start {} (markedColumns.drop 1)) = .ok [[], [.message [[], [], [], []]], [], []]
        { Cursor.start {} (markedColumns.drop 5) with
          position := 4, log := [.endMarker "gorm.ExtraField" 0] } := by cbv
  have hskip : Scan.skip .lengthDelimited (.start {} []) =
      .error (.bufferTooShort 1 0 0) (.start {} []) := rfl
  have hdecode : standard.decode messageOptions {} markedColumns =
      .ok [[], [.message [[], [], [], []]], [], []] := by cbv
  have hposition : (standard.run messageOptions {} markedColumns).cursor.position = 9 := by cbv
  obtain ⟨hfile, -, hend⟩ := hruns messageOptions (by decide) {} markedColumns _ hdecode
  exact ⟨(hcolumn _).1 _ _ hmerge, (hcolumn _).2 _ _ hskip, hdecode, hfile, hend.trans hposition⟩

end Catalog
end SchemaCodec
