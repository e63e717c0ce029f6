import Mathlib
import SchemaCodec.Proofs.Schema.Entries
import SchemaCodec.Proofs.Wire.Decomposition
import SchemaCodec.Proofs.Wire.Foreign
import SchemaCodec.Proofs.Wire.RoundTrip

/-!
# Proofs.Wire.Truncation — payloads that are cut off

- `Scan.Lacks`: a step fails since bytes are lacking.
- `Scan.Needs`: a step lacks bytes where only a part of its own is left.

Every primitive step needs all bytes of the values that it reads, and a sequence of steps needs
those of all of them (`Scan.Needs.bind`). So a record that is cut off is noticed wherever the cut is
(`fill_cut`), and payloads may be cut between their records only (`Schema.decode_cut`). There an
encoded message is read up to the cut (`Schema.Conforms.decode_take`).
-/

namespace SchemaCodec

/-! ## Cuts -/

/-- What is left in front of a cut ends in the first part, or behind it in the second one. -/
theorem exists_cut_of_append {bs s xs ys : List UInt8} (h : bs ++ s = xs ++ ys) :
    (∃ zs, zs ≠ [] ∧ bs ++ zs = xs) ∨ ∃ zs, bs = xs ++ zs ∧ zs ++ s = ys := by
  rcases List.append_eq_append_iff.1 h with ⟨zs, hxs, hs⟩ | ⟨zs, hbs, hys⟩
  · rcases zs with _ | ⟨z, zs⟩
    · exact .inr ⟨[], by simpa using hxs.symm, by simpa using hs⟩
    · exact .inl ⟨z :: zs, List.cons_ne_nil z zs, hxs.symm⟩
  · exact .inr ⟨zs, hbs, hys.symm⟩

/-- Marked bytes are no number as long as there is room for another byte. -/
theorem Varint.decodeWithin_of_continues {room : Nat} {bytes : List UInt8}
    (h : ∀ b ∈ bytes, continues b = true) (hroom : bytes.length < room) :
    decodeWithin room bytes = none := by
  induction bytes generalizing room with
  | nil =>
    match room with
    | 1 => rfl
    | room + 2 => rfl
  | cons b bytes ih =>
    obtain ⟨hb, hbytes⟩ := List.forall_mem_cons.1 h
    rw [List.length_cons] at hroom
    obtain ⟨room, rfl⟩ : ∃ k, room = k + 2 := ⟨room - 2, by omega⟩
    have hrest : decodeWithin (room + 1) bytes = none := ih hbytes (by omega)
    simp [decodeWithin, hb, hrest]

/-- A fault says that more bytes were asked for than there were. -/
def Fault.TooShort (e : Fault) : Prop :=
  ∃ requested available position, e = .bufferTooShort requested available position

namespace Scan

variable {α β : Type} {c : Cursor} {s : List UInt8}

/-- A step failed since it asked for more bytes than there were. -/
def Lacks (r : EStateM.Result Fault Cursor α) : Prop :=
  ∃ e d, e.TooShort ∧ r = .error e d

/-- A step needs bytes: where only a part of them is left, it lacks some. -/
def Needs (x : Scan α) (bytes : List UInt8) : Prop :=
  ∀ (c : Cursor) (s : List UInt8), c.rest ++ s = bytes → s ≠ [] → Lacks (x c)

theorem Lacks.bind {x : Scan α} (h : Lacks (x c)) (f : α → Scan β) : Lacks ((x >>= f) c) := by
  obtain ⟨e, d, he, hx⟩ := h
  exact ⟨e, d, he, bind_of_error hx⟩

/-- Steps one after the other need the bytes of both. -/
theorem Needs.bind {x : Scan α} {f : α → Scan β} {a : α} {xs ys : List UInt8}
    (hreads : Reads x xs a) (hx : Needs x xs) (hf : Needs (f a) ys) :
    Needs (x >>= f) (xs ++ ys) := by
  intro c s h hs
  rcases exists_cut_of_append h with ⟨zs, hzs, hcut⟩ | ⟨zs, hrest, hcut⟩
  · exact (hx c zs hcut hzs).bind f
  · rw [bind_of_ok (hreads c zs hrest)]
    exact hf (c.moveTo zs) s hcut hs

/-- Whatever is done with a value, its bytes are needed. -/
theorem Needs.andThen {x : Scan α} {xs : List UInt8} (hx : Needs x xs) (f : α → Scan β) :
    Needs (x >>= f) xs :=
  fun c s h hs => (hx c s h hs).bind f

/-! ## Values -/

theorem needs_varint (n : Numeral) : Needs varint n.bytes := by
  intro c s h hs
  -- The last byte of a numeral is cut off, and all others are marked.
  have hmarked : ∃ t, c.rest ++ t = n.marked := by
    rcases exists_cut_of_append h with ⟨zs, -, hcut⟩ | ⟨zs, hrest, hcut⟩
    · exact ⟨zs, hcut⟩
    · rcases List.append_eq_singleton_iff.1 hcut with ⟨rfl, -⟩ | ⟨-, rfl⟩
      · exact ⟨[], by simpa using hrest⟩
      · exact absurd rfl hs
  obtain ⟨t, ht⟩ := hmarked
  have hcontinues : ∀ b ∈ c.rest, Varint.continues b = true := fun b hb =>
    n.marked_continues b (ht ▸ List.mem_append_left t hb)
  have hlen : c.rest.length < 10 := by
    have hmarked := n.length_le
    rw [← ht, List.length_append] at hmarked
    omega
  have hnone : Varint.decode? c.rest = none := Varint.decodeWithin_of_continues hcontinues hlen
  have hfault : Varint.fault c.rest c.position =
      .bufferTooShort (c.rest.length + 1) c.rest.length c.position :=
    if_pos ⟨hlen, List.all_eq_true.2 hcontinues⟩
  refine ⟨_, c, ⟨_, _, _, hfault⟩, ?_⟩
  unfold varint
  rw [hnone]

theorem needs_key (n : Numeral) : Needs key n.bytes :=
  (needs_varint n).andThen _

theorem needs_take {n : Nat} {payload : List UInt8} (h : payload.length = n) :
    Needs (take n) payload := by
  intro c s hcut hs
  have hlen : c.rest.length < n := by
    have hpos := List.length_pos_iff.2 hs
    rw [← h, ← hcut, List.length_append]
    omega
  exact ⟨_, c, ⟨_, _, _, rfl⟩, if_pos hlen⟩

theorem needs_bytes {count : Numeral} {payload : List UInt8} (h : payload.length = count.value) :
    Needs bytes (count.bytes ++ payload) := by
  have hcount := count.toNat_ofNat_value
  exact .bind (reads_varint count) (needs_varint count) (needs_take (h.trans hcount.symm))

theorem needs_skipFlat {w : WireType} (v : FlatValue w) : Needs (skipFlat w) v.bytes := by
  cases v with
  | varint n => exact (needs_varint n).andThen _
  | fixed64 bytes h => exact (needs_take h).andThen _
  | lengthDelimited count payload h => exact (needs_bytes h).andThen _
  | fixed32 bytes h => exact (needs_take h).andThen _

theorem lacks_skipGroups_of_key {outer : Nat} (h : Lacks (key c)) :
    Lacks (skipGroups (outer + 1) c) := by
  obtain ⟨e, d, he, hk⟩ := h
  refine ⟨e, d, he, ?_⟩
  rw [skipGroups_succ, hk]

/-- A group that is cut off lacks bytes, if everything inside it fits. -/
theorem lacks_skipGroups (b : GroupBody) {outer : Nat} (h : c.rest ++ s = b.bytes) (hs : s ≠ [])
    (hfits : b.nesting ≤ c.limits.room (c.depth + outer + 1)) :
    Lacks (skipGroups (outer + 1) c) := by
  induction b generalizing outer c s with
  | close key hkey => exact lacks_skipGroups_of_key (needs_key key c s h hs)
  | flat key hkey v rest ih =>
    rw [GroupBody.bytes, List.append_assoc] at h
    -- The cut is in the key, in the value that it announces, or behind both.
    rcases exists_cut_of_append h with ⟨zs, hzs, hcut⟩ | ⟨behindKey, hrest, hcut⟩
    · exact lacks_skipGroups_of_key (needs_key key c zs hcut hzs)
    · have hk := reads_key key c behindKey hrest
      rcases exists_cut_of_append hcut with ⟨zs, hzs, hvalue⟩ | ⟨behindValue, hbehind, hcut⟩
      · obtain ⟨e, d, he, hskip⟩ := needs_skipFlat v (c.moveTo behindKey) zs hvalue hzs
        have hend : _ ≠ WireType.endGroup := fun hw => v.raw_ne.2 (congrArg WireType.raw hw)
        exact ⟨e, d, he, skipGroups_flat_error hk hkey hend v.wire_ne_startGroup hskip⟩
      · rw [skipGroups_flat hk hkey (reads_skipFlat v (c.moveTo behindKey) behindValue hbehind)]
        exact ih hcut hs hfits
  | group key hkey inner rest ihInner ihRest =>
    rw [GroupBody.bytes, List.append_assoc] at h
    simp only [GroupBody.nesting, Limits.room] at hfits
    rcases exists_cut_of_append h with ⟨zs, hzs, hcut⟩ | ⟨behindKey, hrest, hcut⟩
    · exact lacks_skipGroups_of_key (needs_key key c zs hcut hzs)
    · have hk := reads_key key c behindKey hrest
      have hopen : (c.moveTo behindKey).mayOpen (outer + 1) = true := by
        simp only [Cursor.mayOpen_iff, Limits.room, Cursor.limits_moveTo, Cursor.depth_moveTo]
        omega
      have hinner : inner.nesting ≤ c.limits.room (c.depth + (outer + 1) + 1) := by
        simp only [Limits.room]
        omega
      have hrestFits : rest.nesting ≤ c.limits.room (c.depth + outer + 1) := by
        simp only [Limits.room]
        omega
      rw [skipGroups_group hk hkey, if_pos hopen]
      rcases exists_cut_of_append hcut with ⟨zs, hzs, hinside⟩ | ⟨behindInner, hbehind, hcut⟩
      · exact ihInner hinside hzs hinner
      · rw [skipGroups_body inner (c := c.moveTo behindKey) hbehind hinner]
        exact ihRest hcut hs hrestFits

end Scan

namespace WireValue

open Scan

variable {w : WireType} {c : Cursor} {s : List UInt8}

/-- A value that is cut off lacks bytes where it is skipped, if its groups fit. -/
theorem lacks_skip (v : WireValue w) (h : c.rest ++ s = v.bytes) (hs : s ≠ [])
    (hfits : v.nesting ≤ c.limits.room c.depth) : Lacks (skip w c) := by
  cases v with
  | flat v =>
    rw [skip_of_ne v.wire_ne_startGroup]
    exact needs_skipFlat v c s h hs
  | group body =>
    simp only [nesting, Limits.room] at hfits
    have hopen : c.mayOpen 0 = true := by
      rw [Cursor.mayOpen_iff, Limits.room]
      omega
    have hbody : body.nesting ≤ c.limits.room (c.depth + 0 + 1) := by
      simp only [Limits.room]
      omega
    have hskip : skip .startGroup c = skipGroups (0 + 1) c := if_pos hopen
    rw [hskip]
    exact lacks_skipGroups body h hs hbody

/-- A value that is cut off lacks bytes where it is read as a field, if the whole of it would be
read. -/
theorem lacks_frame {kind : Kind} (v : WireValue w) (hw : kind.wireType = w)
    (h : c.rest ++ s = v.bytes) (hs : s ≠ []) {x : Frame}
    (hv : v.frame c.limits c.depth c.path kind hw = .ok x) : Lacks (Scan.frame kind c) := by
  -- Bytes are looked at when all of them are there, so it does not matter here what they are.
  match kind, w, v, hw with
  | .string, _, .flat (.lengthDelimited count payload hlen), _ =>
    exact (((needs_bytes hlen).andThen _).andThen _) c s h hs
  | .bool, _, .flat (.varint n), _ => exact (((needs_varint n).andThen _).andThen _) c s h hs
  | .int32, _, .flat (.varint n), _ => exact (((needs_varint n).andThen _).andThen _) c s h hs
  | .uint64, _, .flat (.varint n), _ => exact (((needs_varint n).andThen _).andThen _) c s h hs
  | .enum _, _, .flat (.varint n), _ => exact (((needs_varint n).andThen _).andThen _) c s h hs
  | .message name, _, .flat (.lengthDelimited count payload hlen), _ =>
    simp only [frame] at hv
    split at hv
    next hopen =>
      have hmay : c.mayOpen 0 = true := by simpa [Cursor.mayOpen] using hopen
      have hframe : Scan.frame (.message name) c =
          (do return .submessage name (← Scan.bytes) : Scan Frame) c := if_pos hmay
      rw [hframe]
      exact ((needs_bytes hlen).andThen _) c s h hs
    next => cases hv

end WireValue

/-! ## Records -/

theorem Scan.lacks_tag {c : Cursor} (h : Lacks (key c)) : Lacks (tag c) := by
  obtain ⟨e, d, he, hk⟩ := h
  refine ⟨e, d, he, ?_⟩
  unfold tag
  rw [hk]

section Runs

variable {σ : Schema} {t : MessageType} {m m' : Message} {c : Cursor} {s : List UInt8}

/-- A record that is cut off is noticed, wherever the cut is behind its first byte. -/
theorem fill_cut (r : Record) (hcut : c.rest ++ s = r.bytes) (hrest : c.rest ≠ []) (hs : s ≠ [])
    (hm : r.mergeInto σ t c.limits c.depth m = .ok m') :
    ∃ e : Fault, e.TooShort ∧ (fill σ t m c).outcome = .error e := by
  rcases exists_cut_of_append hcut with ⟨zs, hzs, hkey⟩ | ⟨behindKey, hbehind, hvalue⟩
  · obtain ⟨e, d, he, htag⟩ := Scan.lacks_tag (Scan.needs_key r.key c zs hkey hzs)
    rw [fill_tag_error (by simpa using hrest) htag]
    exact ⟨e, he, rfl⟩
  · have htag := Scan.tag_recordKey r hbehind
    by_cases hforeign : t.Foreign r.number r.wire
    · rw [Record.mergeInto_of_foreign hforeign] at hm
      split at hm
      next hfits =>
        obtain ⟨e, d, he, hskip⟩ := r.value.lacks_skip
          (c := (c.moveTo behindKey).note (t.foreignEvent r.number r.wire)) hvalue hs hfits
        rw [fill_skip_error htag hforeign hskip]
        exact ⟨e, he, rfl⟩
      next => cases hm
    · obtain ⟨f, hfield, hwire⟩ := MessageType.exists_field_of_not_foreign hforeign
      rw [Record.mergeInto_of_field hfield hwire, map_eq_ok_iff] at hm
      obtain ⟨x, hx, -⟩ := hm
      cases hframe : r.value.frame c.limits c.depth ⟨t.name, f.jsonName⟩ f.kind hwire with
      | error e =>
        rw [WireValue.read_of_error hframe] at hx
        cases hx
      | ok frame =>
        obtain ⟨e, d, he, hscan⟩ := r.value.lacks_frame hwire
          (c := { c.moveTo behindKey with path := ⟨t.name, f.jsonName⟩ }) hvalue hs hframe
        rw [fill_frame_error htag hfield hwire hscan]
        exact ⟨e, he, rfl⟩

end Runs

/-! ## Payloads -/

/-- A cut in records is inside one of them or in front of it. -/
theorem Record.exists_cut {rs : List Record} {k : Nat} (hk : k < (concat rs).length) :
    ∃ pre r post xs ys, rs = pre ++ r :: post ∧ xs ++ ys = r.bytes ∧ ys ≠ [] ∧
      (concat rs).take k = concat pre ++ xs := by
  induction rs generalizing k with
  | nil => cases hk
  | cons r rs ih =>
    rw [concat_cons, List.length_append] at hk
    -- The cut is in the first record, or that many bytes further on in the others.
    rcases Nat.lt_or_ge k r.bytes.length with hinside | hbehind
    · refine ⟨[], r, rs, r.bytes.take k, r.bytes.drop k, rfl, List.take_append_drop k _, ?_, ?_⟩
      · rw [Ne, List.drop_eq_nil_iff]
        omega
      · rw [concat_cons, List.take_append_of_le_length hinside.le, concat_nil, List.nil_append]
    · obtain ⟨pre, q, post, xs, ys, rfl, hq, hys, htake⟩ :=
        ih (k := k - r.bytes.length) (by omega)
      refine ⟨r :: pre, q, post, xs, ys, rfl, hq, hys, ?_⟩
      rw [concat_cons, List.take_append, List.take_of_length_le hbehind, htake, concat_cons,
        List.append_assoc]

namespace Schema

variable {σ : Schema} {t : MessageType} {limits : Limits} {rs : List Record} {m : Message}

/-- Records in front of a cut between records are read. -/
theorem exists_decode_take (h : σ.decode t limits (Record.concat rs) = .ok m) (i : Nat) :
    ∃ m', σ.decode t limits (Record.concat (rs.take i)) = .ok m' := by
  rw [decode_eq_decodeAt, decodeAt_concat] at h ⊢
  rw [← List.take_append_drop i rs, List.foldlM_append, bind_eq_ok_iff] at h
  obtain ⟨m', hm', -⟩ := h
  exact ⟨m', hm'⟩

/-- A payload that is read may be cut between its records only. -/
theorem decode_cut (h : σ.decode t limits (Record.concat rs) = .ok m) {k : Nat}
    (hk : k < (Record.concat rs).length)
    (hbetween : ∀ i, k ≠ (Record.concat (rs.take i)).length) :
    ∃ e : Fault, e.TooShort ∧ σ.decode t limits ((Record.concat rs).take k) = .error e := by
  obtain ⟨pre, r, post, xs, ys, rfl, hr, hys, htake⟩ := Record.exists_cut hk
  have hlen := congrArg List.length htake
  rw [List.length_take_of_le hk.le] at hlen
  -- A cut in front of the record would be one between records.
  have hxs : xs ≠ [] := by
    rintro rfl
    refine hbetween pre.length ?_
    rw [hlen, List.take_left, List.append_nil]
  rw [decode_eq_decodeAt, decodeAt_concat, List.foldlM_append, bind_eq_ok_iff] at h
  obtain ⟨m₁, hpre, hrest⟩ := h
  rw [List.foldlM_cons, bind_eq_ok_iff] at hrest
  obtain ⟨m₂, hmerge, -⟩ := hrest
  obtain ⟨e, he, houtcome⟩ := fill_cut (σ := σ) (t := t) r
    (c := (Cursor.start limits (Record.concat pre ++ xs)).moveTo xs) hr hxs hys hmerge
  refine ⟨e, he, ?_⟩
  rw [htake, decode_concat, hpre]
  exact Run.result_eq_error_iff.2 houtcome

end Schema

/-! ## Messages -/

section Messages

variable {σ : Schema} {t : MessageType} {m : Message} {rs : List Record}

/-- Every value of a message has one record. -/
theorem exists_records_of_entries (ht : t.WellFormed)
    (hvalues : ∀ q ∈ t.fields.zip m, ∀ e ∈ q.2, e.Returns σ q.1.kind) :
    ∃ rs : List Record, rs.map Record.bytes = (fieldEntries t.fields m).map σ.entryBytes := by
  have hrange : (fieldEntries t.fields m).map σ.entryBytes ∈
      Set.range (List.map Record.bytes) := by
    rw [Set.range_list_map]
    intro bytes hbytes
    obtain ⟨p, hp, rfl⟩ := List.mem_map.1 hbytes
    obtain ⟨q, hq, hfield, he⟩ := mem_fieldEntries_iff.1 hp
    have hreturns := hvalues q hq p.2 he
    obtain ⟨pre, post, hfields⟩ := List.append_of_mem (List.of_mem_zip hq).1
    rw [hfield] at hreturns hfields
    obtain ⟨r, hr, -⟩ := exists_record_of_returns ht hfields hreturns
    exact ⟨r, hr⟩
  exact hrange

/-- The records of a message are its bytes. -/
theorem concat_eq_encode (hrs : rs.map Record.bytes = (fieldEntries t.fields m).map σ.entryBytes) :
    Record.concat rs = σ.encode t m := by
  rw [Schema.encode, fieldRecords_eq_flatMap, Record.concat, List.flatMap_def, List.flatMap_def,
    hrs]

/-- The first records of a message are those of the values that are kept. -/
theorem concat_take_eq_encode
    (hrs : rs.map Record.bytes = (fieldEntries t.fields m).map σ.entryBytes) (i : Nat) :
    Record.concat (rs.take i) = σ.encode t (m.keep i) := by
  refine concat_eq_encode ?_
  rw [fieldEntries_keep, List.map_take, hrs, List.map_take]

/-- Between its records, a message is read up to the cut. -/
theorem Schema.Conforms.decode_take (hσ : σ.WellFormed) (ht : t.WellFormed)
    (h : σ.Conforms t m) (hlen : (σ.encode t m).length < 2 ^ 64) {limits : Limits}
    (hread : σ.decode t limits (σ.encode t m) = .ok m)
    (hrs : rs.map Record.bytes = (fieldEntries t.fields m).map σ.entryBytes) (i : Nat) :
    σ.decode t limits (Record.concat (rs.take i)) = .ok (m.keep i) := by
  rw [← concat_eq_encode hrs] at hread hlen
  obtain ⟨m', hm'⟩ := exists_decode_take hread i
  have hshort : (σ.encode t (m.keep i)).length < 2 ^ 64 := by
    rw [← List.take_append_drop i rs, Record.concat_append, List.length_append] at hlen
    rw [← concat_take_eq_encode hrs]
    omega
  -- What is read is the message that was written, whichever message that is.
  have hkept := decode_encode hσ ht (h.keep i) hshort limits
  rw [← concat_take_eq_encode hrs, hm'] at hkept
  obtain ⟨-, rfl⟩ := SchemaCodec.settle_eq_ok_iff.1 hkept.symm
  exact hm'

end Messages

/-! ## The catalogue -/

namespace Catalog

/-- Truncation is never silent inside a record. The bytes of a message of the catalogue that can be
read are records in one way only. Cut between two of them, they are read as the values in front of
the cut, with everything behind at its default; cut anywhere else, they are refused for the bytes
that are lacking. -/
theorem truncation_is_noticed {t : MessageType} (ht : t ∈ types) {m : Message}
    (h : standard.Conforms t m) (hlen : (standard.encode t m).length < 2 ^ 63) (limits : Limits)
    (hdepth : m.depth ≤ limits.recursion)
    (hnumbers : ∀ p ∈ standard.numbers t m, limits.range.accepts p.2 = true) :
    ∃ rs : List Record,
      (∀ qs, Record.concat qs = standard.encode t m ↔ qs = rs) ∧
      (∀ i, standard.decode t limits
        ((standard.encode t m).take (Record.concat (rs.take i)).length) = .ok (m.keep i)) ∧
      ∀ k < (standard.encode t m).length, (∀ i, k ≠ (Record.concat (rs.take i)).length) →
        ∃ requested available position,
          standard.decode t limits ((standard.encode t m).take k) =
            .error (.bufferTooShort requested available position) := by
  have hfits : (standard.encode t m).length < 2 ^ 64 := Nat.lt_trans hlen (by norm_num)
  have hread := decode_encode_of_within ht h hfits hdepth hnumbers
  obtain ⟨rs, hrs⟩ := exists_records_of_entries (standard_wellFormed t ht)
    (h.returns standard_wellFormed hfits)
  have hbytes := concat_eq_encode hrs
  refine ⟨rs, fun qs => ?_, fun i => ?_, fun k hk hbetween => ?_⟩
  · rw [← hbytes]
    exact Record.concat_injective.eq_iff
  · have htake : (standard.encode t m).take (Record.concat (rs.take i)).length =
        Record.concat (rs.take i) := by
      have hsplit := Record.concat_append (rs.take i) (rs.drop i)
      rw [List.take_append_drop] at hsplit
      rw [← hbytes, hsplit, List.take_left]
    rw [htake]
    exact h.decode_take standard_wellFormed (standard_wellFormed t ht) hfits hread hrs i
  · rw [← hbytes] at hread hk ⊢
    obtain ⟨e, ⟨requested, available, position, rfl⟩, hcut⟩ :=
      Schema.decode_cut hread hk hbetween
    exact ⟨requested, available, position, hcut⟩

/-- Options with two columns are read without the second one if they are cut in front of it, and
refused if they are cut behind the key of its name. -/
theorem truncation_is_noticed_in_columns :
    standard.decode messageOptions {} [0x08, 0x01, 0x12, 0x00] =
      .ok [[.bool true], [.message [[], [], [], []]], [], []] ∧
    ∃ requested available position,
      standard.decode messageOptions {} [0x08, 0x01, 0x12, 0x00, 0x12, 0x04, 0x12] =
        .error (.bufferTooShort requested available position) := by
  have hencode : standard.encode messageOptions columnOptions =
      [0x08, 0x01, 0x12, 0x00, 0x12, 0x04, 0x12, 0x02, 0x69, 0x64] := by cbv
  obtain ⟨rs, hunique, hbetween, hinside⟩ := truncation_is_noticed (t := messageOptions)
    (by decide) (m := columnOptions) (by decide) (by cbv) {} (by decide) (by decide)
  rw [hencode] at hunique hbetween hinside
  -- A flag, a column without anything set, and a column whose name is two characters.
  have hflag : (Numeral.single 0x08 rfl).Announces messageOptions
      ⟨1, "ormable", "ormable", .bool, false⟩ := ⟨by decide, by decide, by decide⟩
  have hcolumn : (Numeral.single 0x12 rfl).Announces messageOptions
      ⟨2, "include", "include", .message "gorm.ExtraField", true⟩ :=
    ⟨by decide, by decide, by decide⟩
  obtain rfl := (hunique [hflag.record rfl (.flat (.varint (.single 0x01 rfl))),
    hcolumn.record rfl (.flat (.lengthDelimited (.single 0x00 rfl) [] rfl)),
    hcolumn.record rfl
      (.flat (.lengthDelimited (.single 0x04 rfl) [0x12, 0x02, 0x69, 0x64] rfl))]).1 rfl
  refine ⟨hbetween 2, hinside 7 (by decide) fun i => ?_⟩
  -- The records end behind 0, 2, 4 and 10 bytes.
  rcases i with _ | _ | _ | i
  · show 7 ≠ 0
    decide
  · show 7 ≠ 2
    decide
  · show 7 ≠ 4
    decide
  · rw [List.take_of_length_le (by simp)]
    show 7 ≠ 10
    decide

end Catalog
end SchemaCodec
