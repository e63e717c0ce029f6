import Mathlib
import SchemaCodec.Proofs.Annotation.Restriction
import SchemaCodec.Proofs.Wire.RoundTrip

/-!
# Proofs.Annotation.Embedding — options among other records

- `Record.option?`: the payload of a record that carries an option.
- `ElementOption.meet`: the last option so far, after one more record.

An extraction meets the records of an options message one after the other (`extractFrom_records`):
it reads each option by itself and passes everything else. So an option that was appended is found
(`ElementOption.extract_embed`), whatever sound records stand in front of it and behind it, as long
as no other option follows.
-/

namespace SchemaCodec

/-! ## Records that carry options -/

/-- The bytes of a value that is counted. -/
def WireValue.payload? : {w : WireType} → WireValue w → Option (List UInt8)
  | _, .flat (.lengthDelimited _ payload _) => some payload
  | _, _ => none

/-- The payload of a record that carries an option: a counted one of the extension field. Other
records of that field carry none. -/
def Record.option? (r : Record) : Option (List UInt8) :=
  if r.number = extensionNumber then r.value.payload? else none

namespace WireValue

variable {w : WireType} {v : WireValue w} {payload : List UInt8}

/-- A value with a payload is counted, and read as that payload. -/
theorem bytes_of_payload? (h : v.payload? = some payload) {c : Cursor} {s : List UInt8}
    (hrest : c.rest = v.bytes ++ s) :
    w = .lengthDelimited ∧ Scan.bytes c = .ok payload (c.moveTo s) := by
  cases v with
  | flat v =>
    cases v with
    | lengthDelimited count inner hlen =>
      cases h
      exact ⟨rfl, Scan.reads_bytes hlen c s hrest⟩
    | _ => cases h
  | group body => cases h

theorem wire_ne_of_payload? (h : v.payload? = none) : w ≠ .lengthDelimited := by
  rintro rfl
  cases v with
  | flat v =>
    cases v with
    | lengthDelimited count inner hlen => cases h

end WireValue

namespace Record

variable {r : Record}

theorem payload?_of_option? {payload : List UInt8} (h : r.option? = some payload) :
    r.number = extensionNumber ∧ r.value.payload? = some payload := by
  unfold option? at h
  split at h
  next hnumber => exact ⟨hnumber, h⟩
  next => cases h

theorem not_extension_of_option? (h : r.option? = none) :
    ¬ (r.number = extensionNumber ∧ r.wire = .lengthDelimited) := by
  rintro ⟨hnumber, hwire⟩
  rw [option?, if_pos hnumber] at h
  exact WireValue.wire_ne_of_payload? h hwire

end Record

namespace ElementOption

/-! ## One record -/

/-- The last option so far, after one more record. -/
def meet (kind : ElementKind) (limits : Limits) (found : Option ElementOption) (r : Record) :
    Except Fault (Option ElementOption) :=
  match r.option? with
  | some payload => (decode kind limits payload).map some
  | none =>
    if r.nesting ≤ limits.recursion then .ok found
    else .error (.recursionLimit limits.recursion)

variable {kind : ElementKind} {found found' : Option ElementOption} {c : Cursor} {s : List UInt8}

theorem meet_of_payload {r : Record} {payload : List UInt8} (h : r.option? = some payload)
    (limits : Limits) :
    meet kind limits found r = (decode kind limits payload).map some := by
  simp only [meet, h]

theorem meet_of_none {r : Record} (h : r.option? = none) {limits : Limits}
    (hfits : r.nesting ≤ limits.recursion) : meet kind limits found r = .ok found := by
  simp only [meet, h, if_pos hfits]

theorem extractFrom_nil (h : c.rest = []) : extractFrom kind found c = .ok found := by
  rw [extractFrom_step, h]
  rfl

/-- A record that was met is passed, and the extraction goes on with the last option so far. -/
theorem extractFrom_record (r : Record) (h : c.rest = r.bytes ++ s) (hdepth : c.depth = 0)
    (hmeet : meet kind c.limits found r = .ok found') :
    extractFrom kind found c = extractFrom kind found' (c.moveTo s) := by
  have htag := Scan.tag_record r h
  have hrest : c.rest = r.key.bytes ++ (r.value.bytes ++ s) := by simpa [Record.bytes] using h
  have hnonempty : c.rest.isEmpty = false := by
    have hpos := r.length_pos
    rw [h]
    cases hbytes : r.bytes with
    | nil => simp [hbytes] at hpos
    | cons b bytes => rfl
  have hmove : (c.moveTo (r.value.bytes ++ s)).moveTo s = c.moveTo s :=
    Cursor.moveTo_moveTo s hrest
  rw [extractFrom_step, hnonempty, htag]
  -- The loop reads the payload of a record that carries an option, and skips any other value.
  cases hoption : r.option? with
  | some payload =>
    rw [meet_of_payload hoption] at hmeet
    rcases map_eq_ok_iff.1 hmeet with ⟨x, hdecode, rfl⟩
    rcases Record.payload?_of_option? hoption with ⟨hnumber, hpayload⟩
    rcases WireValue.bytes_of_payload? hpayload
      (c := c.moveTo (r.value.bytes ++ s)) (s := s) rfl with ⟨hwire, hbytes⟩
    simp [hnumber, hwire, hbytes, hdecode, hmove]
  | none =>
    have hother := Record.not_extension_of_option? hoption
    rw [meet, hoption] at hmeet
    dsimp only at hmeet
    split at hmeet
    next hfits =>
      cases hmeet
      have hroom : r.value.nesting ≤ c.limits.room c.depth := by
        rw [hdepth]
        exact hfits
      have hskip := r.value.skip_of_le (c := c.moveTo (r.value.bytes ++ s)) (s := s) rfl hroom
      simp [hother, hskip, hmove]
    next => cases hmeet

/-! ## Many records -/

/-- Records that were all met are passed one after the other. -/
theorem extractFrom_records (rs : List Record) (h : c.rest = Record.concat rs ++ s)
    (hdepth : c.depth = 0) (hmeet : rs.foldlM (meet kind c.limits) found = .ok found') :
    extractFrom kind found c = extractFrom kind found' (c.moveTo s) := by
  -- A record moves the cursor and the last option, but neither the limits nor the depth.
  induction rs generalizing found c with
  | nil =>
    cases hmeet
    have hs : s = c.rest := h.symm
    rw [hs, Cursor.moveTo_self]
  | cons r rs ih =>
    rw [List.foldlM_cons] at hmeet
    rcases bind_eq_ok_iff.1 hmeet with ⟨next, hfirst, hrest⟩
    have hsplit : c.rest = r.bytes ++ (Record.concat rs ++ s) := by
      rw [h, Record.concat_cons, List.append_assoc]
    calc
      extractFrom kind found c
          = extractFrom kind next (c.moveTo (Record.concat rs ++ s)) :=
            extractFrom_record r hsplit hdepth hfirst
      _ = extractFrom kind found' ((c.moveTo (Record.concat rs ++ s)).moveTo s) :=
            ih (c := c.moveTo (Record.concat rs ++ s)) rfl hdepth hrest
      _ = extractFrom kind found' (c.moveTo s) := by
            rw [Cursor.moveTo_moveTo s hsplit]

/-- An options message of records that are all met carries the last option met. -/
theorem extract_concat (rs : List Record) {limits : Limits}
    (hmeet : rs.foldlM (meet kind limits) none = .ok found) :
    extract kind limits (Record.concat rs) = .ok found := by
  have hrest : (Cursor.start limits (Record.concat rs)).rest = Record.concat rs ++ [] :=
    (List.append_nil _).symm
  rw [extract, extractFrom_records rs hrest rfl hmeet]
  exact extractFrom_nil rfl

/-- Sound records are met, whatever was found before them. -/
theorem exists_foldlM_meet {limits : Limits} {rs : List Record}
    (h : ∀ r ∈ rs, r.nesting ≤ limits.recursion ∧
      ∀ payload ∈ r.option?, ∃ x, decode kind limits payload = .ok x)
    (found : Option ElementOption) :
    ∃ found', rs.foldlM (meet kind limits) found = .ok found' := by
  induction rs generalizing found with
  | nil => exact ⟨found, rfl⟩
  | cons r rs ih =>
    rcases List.forall_mem_cons.1 h with ⟨⟨hfits, hsound⟩, hrest⟩
    obtain ⟨next, hnext⟩ : ∃ next, meet kind limits found r = .ok next := by
      cases hoption : r.option? with
      | none => exact ⟨found, meet_of_none hoption hfits⟩
      | some payload =>
        rcases hsound payload hoption with ⟨x, hx⟩
        exact ⟨some x, (meet_of_payload hoption limits).trans (map_eq_ok_iff.2 ⟨x, hx, rfl⟩)⟩
    rcases ih hrest next with ⟨found', hfound⟩
    exact ⟨found', bind_eq_ok_iff.2 ⟨next, hnext, hfound⟩⟩

/-- Records that carry no option leave what was found. -/
theorem foldlM_meet_of_none {limits : Limits} {qs : List Record}
    (h : ∀ r ∈ qs, r.nesting ≤ limits.recursion ∧ r.option? = none)
    (found : Option ElementOption) : qs.foldlM (meet kind limits) found = .ok found := by
  induction qs with
  | nil => rfl
  | cons r qs ih =>
    rcases List.forall_mem_cons.1 h with ⟨⟨hfits, hnone⟩, hrest⟩
    exact bind_eq_ok_iff.2 ⟨found, meet_of_none hnone hfits, ih hrest⟩

/-! ## Options that were appended -/

theorem optionType_mem (kind : ElementKind) :
    kind.optionType ∈ Catalog.gormFile.types.map (·.type) := by
  cases kind <;> decide

variable {x : ElementOption}

/-- An option is read from its own bytes, if it is not too deep. -/
theorem decode_encode (hx : Catalog.standard.Conforms x.kind.optionType x.message)
    (hlen : x.encode.length < 2 ^ 64) {limits : Limits}
    (hdepth : x.message.depth ≤ limits.recursion) : decode x.kind limits x.encode = .ok x := by
  have hmem := List.mem_append_right (Catalog.queueFile.types.map (·.type))
    (optionType_mem x.kind)
  have htable := Catalog.standard_wellFormed x.kind.optionType hmem
  have hread := Schema.decode_encode Catalog.standard_wellFormed htable hx hlen limits
  have hnumbers := Catalog.numbers_eq_nil_of_gorm (optionType_mem x.kind) hx
  -- No option has numbers, so only its depth can be too much for the limits.
  have hpass : settle limits.fault? (Catalog.standard.places x.kind.optionType x.message)
      x.message = .ok x.message := by
    rw [(Catalog.settle_places hmem hx limits x.message).1, hnumbers]
    exact ⟨hdepth, fun p hp => absurd hp List.not_mem_nil⟩
  exact map_eq_ok_iff.2 ⟨x.message, hread.trans hpass, rfl⟩

/-- What is appended for an option is one record that carries it. -/
theorem exists_record_of_embed (hlen : x.encode.length < 2 ^ 64) :
    ∃ r : Record, (∀ options, x.embed options = options ++ r.bytes) ∧
      r.option? = some x.encode ∧ r.nesting = 0 := by
  rcases exists_numeral_recordKey (show extensionNumber < 2 ^ 29 by decide) .lengthDelimited
    with ⟨key, hkey, hnumber, hwire⟩
  rcases exists_value_counted hlen with ⟨count, hcount, hbytes⟩
  have hzero : key.low ≠ 0 := by
    intro hzero
    rw [hzero] at hnumber
    exact absurd hnumber (by decide)
  let r : Record :=
    ⟨key, .lengthDelimited, .flat (.lengthDelimited count x.encode hcount), hwire, hzero⟩
  refine ⟨r, ?_, if_pos hnumber, rfl⟩
  intro options
  have hrecord : r.bytes = recordKey extensionNumber .lengthDelimited ++ counted x.encode := by
    rw [← hkey, ← hbytes]
    rfl
  rw [embed, hrecord, List.append_assoc]

/-- An option that was appended to sound records is what they carry from then on: further records
without an option do not hide it. Without it these carry none. -/
theorem extract_embed (hx : Catalog.standard.Conforms x.kind.optionType x.message)
    (hlen : x.encode.length < 2 ^ 63) {limits : Limits}
    (hdepth : x.message.depth ≤ limits.recursion) {rs qs : List Record}
    (hrs : ∀ r ∈ rs, r.nesting ≤ limits.recursion ∧
      ∀ payload ∈ r.option?, ∃ y, decode x.kind limits payload = .ok y)
    (hqs : ∀ r ∈ qs, r.nesting ≤ limits.recursion ∧ r.option? = none) :
    Record.concat rs <+: x.embed (Record.concat rs) ∧
    extract x.kind limits (x.embed (Record.concat rs) ++ Record.concat qs) = .ok (some x) ∧
    ∀ kind, extract kind limits (Record.concat qs) = .ok none := by
  have hfits : x.encode.length < 2 ^ 64 := Nat.lt_trans hlen (by norm_num)
  rcases exists_record_of_embed hfits with ⟨r, hembed, hoption, -⟩
  refine ⟨?_, ?_, ?_⟩
  · rw [hembed]
    exact List.prefix_append _ _
  · rcases exists_foldlM_meet hrs none with ⟨earlier, hearlier⟩
    have hself : meet x.kind limits earlier r = .ok (some x) :=
      (meet_of_payload hoption limits).trans
        (map_eq_ok_iff.2 ⟨x, decode_encode hx hfits hdepth, rfl⟩)
    have hlater : qs.foldlM (meet x.kind limits) (some x) = .ok (some x) :=
      foldlM_meet_of_none hqs (some x)
    have hmeet : (rs ++ r :: qs).foldlM (meet x.kind limits) none = .ok (some x) := by
      rw [List.foldlM_append]
      exact bind_eq_ok_iff.2 ⟨earlier, hearlier, bind_eq_ok_iff.2 ⟨some x, hself, hlater⟩⟩
    have hbytes : x.embed (Record.concat rs) ++ Record.concat qs =
        Record.concat (rs ++ r :: qs) := by
      rw [hembed, Record.concat_append, Record.concat_cons, List.append_assoc]
    rw [hbytes]
    exact extract_concat _ hmeet
  · intro kind
    exact extract_concat qs (foldlM_meet_of_none hqs none)

/-- An option of a message with an empty column, and one in front of it that it supersedes. -/
def columnOption : ElementOption :=
  ⟨.message, [[.bool true], [.message [[], [], [], []]], [], []]⟩

def earlierOption : Record where
  key := ⟨[0xBA, 0xB9], 0x19, by simp [Varint.continues], rfl, by decide, by decide⟩
  wire := .lengthDelimited
  value := .flat (.lengthDelimited (.single 0x02 rfl) [0x08, 0x01] rfl)
  wire_eq := by cbv
  key_ne_zero := by cbv

/-- A record of the extension field that is a number, and so carries no option. -/
def extensionNumeral : Record where
  key := ⟨[0xB8, 0xB9], 0x19, by simp [Varint.continues], rfl, by decide, by decide⟩
  wire := .varint
  value := .flat (.varint (.single 0x05 rfl))
  wire_eq := by cbv
  key_ne_zero := by cbv

theorem extract_embed_columnOption :
    extract .message { recursion := 1 } (columnOption.embed (Record.concat [earlierOption]) ++
      Record.concat [extensionNumeral]) = .ok (some columnOption) ∧
    extract .message { recursion := 1 } (Record.concat [extensionNumeral]) = .ok none := by
  have hearlier : ∀ r ∈ [earlierOption], r.nesting ≤ 1 ∧
      ∀ payload ∈ r.option?, ∃ y, decode .message { recursion := 1 } payload = .ok y := by
    intro r hr
    rw [List.mem_singleton.1 hr]
    refine ⟨by decide, ?_⟩
    intro payload hpayload
    obtain rfl : [0x08, 0x01] = payload := Option.some.inj hpayload
    exact ⟨⟨.message, [[.bool true], [], [], []]⟩, by cbv⟩
  have hlater : ∀ r ∈ [extensionNumeral], r.nesting ≤ 1 ∧ r.option? = none := by
    intro r hr
    rw [List.mem_singleton.1 hr]
    exact ⟨by decide, rfl⟩
  have hdepth : columnOption.message.depth ≤ ({ recursion := 1 } : Limits).recursion := by decide
  have hfound := extract_embed (x := columnOption) (by decide) (by cbv) hdepth hearlier hlater
  exact ⟨hfound.2.1, hfound.2.2 .message⟩

end ElementOption
end SchemaCodec
