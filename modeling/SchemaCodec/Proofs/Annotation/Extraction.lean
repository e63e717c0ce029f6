import Mathlib
import SchemaCodec.Proofs.Annotation.Embedding
import SchemaCodec.Proofs.Wire.Decomposition
import SchemaCodec.Proofs.Wire.Framing

/-!
# Proofs.Annotation.Extraction — options and the records around them

- `Record.Passed`: the records that a reader without fields passes, up to the place where it stops.
- `Record.options`: the payloads of the options among records.
- `ElementOption.FirstRefused`: the first of these payloads that is no option.

An extraction has a loop of its own over the keys of an options message. It stops where a reader of
the options of a file stops, who skips every record, and for the same reason
(`ElementOption.extractFrom_stuck`). In front of that place it reads the payloads of the options one
by one. So an extraction is what is made of these payloads, and then what is made of the bytes
around them (`ElementOption.extract_eq`).
-/

namespace SchemaCodec

/-! ## Records that are passed -/

/-- A reader that skips records under limits passes `rs` and stops in front of `s`: the groups of
`rs` fit, and no further record is passed. -/
structure Record.Passed (limits : Limits) (b : List UInt8) (rs : List Record) (s : List UInt8) :
    Prop where
  bytes : b = Record.concat rs ++ s
  fits : ∀ r ∈ rs, r.nesting ≤ limits.recursion
  stuck : ∀ (r : Record) s', s = r.bytes ++ s' → limits.recursion < r.nesting

namespace Record

/-- The payloads of the options among records, in their order. -/
def options (rs : List Record) : List (List UInt8) :=
  rs.filterMap option?

/-- Where a message ends no further record stands. -/
theorem ne_of_endsMessage {s s' : List UInt8} (h : EndsMessage s) (r : Record) :
    s ≠ r.bytes ++ s' := by
  rcases h with rfl | ⟨marker, rest, hmarker, rfl⟩
  · intro hnil
    have hpos := r.length_pos
    have hlength := congrArg List.length hnil
    simp only [List.length_nil, List.length_append] at hlength
    omega
  · intro hrecord
    rw [bytes, List.append_assoc] at hrecord
    obtain rfl : marker = r.key := (Numeral.prefixFree hrecord).1
    exact r.not_isEndMarker hmarker

/-- Records up to the end of a message are all passed, if their groups fit. -/
theorem passed_of_endsMessage {limits : Limits} {rs : List Record} {s : List UInt8}
    (hfits : ∀ r ∈ rs, r.nesting ≤ limits.recursion) (hs : EndsMessage s) :
    Passed limits (concat rs ++ s) rs s :=
  ⟨rfl, hfits, fun r _ hrecord => absurd hrecord (ne_of_endsMessage hs r)⟩

/-- Every payload has records that are passed, and a place behind them. -/
theorem exists_passed (limits : Limits) (b : List UInt8) : ∃ rs s, Passed limits b rs s := by
  -- The induction is on the bytes behind the records that were passed so far.
  induction hlen : b.length using Nat.strong_induction_on generalizing b with
  | _ n ih =>
    by_cases hnext : ∃ (r : Record) (s : List UInt8), b = r.bytes ++ s ∧
      r.nesting ≤ limits.recursion
    · obtain ⟨r, s, rfl, hfits⟩ := hnext
      have hshorter : s.length < n := by
        have hpos := r.length_pos
        rw [← hlen, List.length_append]
        omega
      obtain ⟨rs, s', hpassed⟩ := ih s.length hshorter s rfl
      refine ⟨r :: rs, s', ?_, List.forall_mem_cons.2 ⟨hfits, hpassed.fits⟩, hpassed.stuck⟩
      rw [concat_cons, List.append_assoc, ← hpassed.bytes]
    · refine ⟨[], b, rfl, fun r hr => absurd hr List.not_mem_nil, ?_⟩
      intro r s hrecord
      exact Nat.lt_of_not_le fun hfits => hnext ⟨r, s, hrecord, hfits⟩

end Record

/-- Where no record is passed, the value behind a key cannot be skipped. -/
theorem Scan.exists_skip_error {c d : Cursor} {number : Nat} {w : WireType}
    (hstuck : ∀ (r : Record) s, c.rest = r.bytes ++ s → c.limits.recursion < r.nesting)
    (hdepth : c.depth = 0) (ht : Scan.tag c = .ok (.field number w) d) :
    ∃ e d', Scan.skip w d = .error e d' := by
  obtain ⟨key, hzero, hw, hrest⟩ := Scan.tag_field ht
  obtain ⟨-, -, hmove⟩ := Scan.passes_tag c _ d ht
  cases hskip : Scan.skip w d with
  | error e d' => exact ⟨e, d', rfl⟩
  | ok u d' =>
    obtain ⟨v, hv⟩ := Scan.skip_ok hskip
    let r : Record := ⟨key, w, v, hw, hzero⟩
    have hrecord : c.rest = r.bytes ++ d'.rest := by
      rw [hrest, hv, Record.bytes, List.append_assoc]
    -- The value is whole, so only its groups can be too many.
    have hdeep : d.limits.room d.depth < v.nesting := by
      rw [hmove]
      simp only [Cursor.limits_moveTo, Cursor.depth_moveTo, hdepth, Limits.room]
      exact hstuck r d'.rest hrecord
    obtain ⟨d'', herror⟩ := v.skip_of_lt hv hdeep
    rw [hskip] at herror
    cases herror

namespace ElementOption

open Catalog (standard fileOptions fileOptions_foreign)

variable {kind : ElementKind} {found : Option ElementOption} {c : Cursor}
  {b s : List UInt8} {rs : List Record} {limits : Limits} {e : Fault}

/-! ## Where an extraction stops -/

/-- Where no record is passed, an extraction ends as a reader of the options of a file does. -/
theorem extractFrom_stuck (kind : ElementKind) (found : Option ElementOption)
    (hstuck : ∀ (r : Record) s, c.rest = r.bytes ++ s → c.limits.recursion < r.nesting)
    (hdepth : c.depth = 0) (m : Message) :
    extractFrom kind found c = (fill standard fileOptions m c).outcome.map fun _ => found := by
  rw [extractFrom_step]
  split
  next hempty =>
    rw [fill_nil (List.isEmpty_iff.1 hempty)]
    rfl
  next hempty =>
    cases ht : Scan.tag c with
    | error e d =>
      rw [fill_tag_error hempty ht]
      rfl
    | ok tag d =>
      cases tag with
      | stop =>
        rw [fill_stop ht]
        rfl
      | field number w =>
        obtain ⟨e, d', hskip⟩ := Scan.exists_skip_error hstuck hdepth ht
        -- The reader remarks the record before it skips it, which changes nothing else.
        have htracks : d.Tracks Eq d.limits d.limits (d.note (fileOptions.foreignEvent number w)) :=
          ⟨rfl, rfl, rfl, rfl, rfl, rfl⟩
        have hlockstep : Scan.KeepsLockstep Eq d.limits d.limits (Scan.skip w) :=
          Scan.keepsLockstep_skip (Limits.Tighter.refl d.limits) w
        rcases hlockstep.error htracks hskip with ⟨d'', hskip', -⟩ | ⟨hne, -⟩
        · rw [fill_skip_error ht (fileOptions_foreign number w) hskip']
          dsimp only
          split
          next hoption =>
            rw [hoption.2] at hskip
            rw [Scan.bytes_of_skip_error hskip]
            rfl
          next =>
            rw [hskip]
            rfl
        · exact absurd rfl hne

/-! ## Options that are refused -/

/-- A record that is not met ends an extraction. -/
theorem extractFrom_record_error (r : Record) (h : c.rest = r.bytes ++ s) (hdepth : c.depth = 0)
    (hmeet : meet kind c.limits found r = .error e) : extractFrom kind found c = .error e := by
  have htag := Scan.tag_record r h
  have hnonempty := Scan.rest_ne_nil_of_tag htag
  rw [extractFrom_step, if_neg hnonempty, htag]
  cases hoption : r.option? with
  | some payload =>
    rw [meet_of_payload hoption, map_eq_error_iff] at hmeet
    rcases Record.payload?_of_option? hoption with ⟨hnumber, hpayload⟩
    rcases WireValue.bytes_of_payload? hpayload
      (c := c.moveTo (r.value.bytes ++ s)) (s := s) rfl with ⟨hwire, hbytes⟩
    simp [hnumber, hwire, hbytes, hmeet]
  | none =>
    have hother := Record.not_extension_of_option? hoption
    rw [meet, hoption] at hmeet
    dsimp only at hmeet
    split at hmeet
    next => cases hmeet
    next hfits =>
      cases hmeet
      have hdeep : c.limits.room c.depth < r.value.nesting := by
        rw [hdepth]
        exact Nat.lt_of_not_le hfits
      obtain ⟨d, hskip⟩ := r.value.skip_of_lt (c := c.moveTo (r.value.bytes ++ s)) (s := s) rfl
        hdeep
      simp [hother, hskip]

/-- The first record that is not met ends an extraction. -/
theorem extractFrom_records_error (rs : List Record) (h : c.rest = Record.concat rs ++ s)
    (hdepth : c.depth = 0) (hmeet : rs.foldlM (meet kind c.limits) found = .error e) :
    extractFrom kind found c = .error e := by
  induction rs generalizing found c with
  | nil => cases hmeet
  | cons r rs ih =>
    rw [List.foldlM_cons] at hmeet
    have hsplit : c.rest = r.bytes ++ (Record.concat rs ++ s) := by
      rw [h, Record.concat_cons, List.append_assoc]
    cases hfirst : meet kind c.limits found r with
    | error e' =>
      rw [hfirst] at hmeet
      cases hmeet
      exact extractFrom_record_error r hsplit hdepth hfirst
    | ok next =>
      rw [hfirst] at hmeet
      rw [extractFrom_record r hsplit hdepth hfirst]
      exact ih (c := c.moveTo (Record.concat rs ++ s)) rfl hdepth hmeet

/-! ## Payloads -/

/-- Records whose groups fit are met as the payloads among them are read, each by itself, and the
last one counts. -/
theorem foldlM_meet (kind : ElementKind) (hfits : ∀ r ∈ rs, r.nesting ≤ limits.recursion)
    (found : Option ElementOption) :
    rs.foldlM (meet kind limits) found =
      ((Record.options rs).mapM (decode kind limits)).map fun xs => xs.getLast?.or found := by
  induction rs generalizing found with
  | nil => rfl
  | cons r rs ih =>
    obtain ⟨hfit, hfits⟩ := List.forall_mem_cons.1 hfits
    rw [List.foldlM_cons]
    cases hoption : r.option? with
    | none =>
      have hoptions : Record.options (r :: rs) = Record.options rs :=
        List.filterMap_cons_none hoption
      rw [meet_of_none hoption hfit, hoptions]
      exact ih hfits found
    | some payload =>
      have hoptions : Record.options (r :: rs) = payload :: Record.options rs :=
        List.filterMap_cons_some hoption
      rw [meet_of_payload hoption, hoptions, List.mapM_cons]
      cases decode kind limits payload with
      | error e => rfl
      | ok x =>
        refine (ih hfits (some x)).trans ?_
        cases (Record.options rs).mapM (decode kind limits) with
        | error e => rfl
        | ok xs =>
          -- A later option supersedes this one, and this one an earlier one.
          refine congrArg Except.ok ?_
          dsimp only
          rw [List.getLast?_cons]
          cases xs.getLast? <;> rfl

/-- An extraction reads the payloads of the options, and then sees how the bytes around them end. -/
theorem extract_eq (h : Record.Passed limits b rs s) (kind : ElementKind) :
    extract kind limits b =
      (Record.options rs).mapM (decode kind limits) >>= fun xs =>
        (standard.decode fileOptions limits b).map fun _ => xs.getLast? := by
  have hrest : (Cursor.start limits b).rest = Record.concat rs ++ s := h.bytes
  have hmeet := foldlM_meet kind h.fits none
  rw [extract]
  cases hpayloads : (Record.options rs).mapM (decode kind limits) with
  | error e =>
    rw [hpayloads] at hmeet
    exact extractFrom_records_error rs hrest rfl hmeet
  | ok xs =>
    rw [hpayloads] at hmeet
    -- Both readers pass the records, and stop at the same place behind them.
    have hskipped := fill_records (σ := standard) rs hrest
      (Record.foldlM_of_foreign (fun r _ => fileOptions_foreign r.number r.wire) h.fits
        fileOptions.empty)
    have hstop := extractFrom_stuck kind (xs.getLast?.or none)
      (c := (Cursor.start limits b).moveTo s) h.stuck rfl fileOptions.empty
    rw [extractFrom_records rs hrest rfl hmeet, hstop, ← hskipped.outcome, Option.or_none]
    rw [Schema.decode, Schema.run]
    cases (fill standard fileOptions fileOptions.empty (.start limits b)).outcome <;> rfl

/-- Where the options of a file are read, the records were passed up to the end of the message. -/
theorem endsMessage_of_passed (h : Record.Passed limits b rs s) {m : Message}
    (hread : standard.decode fileOptions limits b = .ok m) : EndsMessage s := by
  have hrest : (Cursor.start limits b).rest = Record.concat rs ++ s := h.bytes
  have hskipped := fill_records (σ := standard) rs hrest
    (Record.foldlM_of_foreign (fun r _ => fileOptions_foreign r.number r.wire) h.fits
      fileOptions.empty)
  obtain ⟨qs, s', hs, hends, hfold⟩ := fill_result_eq_ok_iff.1 (hskipped.result.symm.trans hread)
  cases qs with
  | nil => exact (show s = s' from hs) ▸ hends
  | cons q qs =>
    -- A record that was skipped behind the others would have been passed.
    have hmerges := Record.exists_foldlM_iff.1 ⟨m, hfold⟩ q List.mem_cons_self
    have hdeep := h.stuck q (Record.concat qs ++ s') (by simpa using hs)
    exact absurd hmerges.nesting_le (Nat.not_le_of_lt hdeep)

/-- The first payload that is no option of a kind, and the fault that it is refused with. -/
def FirstRefused (kind : ElementKind) (limits : Limits) (payloads : List (List UInt8))
    (e : Fault) : Prop :=
  ∃ pre payload post, payloads = pre ++ payload :: post ∧
    (∀ p ∈ pre, ∃ x, decode kind limits p = .ok x) ∧ decode kind limits payload = .error e

/-- An extraction goes along the records of an options message as the reader of a type without
fields does. Where that reader fails, the extraction fails in the same way, unless an option in
front of that place is refused; then the first such option decides. Where it succeeds, a refused
option is the only way to fail; without options nothing is found, and otherwise the last one, read
from its own payload alone. -/
theorem extract_follows_framing (kind : ElementKind) (limits : Limits) (b : List UInt8) :
    (∃ rs s, Record.Passed limits b rs s) ∧
    ∀ rs s, Record.Passed limits b rs s →
      (∀ e, standard.decode fileOptions limits b = .error e →
        (∃ e', FirstRefused kind limits (Record.options rs) e' ∧
          extract kind limits b = .error e') ∨
        (∀ p ∈ Record.options rs, ∃ x, decode kind limits p = .ok x) ∧
          extract kind limits b = .error e) ∧
      ∀ m, standard.decode fileOptions limits b = .ok m →
        EndsMessage s ∧
        (∀ e, extract kind limits b = .error e ↔
          FirstRefused kind limits (Record.options rs) e) ∧
        (Record.options rs = [] → extract kind limits b = .ok none) ∧
        ∀ pre payload, Record.options rs = pre ++ [payload] →
          (∀ p ∈ Record.options rs, ∃ x, decode kind limits p = .ok x) →
            ∃ x, decode kind limits payload = .ok x ∧
              extract kind limits b = .ok (some x) := by
  refine ⟨Record.exists_passed limits b, fun rs s h => ?_⟩
  have heq := extract_eq h kind
  constructor
  · intro e hframing
    rw [hframing] at heq
    cases hpayloads : (Record.options rs).mapM (decode kind limits) with
    | error e' =>
      rw [hpayloads] at heq
      exact .inl ⟨e', mapM_eq_error_iff.1 hpayloads, heq⟩
    | ok xs =>
      rw [hpayloads] at heq
      exact .inr ⟨exists_mapM_iff.1 ⟨xs, hpayloads⟩, heq⟩
  · intro m hframing
    rw [hframing] at heq
    refine ⟨endsMessage_of_passed h hframing, fun e => ?_, fun hnone => ?_,
      fun pre payload hlast hsound => ?_⟩
    · rw [heq, FirstRefused, ← mapM_eq_error_iff]
      cases (Record.options rs).mapM (decode kind limits) with
      | error e' =>
        constructor
        all_goals
          intro hrefused
          cases hrefused
          rfl
      | ok xs =>
        constructor
        all_goals
          intro hrefused
          cases hrefused
    · rw [heq, hnone]
      rfl
    · rw [hlast] at hsound
      obtain ⟨x, hx⟩ := hsound payload (by simp)
      obtain ⟨ys, hys⟩ := exists_mapM_iff.2 fun p hp =>
        hsound p (List.mem_append_left [payload] hp)
      have hxs : (Record.options rs).mapM (decode kind limits) = .ok (ys ++ [x]) := by
        rw [hlast, List.mapM_append, hys, List.mapM_cons, hx]
        rfl
      rw [hxs] at heq
      exact ⟨x, hx, heq.trans (congrArg Except.ok List.getLast?_concat)⟩

/-- A record of the extension field whose payload announces more bytes than it has. -/
def shortOption : Record where
  key := earlierOption.key
  wire := .lengthDelimited
  value := .flat (.lengthDelimited (.single 0x06 rfl) [0x08, 0x01, 0x08, 0x00, 0x12, 0x7f] rfl)
  wire_eq := earlierOption.wire_eq
  key_ne_zero := earlierOption.key_ne_zero

/-- In front of a wire type that does not exist an option is of no use. A short option is complained
about at its own place, and behind a zero key it is not seen. A number in the field of the extension
is no option. -/
theorem extract_follows_framing_columnOptions :
    extract .message {} (Record.concat [earlierOption] ++ [0x0e]) =
      .error (.invalidWireType 6 6) ∧
    extract .message {} (Record.concat [earlierOption, shortOption] ++ []) =
      .error (.bufferTooShort 127 0 6) ∧
    extract .message {} (Record.concat [extensionNumeral] ++ []) = .ok none ∧
    extract .message {} (Record.concat [earlierOption, extensionNumeral] ++
      (0x00 :: shortOption.bytes)) = .ok (some ⟨.message, [[.bool true], [], [], []]⟩) := by
  have hfollows := fun b => (extract_follows_framing .message {} b).2
  have hearlier : ∀ p ∈ [[0x08, 0x01]], ∃ x, decode .message {} p = .ok x := by
    intro p hp
    rw [List.mem_singleton.1 hp]
    exact ⟨⟨.message, [[.bool true], [], [], []]⟩, by cbv⟩
  refine ⟨?_, ?_, ?_, ?_⟩
  · have hpassed : Record.Passed {} (Record.concat [earlierOption] ++ [0x0e]) [earlierOption]
        [0x0e] := by
      refine ⟨rfl, by decide, fun r s hrecord => ?_⟩
      have hkey := Scan.tag_record (c := .start {} [0x0e]) r hrecord
      obtain ⟨d, hinvalid⟩ : ∃ d, Scan.tag (.start {} [0x0e]) = .error (.invalidWireType 6 0) d :=
        ⟨_, rfl⟩
      rw [hinvalid] at hkey
      cases hkey
    rcases (hfollows _ _ _ hpassed).1 (.invalidWireType 6 6) (by cbv) with
      ⟨e, ⟨pre, payload, post, hpayloads, -, hrefused⟩, -⟩ | ⟨-, hextract⟩
    · have hmem : payload ∈ [[0x08, 0x01]] := by
        rw [show [[0x08, 0x01]] = pre ++ payload :: post from hpayloads]
        simp
      obtain ⟨x, hx⟩ := hearlier payload hmem
      rw [hx] at hrefused
      cases hrefused
    · exact hextract
  · have hpassed : Record.Passed {} _ [earlierOption, shortOption] [] :=
      Record.passed_of_endsMessage (by decide) (.inl rfl)
    obtain ⟨-, hrefused, -⟩ := (hfollows _ _ _ hpassed).2 [] (by cbv)
    exact (hrefused _).2 ⟨[[0x08, 0x01]], _, [], rfl, hearlier, by cbv⟩
  · have hpassed : Record.Passed {} _ [extensionNumeral] [] :=
      Record.passed_of_endsMessage (by decide) (.inl rfl)
    obtain ⟨-, -, hnone, -⟩ := (hfollows _ _ _ hpassed).2 [] (by cbv)
    exact hnone rfl
  · have hmarker : EndsMessage (0x00 :: shortOption.bytes) :=
      .inr ⟨.single 0x00 rfl, shortOption.bytes, .inl rfl, rfl⟩
    have hpassed : Record.Passed {} _ [earlierOption, extensionNumeral] _ :=
      Record.passed_of_endsMessage (by decide) hmarker
    obtain ⟨-, -, -, hlast⟩ := (hfollows _ _ _ hpassed).2 [] (by cbv)
    obtain ⟨x, hx, hextract⟩ := hlast [] [0x08, 0x01] rfl hearlier
    have hread : decode .message {} [0x08, 0x01] =
        .ok ⟨.message, [[.bool true], [], [], []]⟩ := by cbv
    rw [hread] at hx
    cases hx
    exact hextract

end ElementOption
end SchemaCodec
