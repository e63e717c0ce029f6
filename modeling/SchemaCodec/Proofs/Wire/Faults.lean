import Mathlib
import SchemaCodec.Catalog.Standard
import SchemaCodec.Proofs.Wire.Blame
import SchemaCodec.Proofs.Wire.Grammar

/-!
# Proofs.Wire.Faults — what the faults of a reader say

- `Explains`: the faults that a payload explains when it is read as a type, those that name a field
  with the record that is to blame.
- `Schema.Contains`: the payloads inside a payload, and the types that they are read as.
- `Cursor.Behind`: cursors behind complete records of a payload.

A run stays behind records of its payload until one of them fails. Then either this payload
explains the fault, or the payload of a submessage does (`exists_explains_of_fill`).
-/

namespace SchemaCodec

/-! ## What faults say -/

/-- The faults that a payload explains when it is read as a type. A fault that names a field names
one of this type, and a record of the field is to blame. -/
inductive Explains (limits : Limits) (t : MessageType) (p : List UInt8) : Fault → Prop where
  | malformed {e : Fault} (h : Malformed limits p e) : Explains limits t p e
  | utf8 {f : Field} (rs : List Record) (key count : Numeral) (payload s : List UInt8)
      (hp : p = Record.concat rs ++ (key.bytes ++ (count.bytes ++ payload)) ++ s)
      (hlen : payload.length = count.value) (hkey : key.Announces t f) (hkind : f.kind = .string)
      (hutf8 : Text.ofUtf8? payload = none) :
      Explains limits t p (.invalidUtf8 ⟨t.name, f.jsonName⟩)
  | range {f : Field} (rs : List Record) (key n : Numeral) (s : List UInt8)
      (hp : p = Record.concat rs ++ (key.bytes ++ n.bytes) ++ s)
      (hkey : key.Announces t f) (hkind : f.kind = .uint64) (hsafe : limits.range = .safe)
      (hlarge : maxSafeInteger < .ofNat n.value) :
      Explains limits t p (.rangeOverflow ⟨t.name, f.jsonName⟩ (.ofNat n.value))

/-- The payloads inside the payload of a type, each read as the type of its field. -/
inductive Schema.Contains (σ : Schema) :
    MessageType → List UInt8 → MessageType → List UInt8 → Prop where
  | self {t : MessageType} {p : List UInt8} : Schema.Contains σ t p t p
  | inside {t u : MessageType} {p q : List UInt8} {f : Field} {name : String} (rs : List Record)
      (key count : Numeral) (payload s : List UInt8)
      (hp : p = Record.concat rs ++ (key.bytes ++ (count.bytes ++ payload)) ++ s)
      (hlen : payload.length = count.value) (hkey : key.Announces t f)
      (hkind : f.kind = .message name) (h : Schema.Contains σ (σ.type name) payload u q) :
      Schema.Contains σ t p u q

/-- The types of submessages of a type, at any depth, and the type itself. -/
inductive Schema.Reaches (σ : Schema) : MessageType → MessageType → Prop where
  | self {t : MessageType} : Schema.Reaches σ t t
  | inside {t u : MessageType} {f : Field} {name : String} (hf : f ∈ t.fields)
      (hkind : f.kind = .message name) (h : Schema.Reaches σ (σ.type name) u) :
      Schema.Reaches σ t u

theorem Numeral.Announces.mem {key : Numeral} {t : MessageType} {f : Field}
    (h : key.Announces t f) : f ∈ t.fields :=
  List.mem_of_find?_eq_some h.field

theorem Schema.Contains.reaches {σ : Schema} {t u : MessageType} {p q : List UInt8}
    (h : σ.Contains t p u q) : σ.Reaches t u := by
  induction h with
  | self => exact .self
  | inside rs key count payload s hp hlen hkey hkind h ih => exact .inside hkey.mem hkind ih

/-! ## Records that fail -/

namespace Cursor

variable {c d : Cursor} {p : List UInt8}

/-- A cursor stands behind complete records of a payload. -/
def Behind (c : Cursor) (p : List UInt8) : Prop :=
  c.In p ∧ ∃ rs, p = Record.concat rs ++ c.rest

theorem Behind.next {r : Record} (h : c.Behind p) (hrest : c.rest = r.bytes ++ d.rest)
    (hd : d.In p) : d.Behind p := by
  obtain ⟨-, rs, rfl⟩ := h
  refine ⟨hd, rs ++ [r], ?_⟩
  simp [hrest]

end Cursor

namespace Scan

variable {t : MessageType} {c d d' : Cursor} {p : List UInt8} {number : Nat} {e : Fault}

theorem exists_announces_of_tag {f : Field} (h : tag c = .ok (.field number f.wireType) d)
    (hfield : t.field? number = some f) :
    ∃ key : Numeral, key.Announces t f ∧ c.rest = key.bytes ++ d.rest := by
  obtain ⟨key, hmarker, rfl, hw, hrest⟩ := tag_key h
  exact ⟨key, ⟨fun hzero => hmarker (.inl hzero), hfield, hw⟩, hrest⟩

/-- The value of a field that is not cut out is to blame, or the payload around it. -/
theorem explains_of_frame {f : Field} (hc : c.Behind p)
    (ht : tag c = .ok (.field number f.wireType) d) (hfield : t.field? number = some f)
    (h : frame f.kind { d with path := ⟨t.name, f.jsonName⟩ } = .error e d') :
    Explains c.limits t p e := by
  obtain ⟨hin, rs, hp⟩ := hc
  obtain ⟨key, hkey, hrest⟩ := exists_announces_of_tag ht hfield
  have hpast := passes_tag c _ d ht
  have hd : ({ d with path := ⟨t.name, f.jsonName⟩ } : Cursor).In p := hpast.in hin
  rw [← hpast.limits]
  rcases frame_error hd h with hmalformed | ⟨hkind, count, payload, s, hvalue, hlen, hutf8, rfl⟩ |
    ⟨hkind, n, s, hvalue, hsafe, hlarge, rfl⟩
  · exact .malformed hmalformed
  · have hwhole : p = Record.concat rs ++ (key.bytes ++ (count.bytes ++ payload)) ++ s := by
      dsimp only at hvalue
      simp [hp, hrest, hvalue]
    exact .utf8 rs key count payload s hwhole hlen hkey hkind hutf8
  · have hwhole : p = Record.concat rs ++ (key.bytes ++ n.bytes) ++ s := by
      dsimp only at hvalue
      simp [hp, hrest, hvalue]
    exact .range rs key n s hwhole hkey hkind hsafe hlarge

end Scan

/-! ## Runs -/

variable {σ : Schema} {t : MessageType} {m : Message} {c : Cursor} {p : List UInt8} {e : Fault}

/-- Behind a record that was passed, a cursor stands in the same payload. -/
theorem Cursor.Behind.frame {number : Nat} {d d' : Cursor} {f : Field} {path : FieldPath}
    {x : Frame} (hc : c.Behind p) (ht : Scan.tag c = .ok (.field number f.wireType) d)
    (hframe : Scan.frame f.kind { d with path := path } = .ok x d') :
    d'.Behind p ∧ d'.limits = c.limits := by
  have htag := Scan.passes_tag c _ d ht
  have hpast := Scan.passes_frame f.kind _ x d' hframe
  obtain ⟨v, hv⟩ := Scan.exists_value_of_frame hframe
  obtain ⟨r, hr⟩ := Scan.exists_record ht hv
  have hin : ({ d with path := path } : Cursor).In p := htag.in hc.1
  exact ⟨hc.next hr (hpast.in hin), hpast.limits.trans htag.limits⟩

theorem Cursor.Behind.skip {number : Nat} {w : WireType} {d d' : Cursor} {event : Event}
    (hc : c.Behind p) (ht : Scan.tag c = .ok (.field number w) d)
    (hskip : Scan.skip w (d.note event) = .ok () d') : d'.Behind p ∧ d'.limits = c.limits := by
  have htag := Scan.passes_tag c _ d ht
  have hpast := Scan.passes_skip w _ () d' hskip
  obtain ⟨v, hv⟩ := Scan.skip_ok hskip
  obtain ⟨r, hr⟩ := Scan.exists_record ht hv
  have hin : (d.note event).In p := htag.in hc.1
  exact ⟨hc.next hr (hpast.in hin), hpast.limits.trans htag.limits⟩

theorem Scan.malformed_of_skip {number : Nat} {w : WireType} {d d' : Cursor} {event : Event}
    (hc : c.In p) (ht : Scan.tag c = .ok (.field number w) d)
    (hskip : Scan.skip w (d.note event) = .error e d') : Malformed c.limits p e := by
  have htag := Scan.passes_tag c _ d ht
  have hin : (d.note event).In p := htag.in hc
  rw [← htag.limits]
  exact Scan.blames_skip (Scan.wire_ne_endGroup_of_tag ht) p (d.note event) e d' hin hskip

/-- The fault of a run is explained by the payload that is read, or by one inside it. -/
theorem exists_explains_of_fill (h : (fill σ t m c).outcome = .error e) :
    ∀ p, c.Behind p → ∃ u q, σ.Contains t p u q ∧ Explains c.limits u q e := by
  -- A run that goes on stands behind one more record, so the cases that matter are its failures.
  fun_induction fill σ t m c with
  | case1 => cases h
  | case2 t m c hempty e' d ht =>
    intro p hc
    cases h
    exact ⟨t, p, .self, .malformed (Scan.blames_tag p c e d hc.1 ht)⟩
  | case3 => cases h
  | case4 t m c hempty number d field hfield e' d' hframe ht =>
    intro p hc
    cases h
    exact ⟨t, p, .self, Scan.explains_of_frame hc ht hfield hframe⟩
  | case5 t m c hempty number d field hfield x d' hframe ht ih =>
    intro p hc
    obtain ⟨hnext, hlimits⟩ := hc.frame ht hframe
    exact hlimits ▸ ih h p hnext
  | case6 t m c hempty number d field hfield name payload d' hframe run e' houtcome ht ih =>
    intro p hc
    cases h
    obtain ⟨hnext, hlimits⟩ := hc.frame ht hframe
    obtain ⟨hin, rs, hp⟩ := hc
    obtain ⟨key, hkey, hrest⟩ := Scan.exists_announces_of_tag ht hfield
    obtain ⟨hkind, count, hlen, hvalue⟩ := Scan.submessage_ok hframe
    have hwhole : p = Record.concat rs ++ (key.bytes ++ (count.bytes ++ payload)) ++ d'.rest := by
      dsimp only at hvalue
      simp [hp, hrest, hvalue]
    -- Positions start again with the payload of the submessage.
    have hstart : (d'.child payload).Behind payload := ⟨⟨[], rfl, rfl⟩, [], rfl⟩
    obtain ⟨u, q, hcontains, hexplains⟩ := ih houtcome payload hstart
    exact ⟨u, q, .inside rs key count payload d'.rest hwhole hlen hkey hkind hcontains,
      hlimits ▸ hexplains⟩
  | case7 t m c hempty number d field hfield name payload d' hframe run houtcome ht ih ihNext =>
    intro p hc
    obtain ⟨hnext, hlimits⟩ := hc.frame ht hframe
    exact hlimits ▸ ihNext h p hnext
  | case8 t m c hempty number w d ht field hfield hwire e' d' hskip =>
    intro p hc
    cases h
    exact ⟨t, p, .self, .malformed (Scan.malformed_of_skip hc.1 ht hskip)⟩
  | case9 t m c hempty number w d ht field hfield hwire d' hskip ih =>
    intro p hc
    obtain ⟨hnext, hlimits⟩ := hc.skip ht hskip
    exact hlimits ▸ ih h p hnext
  | case10 t m c hempty number w d ht hfield e' d' hskip =>
    intro p hc
    cases h
    exact ⟨t, p, .self, .malformed (Scan.malformed_of_skip hc.1 ht hskip)⟩
  | case11 t m c hempty number w d ht hfield d' hskip ih =>
    intro p hc
    obtain ⟨hnext, hlimits⟩ := hc.skip ht hskip
    exact hlimits ▸ ih h p hnext

/-- The faults that a payload explains are all due to its bytes, but for a number out of range. -/
theorem Explains.isMalformedInput_iff {limits : Limits} (h : Explains limits t p e) :
    e.isMalformedInput = false ↔ ∃ path n, e = .rangeOverflow path n := by
  cases h with
  | malformed h => cases h <;> simp [Fault.isMalformedInput]
  | utf8 => simp [Fault.isMalformedInput]
  | range => simp [Fault.isMalformedInput]

/-- A payload that is refused, or one inside it that is read as a type of one of its submessages,
explains the fault: the place and the field that the fault names are those of that payload and of
that type. All bytes that are refused are malformed, but for numbers out of range. -/
theorem Schema.faults_are_explained (σ : Schema) (t : MessageType) (limits : Limits)
    (bytes : List UInt8) {e : Fault} (h : σ.decode t limits bytes = .error e) :
    (∃ u p, σ.Contains t bytes u p ∧ σ.Reaches t u ∧ Explains limits u p e) ∧
    (e.isMalformedInput = false ↔ ∃ path n, e = .rangeOverflow path n) := by
  have hrun : (fill σ t t.empty (.start limits bytes)).outcome = .error e := map_eq_error_iff.1 h
  have hstart : (Cursor.start limits bytes).Behind bytes := ⟨⟨[], rfl, rfl⟩, [], rfl⟩
  obtain ⟨u, p, hcontains, hexplains⟩ := exists_explains_of_fill hrun bytes hstart
  exact ⟨⟨u, p, hcontains, hcontains.reaches, hexplains⟩, hexplains.isMalformedInput_iff⟩

namespace Catalog

/-- A column whose name is no UTF-8. -/
def unreadableColumn : List UInt8 :=
  [0x12, 3, 0x12, 1, 0xff]

/-- The fault names the column, and not the table that it belongs to. -/
theorem faults_are_explained_unreadableColumn :
    standard.decode messageOptions {} unreadableColumn =
      .error (.invalidUtf8 ⟨extraField.name, "name"⟩) ∧
    ∃ u p, standard.Contains messageOptions unreadableColumn u p ∧
      standard.Reaches messageOptions u ∧
      Explains {} u p (.invalidUtf8 ⟨extraField.name, "name"⟩) := by
  have hdecode : standard.decode messageOptions {} unreadableColumn =
      .error (.invalidUtf8 ⟨extraField.name, "name"⟩) := by cbv
  exact ⟨hdecode, (Schema.faults_are_explained standard messageOptions {} _ hdecode).1⟩

end Catalog

end SchemaCodec
