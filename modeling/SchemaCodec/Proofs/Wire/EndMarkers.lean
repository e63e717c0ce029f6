import Mathlib
import SchemaCodec.Proofs.Wire.Alike

/-!
# Proofs.Wire.EndMarkers — where a message ends before its payload does

- `Schema.Cuts`: a payload, and the same one where a message inside it stops in front of its end
  marker.

Nothing behind an end marker is read, whatever it is (`Schema.decodeAt_endMarker`). The payload of a
submessage has a length of its own, so the message around it goes on at that length: a marker cuts
the message that it stands in, and no other (`Schema.end_markers_cut_one_message`).
-/

namespace SchemaCodec

/-- One message of a payload, the outermost or one inside it, loses its end marker and all that
follows it in this message. Around a submessage, the key may be spelled anew, and the length is
that of the new payload. -/
inductive Schema.Cuts (σ : Schema) : MessageType → List UInt8 → List UInt8 → Prop where
  | here {t : MessageType} (rs : List Record) (marker : Numeral) (hmarker : marker.IsEndMarker)
      (g : List UInt8) :
      Schema.Cuts σ t (Record.concat rs ++ (marker.bytes ++ g)) (Record.concat rs)
  | inside {t : MessageType} {f : Field} {name : String} (rs : List Record)
      (key key' count count' : Numeral) (payload payload' s : List UInt8)
      (hkey : key.Announces t f) (hkey' : key'.Announces t f) (hkind : f.kind = .message name)
      (hlen : payload.length = count.value) (hlen' : payload'.length = count'.value)
      (h : Schema.Cuts σ (σ.type name) payload payload') :
      Schema.Cuts σ t (Record.concat rs ++ (key.bytes ++ (count.bytes ++ payload)) ++ s)
        (Record.concat rs ++ (key'.bytes ++ (count'.bytes ++ payload')) ++ s)

section Markers

variable {σ : Schema} {t : MessageType} {limits : Limits} {d : Nat}

/-- Behind records, an end marker ends a message with the same result as the end of its bytes. -/
theorem Schema.decodeAt_endMarker (rs : List Record) {marker : Numeral}
    (hmarker : marker.IsEndMarker) (g : List UInt8) :
    σ.decodeAt t limits d (Record.concat rs ++ (marker.bytes ++ g)) =
      σ.decodeAt t limits d (Record.concat rs) := by
  rw [Schema.decodeAt_concat]
  exact fill_result_eq_foldlM rs rfl (.inr ⟨marker, g, hmarker, rfl⟩)

/-- What is cut off makes no difference to any message, at any depth. -/
theorem Schema.Cuts.alike {b b' : List UInt8} (h : σ.Cuts t b b') :
    ∀ d, σ.Alike t limits d b b' := by
  induction h with
  | @here t rs marker hmarker g =>
    intro d
    have hends : σ.Alike t limits d (marker.bytes ++ g) [] :=
      .ends (.inr ⟨marker, g, hmarker, rfl⟩) (.inl rfl)
    have halike := hends.records rs
    rwa [List.append_nil] at halike
  | inside rs key key' count count' payload payload' s hkey hkey' hkind hlen hlen' h ih =>
    intro d
    -- The cut is one level deeper, and what follows the submessage is the same on both sides.
    have hrecord := Schema.Alike.submessage hkey hkey' (.refl σ _ limits d s) hkind hlen hlen'
      (ih (d + 1))
    have halike := hrecord.records rs
    simpa only [List.append_assoc] using halike

/-- The record of a submessage puts the message of its payload into the message around it. -/
theorem Numeral.Announces.mergeInto_submessage {key count : Numeral} {f : Field} {name : String}
    (hkey : key.Announces t f) (hkind : f.kind = .message name)
    (hw : f.kind.wireType = .lengthDelimited) {payload : List UInt8}
    (hlen : payload.length = count.value) (hdepth : d + 1 ≤ limits.recursion) {x : Message}
    (hx : σ.decodeAt (σ.type name) limits (d + 1) payload = .ok x) (m : Message) :
    (hkey.record hw (.flat (.lengthDelimited count payload hlen))).mergeInto σ t limits d m =
      .ok (t.put m f.number (.message x)) := by
  have hread : (WireValue.flat (.lengthDelimited count payload hlen)).read σ limits d
      ⟨t.name, f.jsonName⟩ f.kind hw = .ok (.message x) := by
    simp only [hkind, WireValue.read_message, if_pos hdepth, hx]
    rfl
  rw [Record.mergeInto_of_field (r := hkey.record hw _) hkey.field hw, ← hkey.number_eq]
  exact congrArg (Except.map (t.put m _)) hread

/-- A run goes on behind the whole payload of a submessage, also where an end marker stands in
it. -/
theorem Schema.decode_behind_endMarker {f : Field} {name : String} {rs qs : List Record}
    {key count marker : Numeral} {g s : List UInt8} (hkey : key.Announces t f)
    (hkind : f.kind = .message name) (hmarker : marker.IsEndMarker)
    (hlen : (Record.concat qs ++ (marker.bytes ++ g)).length = count.value)
    (hdepth : 1 ≤ limits.recursion) {m x n : Message}
    (hm : σ.decode t limits (Record.concat rs) = .ok m)
    (hx : σ.decodeAt (σ.type name) limits 1 (Record.concat qs) = .ok x) :
    σ.decode t limits (Record.concat rs ++
        (key.bytes ++ (count.bytes ++ (Record.concat qs ++ (marker.bytes ++ g)))) ++ s) = .ok n ↔
      (fill σ t (t.put m f.number (.message x)) (.start limits s)).result = .ok n := by
  have hw : f.kind.wireType = .lengthDelimited := by rw [hkind]; rfl
  let r : Record := hkey.record hw (.flat (.lengthDelimited count _ hlen))
  have hinner := (Schema.decodeAt_endMarker qs hmarker g).trans hx
  -- The submessage is the one that its records make, and it is put into the message so far.
  have hrecords : (rs ++ [r]).foldlM (Record.mergeInto σ t limits 0) t.empty =
      .ok (t.put m f.number (.message x)) := by
    have hmerge := hkey.mergeInto_submessage hkind hw hlen hdepth hinner m
    rw [Schema.decode_eq_decodeAt, Schema.decodeAt_concat] at hm
    rw [List.foldlM_append]
    exact bind_eq_ok_iff.2 ⟨m, hm, bind_eq_ok_iff.2 ⟨_, hmerge, rfl⟩⟩
  have hbytes : Record.concat rs ++
      (key.bytes ++ (count.bytes ++ (Record.concat qs ++ (marker.bytes ++ g)))) ++ s =
        Record.concat (rs ++ [r]) ++ s := by
    rw [Record.concat_append, Record.concat_cons, Record.concat_nil, List.append_nil]
    rfl
  rw [hbytes]
  refine (fill_records_iff (rs ++ [r])).trans ?_
  simp only [hrecords, Except.ok.injEq, exists_eq_left']
  rfl

end Markers

/-- An end marker cuts the message that it stands in, and no other. Behind records it ends a payload
with the result of the records alone, be it a message or a fault. Wherever a message inside a
payload stops in front of its marker, the payload denotes the same message. The payload around it is
read on behind the whole submessage. -/
theorem Schema.end_markers_cut_one_message (σ : Schema) (t : MessageType) (limits : Limits) :
    (∀ (rs : List Record) (marker : Numeral), marker.IsEndMarker → ∀ g,
      σ.decode t limits (Record.concat rs ++ (marker.bytes ++ g)) =
        σ.decode t limits (Record.concat rs)) ∧
    (∀ b b', σ.Cuts t b b' → ∀ m, σ.decode t limits b = .ok m ↔ σ.decode t limits b' = .ok m) ∧
    ∀ (f : Field) (name : String) (rs qs : List Record) (key count marker : Numeral)
      (g : List UInt8) (m x : Message), key.Announces t f → f.kind = .message name →
      marker.IsEndMarker → (Record.concat qs ++ (marker.bytes ++ g)).length = count.value →
      1 ≤ limits.recursion → σ.decode t limits (Record.concat rs) = .ok m →
      σ.decodeAt (σ.type name) limits 1 (Record.concat qs) = .ok x →
      ∀ s n, σ.decode t limits (Record.concat rs ++
          (key.bytes ++ (count.bytes ++ (Record.concat qs ++ (marker.bytes ++ g)))) ++ s) = .ok n ↔
        (fill σ t (t.put m f.number (.message x)) (.start limits s)).result = .ok n := by
  refine ⟨?_, ?_, ?_⟩
  · intro rs marker hmarker g
    exact decodeAt_endMarker rs hmarker g
  · intro b b' hcuts m
    exact (hcuts.alike 0).decodeAt m
  · intro f name rs qs key count marker g m x hkey hkind hmarker hlen hdepth hm hx s n
    exact decode_behind_endMarker hkey hkind hmarker hlen hdepth hm hx

namespace Catalog

/-- A key of five bytes whose low 32 bits are zero. -/
def wideMarker : Numeral where
  marked := [0x80, 0x80, 0x80, 0x80]
  last := 0x10
  marked_continues := by simp [Varint.continues]
  last_ends := by decide
  length_le := by decide
  tenth := by decide

theorem wideMarker_isEndMarker : wideMarker.IsEndMarker := .inl (by cbv)

/-- A column ends at a wide marker, also inside the options that it belongs to. The table that is
named behind the column is read. -/
theorem end_markers_cut_one_column :
    (∀ g, standard.decode extraField {} ([0x12, 0x01, 0x61] ++ (wideMarker.bytes ++ g)) =
      .ok [[], [.string "a"], [], []]) ∧
    standard.decode messageOptions {}
      [0x12, 0x0a, 0x12, 0x01, 0x61, 0x80, 0x80, 0x80, 0x80, 0x10, 0xff, 0xff, 0x1a, 0x01, 0x74] =
        .ok [[], [.message [[], [.string "a"], [], []]], [.string "t"], []] ∧
    ∀ s n, standard.decode messageOptions {}
        ([0x12, 0x0a, 0x12, 0x01, 0x61, 0x80, 0x80, 0x80, 0x80, 0x10, 0xff, 0xff] ++ s) = .ok n ↔
      (fill standard messageOptions [[], [.message [[], [.string "a"], [], []]], [], []]
        (.start {} s)).result = .ok n := by
  let key : Numeral := .single 0x12 rfl
  let count : Numeral := .single 0x0a rfl
  have hname : key.Announces extraField ⟨2, "name", "name", .string, false⟩ :=
    ⟨by decide, by decide, by decide⟩
  let name : Record := hname.record rfl (.flat (.lengthDelimited (.single 0x01 rfl) [0x61] rfl))
  have hcolumn : key.Announces messageOptions
      ⟨2, "include", "include", .message "gorm.ExtraField", true⟩ :=
    ⟨by decide, by decide, by decide⟩
  have hcuts : standard.Cuts messageOptions
      [0x12, 0x0a, 0x12, 0x01, 0x61, 0x80, 0x80, 0x80, 0x80, 0x10, 0xff, 0xff, 0x1a, 0x01, 0x74]
      [0x12, 0x03, 0x12, 0x01, 0x61, 0x1a, 0x01, 0x74] :=
    .inside [] key key count (.single 0x03 rfl) _ _ [0x1a, 0x01, 0x74] hcolumn hcolumn rfl rfl
      rfl (.here [name] wideMarker wideMarker_isEndMarker [0xff, 0xff])
  have hextra := Schema.end_markers_cut_one_message standard extraField {}
  have hoptions := Schema.end_markers_cut_one_message standard messageOptions {}
  refine ⟨?_, ?_, ?_⟩
  · intro g
    exact (hextra.1 [name] wideMarker wideMarker_isEndMarker g).trans (by cbv)
  · exact (hoptions.2.1 _ _ hcuts _).2 (by cbv)
  · exact hoptions.2.2 _ "gorm.ExtraField" [] [name] key count wideMarker [0xff, 0xff]
      [[], [], [], []] [[], [.string "a"], [], []] hcolumn rfl wideMarker_isEndMarker rfl
      (by decide) (by cbv) (by cbv)

end Catalog
end SchemaCodec
