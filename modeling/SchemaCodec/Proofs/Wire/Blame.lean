import Mathlib
import SchemaCodec.Proofs.Wire.Reading

/-!
# Proofs.Wire.Blame — steps that fail

- `Malformed`: the faults that the bytes of a payload explain.
- `Cursor.In`, `Cursor.Past`: places in a payload, and the way from one to another.
- `Scan.Passes`: a step that only moves its cursor forward.
- `Scan.Blames`: a step that fails with what its payload explains.

Positions count from the payload that is being read, so what a step says about one is right as long
as its cursor stands in that payload. Both properties pass from steps to sequences of steps, and
`Scan.frame_error` says in which ways a value of a field fails.
-/

namespace SchemaCodec

/-! ## What bytes explain -/

/-- The faults that the bytes of a payload explain: too few of them, a number too long, a key
without a wire type, and submessages or groups too deep. -/
inductive Malformed (limits : Limits) (p : List UInt8) : Fault → Prop where
  | short {requested available position : Nat} (hmore : available < requested)
      (hend : position + available = p.length) :
      Malformed limits p (.bufferTooShort requested available position)
  | overflow {position : Nat} (hten : position + 10 ≤ p.length)
      (hnone : Varint.decode? (p.drop position) = none) :
      Malformed limits p (.varintOverflow position)
  | wireType {raw position : Nat} (key : Numeral) (s : List UInt8)
      (hkey : p.drop position = key.bytes ++ s) (hlow : key.low % 8 = raw)
      (hraw : raw = 6 ∨ raw = 7) : Malformed limits p (.invalidWireType raw position)
  | deep : Malformed limits p (.recursionLimit limits.recursion)

/-! ## Places in a payload -/

namespace Cursor

variable {c d : Cursor} {p : List UInt8}

/-- A cursor stands in a payload, behind as many bytes as its position says. -/
def In (c : Cursor) (p : List UInt8) : Prop :=
  ∃ before, p = before ++ c.rest ∧ before.length = c.position

theorem In.length_eq (h : c.In p) : p.length = c.position + c.rest.length := by
  obtain ⟨before, rfl, hposition⟩ := h
  rw [List.length_append, hposition]

theorem In.drop_eq (h : c.In p) : p.drop c.position = c.rest := by
  obtain ⟨before, rfl, hposition⟩ := h
  exact List.drop_left' hposition

/-- A cursor was moved past bytes of its payload, and nothing else about it changed. -/
def Past (c d : Cursor) : Prop :=
  ∃ bytes, c.rest = bytes ++ d.rest ∧ d = c.moveTo d.rest

theorem past_moveTo {bytes s : List UInt8} (h : c.rest = bytes ++ s) : c.Past (c.moveTo s) :=
  ⟨bytes, h, rfl⟩

theorem Past.refl (c : Cursor) : c.Past c :=
  ⟨[], rfl, c.moveTo_self.symm⟩

theorem Past.trans {c₁ c₂ c₃ : Cursor} (h : c₁.Past c₂) (h' : c₂.Past c₃) : c₁.Past c₃ := by
  obtain ⟨xs, hrest, hmove⟩ := h
  obtain ⟨ys, hrest', hmove'⟩ := h'
  refine ⟨xs ++ ys, by rw [hrest, hrest', List.append_assoc], ?_⟩
  rw [hrest'] at hrest hmove
  rw [hmove', hmove]
  exact moveTo_moveTo _ hrest

theorem Past.limits (h : c.Past d) : d.limits = c.limits := by
  obtain ⟨bytes, -, hmove⟩ := h
  rw [hmove, limits_moveTo]

theorem Past.path (h : c.Past d) : d.path = c.path := by
  obtain ⟨bytes, -, hmove⟩ := h
  rw [hmove, path_moveTo]

theorem Past.in (h : c.Past d) (hc : c.In p) : d.In p := by
  obtain ⟨bytes, hrest, hmove⟩ := h
  obtain ⟨before, rfl, hposition⟩ := hc
  refine ⟨before ++ bytes, by rw [hrest, List.append_assoc], ?_⟩
  rw [hmove]
  simp only [moveTo, hrest, List.length_append, hposition]
  omega

end Cursor

/-! ## Steps that move forward -/

/-- Fewer bytes than a number may have are no number only if none of them ends it. -/
theorem Varint.all_continues_of_decodeWithin {room : Nat} {bytes : List UInt8}
    (h : decodeWithin room bytes = none) (hlen : bytes.length < room) :
    bytes.all continues = true := by
  fun_induction decodeWithin room bytes with
  | case1 => exact absurd hlen (Nat.not_lt_zero _)
  | case2 => rfl
  | case3 => cases h
  | case4 b rest hb => simp at hlen
  | case5 => cases h
  | case6 room b rest hb htail ih =>
    have hrest : rest.length < room + 1 := by simpa using hlen
    simp [hb, ih htail hrest]
  | case7 => cases h

/-- The low bits that are refused are named with the place of their key. -/
theorem WireType.of_ofRaw_error {raw position : Nat} {e : Fault}
    (h : ofRaw raw position = .error e) : 6 ≤ raw ∧ e = .invalidWireType raw position := by
  match raw, h with
  | raw + 6, h =>
    cases h
    exact ⟨Nat.le_add_left 6 raw, rfl⟩

namespace Scan

variable {α β : Type} {x : Scan α} {f : α → Scan β}

/-- A step moves its cursor forward, and changes nothing else about it. -/
def Passes (x : Scan α) : Prop :=
  ∀ c a d, x c = .ok a d → c.Past d

/-- A step fails with what its payload explains. -/
def Blames (x : Scan α) : Prop :=
  ∀ p c e d, c.In p → x c = .error e d → Malformed c.limits p e

theorem bind_eq_error {c d : Cursor} {e : Fault} (h : (x >>= f) c = .error e d) :
    x c = .error e d ∨ ∃ a c', x c = .ok a c' ∧ f a c' = .error e d := by
  change EStateM.bind x f c = _ at h
  unfold EStateM.bind at h
  cases hx : x c with
  | ok a c' =>
    rw [hx] at h
    exact .inr ⟨a, c', rfl, h⟩
  | error e' c' =>
    rw [hx] at h
    cases h
    exact .inl rfl

theorem passes_pure (a : α) : Passes (pure a : Scan α) := by
  intro c a' d h
  cases h
  exact .refl c

theorem Passes.bind (hx : Passes x) (hf : ∀ a, Passes (f a)) : Passes (x >>= f) := by
  intro c b d h
  obtain ⟨a, c', ha, hb⟩ := bind_eq_ok.1 h
  exact (hx c a c' ha).trans (hf a c' b d hb)

theorem blames_pure (a : α) : Blames (pure a : Scan α) := by
  intro p c e d hc h
  cases h

theorem Blames.bind (hx : Blames x) (hpass : Passes x) (hf : ∀ a, Blames (f a)) :
    Blames (x >>= f) := by
  intro p c e d hc h
  rcases bind_eq_error h with hfirst | ⟨a, c', ha, hsecond⟩
  · exact hx p c e d hc hfirst
  · have hpast := hpass c a c' ha
    rw [← hpast.limits]
    exact hf a p c' e d (hpast.in hc) hsecond

theorem Passes.map (hx : Passes x) (g : α → β) : Passes (do return g (← x)) :=
  hx.bind fun _ => passes_pure _

theorem Blames.map (hx : Blames x) (hpass : Passes x) (g : α → β) :
    Blames (do return g (← x)) :=
  hx.bind hpass fun _ => blames_pure _

/-! ### Numbers and bytes -/

theorem passes_varint : Passes varint := by
  intro c v d h
  obtain ⟨n, hn⟩ := varint_ok h
  obtain ⟨-, hd⟩ := EStateM.Result.ok.inj (h.symm.trans (reads_varint n c d.rest hn))
  exact ⟨n.bytes, hn, hd⟩

theorem blames_varint : Blames varint := by
  intro p c e d hc h
  unfold varint at h
  split at h
  next => cases h
  next hnone =>
    cases h
    have hlength := hc.length_eq
    rw [Varint.fault]
    split
    next => exact .short (Nat.lt_succ_self _) (by omega)
    next hlong =>
      -- Of fewer bytes, one would have ended the number.
      have hten : ¬ c.rest.length < 10 := fun hlt =>
        hlong ⟨hlt, Varint.all_continues_of_decodeWithin hnone hlt⟩
      exact .overflow (by omega) (by rw [hc.drop_eq]; exact hnone)

theorem passes_key : Passes key :=
  passes_varint.map _

theorem blames_key : Blames key :=
  blames_varint.map passes_varint _

theorem passes_take (n : Nat) : Passes (take n) := by
  intro c payload d h
  unfold take at h
  split at h
  next => cases h
  next hlen =>
    cases h
    have hrest : c.rest = c.rest.take n ++ c.rest.drop n := (List.take_append_drop n _).symm
    have hn : (c.rest.take n).length = n := List.length_take_of_le (Nat.le_of_not_lt hlen)
    have hmove := Cursor.advance_eq_moveTo hrest
    rw [hn] at hmove
    rw [hmove]
    exact Cursor.past_moveTo hrest

theorem blames_take (n : Nat) : Blames (take n) := by
  intro p c e d hc h
  unfold take at h
  split at h
  next hlen =>
    cases h
    exact .short hlen hc.length_eq.symm
  next => cases h

theorem passes_bytes : Passes bytes :=
  passes_varint.bind fun n => passes_take n.toNat

theorem blames_bytes : Blames bytes :=
  blames_varint.bind passes_varint fun n => blames_take n.toNat

/-! ### Skipping -/

theorem passes_skipFlat (w : WireType) : Passes (skipFlat w) := by
  intro c u d h
  obtain ⟨v, hv⟩ := skipFlat_ok h
  obtain ⟨-, hd⟩ := EStateM.Result.ok.inj (h.symm.trans (reads_skipFlat v c d.rest hv))
  exact ⟨v.bytes, hv, hd⟩

theorem blames_skipFlat {w : WireType} (hstart : w ≠ .startGroup) (hend : w ≠ .endGroup) :
    Blames (skipFlat w) := by
  cases w with
  | varint => exact blames_varint.map passes_varint fun _ => ()
  | fixed64 => exact (blames_take 8).map (passes_take 8) fun _ => ()
  | lengthDelimited => exact blames_bytes.map passes_bytes fun _ => ()
  | startGroup => exact absurd rfl hstart
  | endGroup => exact absurd rfl hend
  | fixed32 => exact (blames_take 4).map (passes_take 4) fun _ => ()

/-- Of the low bits of a key, the two values that are no wire type are refused. -/
theorem malformed_of_ofRaw {p : List UInt8} {c d : Cursor} {k : Nat} {e : Fault} (hc : c.In p)
    (hk : key c = .ok k d) (hw : WireType.ofRaw (k % 8) c.position = .error e) :
    Malformed c.limits p e := by
  obtain ⟨n, hn, rfl⟩ := key_ok hk
  have hlow : n.low % 8 < 8 := Nat.mod_lt _ (by decide)
  have hkey : p.drop c.position = n.bytes ++ d.rest := hc.drop_eq.trans hn
  obtain ⟨hraw, rfl⟩ := WireType.of_ofRaw_error hw
  exact .wireType n d.rest hkey rfl (by omega)

theorem passes_skipGroups (opened : Nat) : Passes (skipGroups opened) := by
  intro c u d h
  fun_induction skipGroups opened c with
  | case1 =>
    cases h
    exact .refl _
  | case2 => cases h
  | case3 => cases h
  | case4 c outer k d' hk hw ih => exact (passes_key c k d' hk).trans (ih h)
  | case5 c outer k d' hk hw hopen ih =>
    rw [if_pos hopen] at h
    exact (passes_key c k d' hk).trans (ih h)
  | case6 c outer k d' hk hw hopen =>
    rw [if_neg hopen] at h
    cases h
  | case7 => cases h
  | case8 c outer k d' hk w hend hstart hw d'' hs ih =>
    exact (passes_key c k d' hk).trans ((passes_skipFlat w d' () d'' hs).trans (ih h))

theorem blames_skipGroups (opened : Nat) : Blames (skipGroups opened) := by
  intro p c e d hc h
  -- The payload stays the same along the loop, and so do the limits of the cursor.
  fun_induction skipGroups opened c with
  | case1 => cases h
  | case2 c outer e' d' hk =>
    cases h
    exact blames_key p c e d hc hk
  | case3 c outer k d' hk e' hw =>
    cases h
    exact malformed_of_ofRaw hc hk hw
  | case4 c outer k d' hk hw ih =>
    have hpast := passes_key c k d' hk
    exact hpast.limits ▸ ih (hpast.in hc) h
  | case5 c outer k d' hk hw hopen ih =>
    have hpast := passes_key c k d' hk
    rw [if_pos hopen] at h
    exact hpast.limits ▸ ih (hpast.in hc) h
  | case6 c outer k d' hk hw hopen =>
    rw [if_neg hopen] at h
    cases h
    rw [(passes_key c k d hk).limits]
    exact .deep
  | case7 c outer k d' hk w hend hstart hw e' d'' hs =>
    cases h
    have hpast := passes_key c k d' hk
    exact hpast.limits ▸ blames_skipFlat hstart hend p d' e d (hpast.in hc) hs
  | case8 c outer k d' hk w hend hstart hw d'' hs ih =>
    have hkey := passes_key c k d' hk
    have hpast := hkey.trans (passes_skipFlat w d' () d'' hs)
    exact hpast.limits ▸ ih (hpast.in hc) h

theorem passes_skip (w : WireType) : Passes (skip w) := by
  intro c u d h
  unfold skip at h
  split at h
  next =>
    split at h
    next => exact passes_skipGroups 1 c u d h
    next => cases h
  next => exact passes_skipFlat _ c u d h

/-- No value ends a group, so what is skipped is never one that may not be skipped. -/
theorem blames_skip {w : WireType} (hend : w ≠ .endGroup) : Blames (skip w) := by
  intro p c e d hc h
  unfold skip at h
  split at h
  next =>
    split at h
    next => exact blames_skipGroups 1 p c e d hc h
    next =>
      cases h
      exact .deep
  next w hstart => exact blames_skipFlat hstart hend p c e d hc h

/-! ### Keys -/

theorem passes_tag : Passes tag := by
  intro c a d h
  unfold tag at h
  split at h
  next => cases h
  next k d' hk =>
    have hpast := passes_key c k d' hk
    split at h
    next =>
      cases h
      exact hpast
    next => split at h <;> cases h; exact hpast

theorem blames_tag : Blames tag := by
  intro p c e d hc h
  unfold tag at h
  split at h
  next e' d' hk =>
    cases h
    exact blames_key p c e d hc hk
  next k d' hk =>
    split at h
    next => cases h
    next =>
      split at h
      next e' hw =>
        cases h
        exact malformed_of_ofRaw hc hk hw
      next => cases h

/-- The key of a record ends no group. -/
theorem wire_ne_endGroup_of_tag {c d : Cursor} {number : Nat} {w : WireType}
    (h : tag c = .ok (.field number w) d) : w ≠ .endGroup := by
  obtain ⟨key, hmarker, -, hw, -⟩ := tag_key h
  rintro rfl
  exact hmarker (.inr hw)

/-! ### Values of fields -/

theorem passes_uint64 : Passes uint64 := by
  refine passes_varint.bind fun v => ?_
  intro c a d h
  dsimp only at h
  split at h
  next =>
    cases h
    exact .refl c
  next => cases h

theorem passes_string : Passes Scan.string := by
  refine passes_bytes.bind fun payload => ?_
  intro c a d h
  split at h
  next =>
    cases h
    exact .refl c
  next => cases h

theorem passes_frame (kind : Kind) : Passes (frame kind) := by
  cases kind with
  | string => exact passes_string.map _
  | bool => exact (passes_varint.map _).map _
  | int32 => exact (passes_varint.map _).map _
  | uint64 => exact passes_uint64.map _
  | «enum» type => exact (passes_varint.map _).map _
  | message name =>
    intro c a d h
    simp only [frame] at h
    split at h
    next => exact passes_bytes.map _ c a d h
    next => cases h

/-- A number that was refused was read, and is above the safe integers. -/
theorem uint64_error {p : List UInt8} {c d : Cursor} {e : Fault} (hc : c.In p)
    (h : uint64 c = .error e d) :
    Malformed c.limits p e ∨ ∃ (n : Numeral) (s : List UInt8), c.rest = n.bytes ++ s ∧
      c.limits.range = .safe ∧ maxSafeInteger < .ofNat n.value ∧
      e = .rangeOverflow c.path (.ofNat n.value) := by
  rcases bind_eq_error h with hvarint | ⟨v, c', hv, hrange⟩
  · exact .inl (blames_varint p c e d hc hvarint)
  · right
    -- The number was read before it was refused, so its bytes are there.
    have hpast := passes_varint c v c' hv
    obtain ⟨n, hn⟩ := varint_ok hv
    obtain ⟨rfl, -⟩ := EStateM.Result.ok.inj (hv.symm.trans (reads_varint n c c'.rest hn))
    split at hrange
    next => cases hrange
    next hrefused =>
      cases hrange
      rw [hpast.limits] at hrefused
      refine ⟨n, d.rest, hn, ?_⟩
      cases hlimit : c.limits.range with
      | safe =>
        rw [hlimit] at hrefused
        exact ⟨rfl, by simpa [IntegerRange.accepts] using hrefused, by rw [hpast.path]⟩
      | full =>
        rw [hlimit] at hrefused
        exact absurd rfl hrefused

/-- A text that was refused was read, and is not UTF-8. -/
theorem string_error {p : List UInt8} {c d : Cursor} {e : Fault} (hc : c.In p)
    (h : Scan.string c = .error e d) :
    Malformed c.limits p e ∨ ∃ (count : Numeral) (payload s : List UInt8),
      c.rest = count.bytes ++ payload ++ s ∧ payload.length = count.value ∧
      Text.ofUtf8? payload = none ∧ e = .invalidUtf8 c.path := by
  rcases bind_eq_error h with hbytes | ⟨payload, c', hb, hutf8⟩
  · exact .inl (blames_bytes p c e d hc hbytes)
  · right
    have hpast := passes_bytes c payload c' hb
    obtain ⟨count, hlen, hrest⟩ := bytes_ok hb
    split at hutf8
    next => cases hutf8
    next hnone =>
      cases hutf8
      exact ⟨count, payload, d.rest, hrest, hlen, hnone, by rw [hpast.path]⟩

/-- Where nothing is cut out, the payload says why, or a text or a number was refused. -/
theorem frame_error {p : List UInt8} {c d : Cursor} {kind : Kind} {e : Fault}
    (hc : c.In p) (h : frame kind c = .error e d) :
    Malformed c.limits p e ∨
    (kind = .string ∧ ∃ (count : Numeral) (payload s : List UInt8),
      c.rest = count.bytes ++ payload ++ s ∧ payload.length = count.value ∧
      Text.ofUtf8? payload = none ∧ e = .invalidUtf8 c.path) ∨
    kind = .uint64 ∧ ∃ (n : Numeral) (s : List UInt8), c.rest = n.bytes ++ s ∧
      c.limits.range = .safe ∧ maxSafeInteger < .ofNat n.value ∧
      e = .rangeOverflow c.path (.ofNat n.value) := by
  -- The kinds whose numbers all fit fail only where the number itself is not read.
  have hnumber : ∀ {α : Type} (g : UInt64 → α) (g' : α → Frame),
      Blames (do return g' (← (do return g (← varint) : Scan α))) := fun g g' =>
    (blames_varint.map passes_varint g).map (passes_varint.map g) g'
  cases kind with
  | string =>
    rcases bind_eq_error h with hstring | ⟨_, _, _, hpure⟩
    · exact (string_error hc hstring).imp_right fun hutf8 => .inl ⟨rfl, hutf8⟩
    · cases hpure
  | bool => exact .inl (hnumber _ _ p c e d hc h)
  | int32 => exact .inl (hnumber _ _ p c e d hc h)
  | uint64 =>
    rcases bind_eq_error h with huint64 | ⟨_, _, _, hpure⟩
    · exact (uint64_error hc huint64).imp_right fun hrange => .inr ⟨rfl, hrange⟩
    · cases hpure
  | «enum» type => exact .inl (hnumber _ _ p c e d hc h)
  | message name =>
    simp only [frame] at h
    split at h
    next => exact .inl (blames_bytes.map passes_bytes _ p c e d hc h)
    next =>
      cases h
      exact .inl .deep

/-- A submessage that was cut out is a counted payload of a field of its kind. -/
theorem submessage_ok {c d : Cursor} {kind : Kind} {name : String} {payload : List UInt8}
    (h : frame kind c = .ok (.submessage name payload) d) :
    kind = .message name ∧ ∃ count : Numeral, payload.length = count.value ∧
      c.rest = count.bytes ++ payload ++ d.rest := by
  cases kind with
  | message name' =>
    simp only [frame] at h
    split at h
    next =>
      obtain ⟨payload', c', hb, hpure⟩ := bind_eq_ok.1 h
      cases hpure
      exact ⟨rfl, bytes_ok hb⟩
    next => cases h
  | _ =>
    obtain ⟨_, _, _, hpure⟩ := bind_eq_ok.1 h
    cases hpure

end Scan
end SchemaCodec
