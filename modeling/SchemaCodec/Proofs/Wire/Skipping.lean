import Mathlib
import SchemaCodec.Proofs.Outcome
import SchemaCodec.Proofs.Wire.Record
import SchemaCodec.Wire.Cursor

/-!
# Proofs.Wire.Skipping — where values end

- `Scan.Reads`: a step that reads given bytes wherever they stand.
- `Limits.room`: how many more groups may be open at a depth.

Every primitive step has both directions: it reads the whole values of its kind, and what it reads
is a whole value. So `Scan.skip` passes exactly the values of its wire type whose groups fit into
the room that is left (`WireValue.skip_of_le`, `WireValue.skip_of_lt`, `Scan.skip_ok`).
-/

namespace SchemaCodec

/-- How many more messages or groups may be open at a depth. -/
def Limits.room (l : Limits) (depth : Nat) : Nat :=
  l.recursion - depth

/-! ## Moving a cursor -/

namespace Cursor

@[simp] theorem rest_moveTo (c : Cursor) (s : List UInt8) : (c.moveTo s).rest = s := rfl

@[simp] theorem limits_moveTo (c : Cursor) (s : List UInt8) : (c.moveTo s).limits = c.limits := rfl

@[simp] theorem depth_moveTo (c : Cursor) (s : List UInt8) : (c.moveTo s).depth = c.depth := rfl

@[simp] theorem path_moveTo (c : Cursor) (s : List UInt8) : (c.moveTo s).path = c.path := rfl

@[simp] theorem log_moveTo (c : Cursor) (s : List UInt8) : (c.moveTo s).log = c.log := rfl

@[simp] theorem moveTo_self (c : Cursor) : c.moveTo c.rest = c := by
  simp [moveTo]

theorem moveTo_moveTo {c : Cursor} {bytes s : List UInt8} (t : List UInt8)
    (h : c.rest = bytes ++ (s ++ t)) : (c.moveTo (s ++ t)).moveTo t = c.moveTo t := by
  simp only [moveTo, h, List.length_append, mk.injEq, true_and, and_true]
  omega

theorem advance_eq_moveTo {c : Cursor} {bytes s : List UInt8} (h : c.rest = bytes ++ s) :
    c.advance bytes.length = c.moveTo s := by
  simp [advance, moveTo, h]

theorem mayOpen_iff {c : Cursor} {groups : Nat} :
    c.mayOpen groups = true ↔ groups < c.limits.room c.depth := by
  simp only [mayOpen, Limits.room, decide_eq_true_eq]
  omega

end Cursor

/-! ## Steps that read whole values -/

namespace Scan

/-- A step reads bytes as a value: wherever they stand, it succeeds and ends behind them. -/
def Reads {α : Type} (x : Scan α) (bytes : List UInt8) (a : α) : Prop :=
  ∀ (c : Cursor) (s : List UInt8), c.rest = bytes ++ s → x c = .ok a (c.moveTo s)

theorem reads_pure {α : Type} (a : α) : Reads (pure a : Scan α) [] a := by
  intro c s h
  have hs : s = c.rest := h.symm
  rw [hs, Cursor.moveTo_self]
  rfl

theorem Reads.bind {α β : Type} {x : Scan α} {f : α → Scan β} {a : α} {b : β}
    {xs ys : List UInt8} (hx : Reads x xs a) (hf : Reads (f a) ys b) :
    Reads (x >>= f) (xs ++ ys) b := by
  intro c s h
  have hrest : c.rest = xs ++ (ys ++ s) := by simpa using h
  rw [bind_of_ok (hx c (ys ++ s) hrest), hf _ s rfl, Cursor.moveTo_moveTo s hrest]

theorem Reads.map {α β : Type} {x : Scan α} {a : α} {xs : List UInt8} (hx : Reads x xs a)
    (f : α → β) : Reads (do return f (← x)) xs (f a) := by
  have h := hx.bind (f := fun v => pure (f v)) (reads_pure (f a))
  rwa [List.append_nil] at h

theorem reads_varint (n : Numeral) : Reads varint n.bytes (UInt64.ofNat n.value) := by
  intro c s h
  unfold varint
  rw [h, Varint.decode?_numeral]

theorem reads_key (n : Numeral) : Reads key n.bytes n.low := by
  have h := (reads_varint n).map fun v => v.toUInt32.toNat
  have hlow : (UInt64.ofNat n.value).toUInt32.toNat = n.low := by
    simp [Numeral.low]
  rwa [hlow] at h

theorem reads_take {n : Nat} {payload : List UInt8} (h : payload.length = n) :
    Reads (take n) payload payload := by
  intro c s hrest
  subst h
  have hlen : ¬ c.rest.length < payload.length := by simp [hrest]
  rw [take, if_neg hlen, Cursor.advance_eq_moveTo hrest, hrest, List.take_left]

theorem reads_bytes {count : Numeral} {payload : List UInt8}
    (h : payload.length = count.value) : Reads bytes (count.bytes ++ payload) payload := by
  have hcount := count.toNat_ofNat_value
  exact (reads_varint count).bind (reads_take (h.trans hcount.symm))

theorem reads_skipFlat {w : WireType} (v : FlatValue w) : Reads (skipFlat w) v.bytes () := by
  cases v with
  | varint n => exact (reads_varint n).map fun _ => ()
  | fixed64 bytes h => exact (reads_take h).map fun _ => ()
  | lengthDelimited count payload h => exact (reads_bytes h).map fun _ => ()
  | fixed32 bytes h => exact (reads_take h).map fun _ => ()

section Conditions

variable {c : Cursor} {s : List UInt8}

theorem uint64_of_accepts (n : Numeral) (h : c.rest = n.bytes ++ s)
    (hrange : c.limits.range.accepts (.ofNat n.value) = true) :
    uint64 c = .ok (.ofNat n.value) (c.moveTo s) :=
  (bind_of_ok (reads_varint n c s h)).trans (if_pos hrange)

theorem uint64_of_not_accepts (n : Numeral) (h : c.rest = n.bytes ++ s)
    (hrange : ¬ c.limits.range.accepts (.ofNat n.value) = true) :
    uint64 c = .error (.rangeOverflow c.path (.ofNat n.value)) (c.moveTo s) :=
  (bind_of_ok (reads_varint n c s h)).trans (if_neg hrange)

theorem string_of_utf8 {count : Numeral} {payload : List UInt8} {text : String}
    (hlen : payload.length = count.value) (h : c.rest = count.bytes ++ payload ++ s)
    (hutf8 : Text.ofUtf8? payload = some text) : string c = .ok text (c.moveTo s) := by
  refine (bind_of_ok (reads_bytes hlen c s h)).trans ?_
  rw [hutf8]

theorem string_of_not_utf8 {count : Numeral} {payload : List UInt8}
    (hlen : payload.length = count.value) (h : c.rest = count.bytes ++ payload ++ s)
    (hutf8 : Text.ofUtf8? payload = none) :
    string c = .error (.invalidUtf8 c.path) (c.moveTo s) := by
  refine (bind_of_ok (reads_bytes hlen c s h)).trans ?_
  rw [hutf8]
  rfl

end Conditions

/-! ## What was read was whole -/

theorem varint_ok {c c' : Cursor} {v : UInt64} (h : varint c = .ok v c') :
    ∃ n : Numeral, c.rest = n.bytes ++ c'.rest := by
  unfold varint at h
  split at h
  next v rest hd =>
    cases h
    obtain ⟨n, hn, -⟩ := Varint.exists_numeral_of_decode? hd
    exact ⟨n, hn⟩
  next => cases h

theorem map_varint_ok {α : Type} {f : UInt64 → α} {c c' : Cursor} {a : α}
    (h : (do return f (← varint) : Scan α) c = .ok a c') :
    ∃ n : Numeral, c.rest = n.bytes ++ c'.rest := by
  obtain ⟨v, d, hv, h⟩ := bind_eq_ok.1 h
  cases h
  exact varint_ok hv

theorem key_ok {c c' : Cursor} {k : Nat} (h : key c = .ok k c') :
    ∃ n : Numeral, c.rest = n.bytes ++ c'.rest ∧ k = n.low := by
  obtain ⟨n, hn⟩ := map_varint_ok h
  obtain ⟨hk, -⟩ := EStateM.Result.ok.inj (h.symm.trans (reads_key n c c'.rest hn))
  exact ⟨n, hn, hk⟩

theorem take_ok {n : Nat} {c c' : Cursor} {payload : List UInt8}
    (h : take n c = .ok payload c') : c.rest = payload ++ c'.rest ∧ payload.length = n := by
  unfold take at h
  split at h
  next => cases h
  next hlen =>
    cases h
    simp only [Cursor.advance, List.take_append_drop, List.length_take, true_and]
    omega

theorem bytes_ok {c c' : Cursor} {payload : List UInt8} (h : bytes c = .ok payload c') :
    ∃ count : Numeral, payload.length = count.value ∧
      c.rest = count.bytes ++ payload ++ c'.rest := by
  obtain ⟨v, d, hv, ht⟩ := bind_eq_ok.1 h
  obtain ⟨n, hn⟩ := varint_ok hv
  obtain ⟨hd, hlen⟩ := take_ok ht
  obtain ⟨rfl, -⟩ := EStateM.Result.ok.inj (hv.symm.trans (reads_varint n c d.rest hn))
  refine ⟨n, ?_, ?_⟩
  · rw [hlen, n.toNat_ofNat_value]
  · rw [hn, hd, List.append_assoc]

theorem skipFlat_ok {w : WireType} {c c' : Cursor} (h : skipFlat w c = .ok () c') :
    ∃ v : FlatValue w, c.rest = v.bytes ++ c'.rest := by
  cases w with
  | varint =>
    obtain ⟨_, _, hv, h⟩ := bind_eq_ok.1 h
    cases h
    obtain ⟨n, hn⟩ := varint_ok hv
    exact ⟨.varint n, hn⟩
  | fixed64 =>
    obtain ⟨payload, _, ht, h⟩ := bind_eq_ok.1 h
    cases h
    obtain ⟨hrest, hlen⟩ := take_ok ht
    exact ⟨.fixed64 payload hlen, hrest⟩
  | lengthDelimited =>
    obtain ⟨payload, _, hb, h⟩ := bind_eq_ok.1 h
    cases h
    obtain ⟨count, hlen, hrest⟩ := bytes_ok hb
    exact ⟨.lengthDelimited count payload hlen, hrest⟩
  | fixed32 =>
    obtain ⟨payload, _, ht, h⟩ := bind_eq_ok.1 h
    cases h
    obtain ⟨hrest, hlen⟩ := take_ok ht
    exact ⟨.fixed32 payload hlen, hrest⟩
  | startGroup => cases h
  | endGroup => cases h

/-! ## Groups -/

/-- One step past the rest of groups, without the proofs that it makes progress. -/
theorem skipGroups_succ (outer : Nat) (c : Cursor) :
    skipGroups (outer + 1) c =
      match key c with
      | .error e d => .error e d
      | .ok k d =>
        match WireType.ofRaw (k % 8) c.position with
        | .error e => .error e d
        | .ok .endGroup => skipGroups outer d
        | .ok .startGroup =>
          if d.mayOpen (outer + 1) then skipGroups (outer + 2) d
          else .error (.recursionLimit d.limits.recursion) d
        | .ok w =>
          match skipFlat w d with
          | .error e d => .error e d
          | .ok () d' => skipGroups (outer + 1) d' := by
  rw [skipGroups]
  split
  next hk => rw [hk]
  next k d hk =>
    rw [hk]
    dsimp only
    cases hw : WireType.ofRaw (k % 8) c.position with
    | error e => rfl
    | ok w =>
      cases w with
      | startGroup => rfl
      | endGroup => rfl
      | _ =>
        dsimp only
        split
        next hs => rw [hs]
        next hs => rw [hs]

theorem skipGroups_close {outer k : Nat} {c d : Cursor} (hk : key c = .ok k d)
    (hw : k % 8 = WireType.endGroup.raw) : skipGroups (outer + 1) c = skipGroups outer d := by
  rw [skipGroups_succ, hk]
  dsimp only
  rw [hw, WireType.ofRaw_raw]

theorem skipGroups_group {outer k : Nat} {c d : Cursor} (hk : key c = .ok k d)
    (hw : k % 8 = WireType.startGroup.raw) :
    skipGroups (outer + 1) c =
      if d.mayOpen (outer + 1) then skipGroups (outer + 2) d
      else .error (.recursionLimit d.limits.recursion) d := by
  rw [skipGroups_succ, hk]
  dsimp only
  rw [hw, WireType.ofRaw_raw]

theorem skipGroups_flat {outer k : Nat} {w : WireType} {c d d' : Cursor}
    (hk : key c = .ok k d) (hw : k % 8 = w.raw) (hs : skipFlat w d = .ok () d') :
    skipGroups (outer + 1) c = skipGroups (outer + 1) d' := by
  rw [skipGroups_succ, hk]
  dsimp only
  rw [hw, WireType.ofRaw_raw]
  cases w with
  | startGroup => cases hs
  | endGroup => cases hs
  | _ =>
    dsimp only
    rw [hs]

theorem skipGroups_flat_error {outer k : Nat} {w : WireType} {c d d' : Cursor} {e : Fault}
    (hk : key c = .ok k d) (hw : k % 8 = w.raw) (hend : w ≠ .endGroup) (hstart : w ≠ .startGroup)
    (hs : skipFlat w d = .error e d') : skipGroups (outer + 1) c = .error e d' := by
  rw [skipGroups_succ, hk]
  dsimp only
  rw [hw, WireType.ofRaw_raw]
  cases w with
  | startGroup => contradiction
  | endGroup => contradiction
  | _ =>
    dsimp only
    rw [hs]

/-- The end of a group closes the innermost open one, if everything inside fits. -/
theorem skipGroups_body (b : GroupBody) {outer : Nat} {c : Cursor} {s : List UInt8}
    (h : c.rest = b.bytes ++ s) (hfits : b.nesting ≤ c.limits.room (c.depth + outer + 1)) :
    skipGroups (outer + 1) c = skipGroups outer (c.moveTo s) := by
  induction b generalizing outer c s with
  | close key hkey =>
    exact skipGroups_close (reads_key key c s h) hkey
  | flat key hkey v rest ih =>
    simp only [GroupBody.bytes, List.append_assoc] at h
    have hk := reads_key key c _ h
    have hv := reads_skipFlat v (c.moveTo (v.bytes ++ (rest.bytes ++ s))) _ rfl
    rw [Cursor.moveTo_moveTo _ h] at hv
    have hmove : c.rest = (key.bytes ++ v.bytes) ++ (rest.bytes ++ s) := by simpa using h
    rw [skipGroups_flat hk hkey hv, ih (c := c.moveTo (rest.bytes ++ s)) rfl hfits,
      Cursor.moveTo_moveTo s hmove]
  | group key hkey inner rest ihInner ihRest =>
    -- One more group is open in the inner body. Its end leads back to the number of before.
    simp only [GroupBody.bytes, List.append_assoc] at h
    simp only [GroupBody.nesting, Limits.room] at hfits
    have hk := reads_key key c _ h
    have hopen : (c.moveTo (inner.bytes ++ (rest.bytes ++ s))).mayOpen (outer + 1) = true := by
      simp only [Cursor.mayOpen_iff, Limits.room, Cursor.limits_moveTo, Cursor.depth_moveTo]
      omega
    have hinner : inner.nesting ≤ c.limits.room (c.depth + (outer + 1) + 1) := by
      simp only [Limits.room]
      omega
    have hrest : rest.nesting ≤ c.limits.room (c.depth + outer + 1) := by
      simp only [Limits.room]
      omega
    have hmove : c.rest = (key.bytes ++ inner.bytes) ++ (rest.bytes ++ s) := by simpa using h
    rw [skipGroups_group hk hkey, if_pos hopen,
      ihInner (c := c.moveTo (inner.bytes ++ (rest.bytes ++ s))) rfl hinner,
      Cursor.moveTo_moveTo _ h, ihRest (c := c.moveTo (rest.bytes ++ s)) rfl hrest,
      Cursor.moveTo_moveTo s hmove]

/-- A group that does not fit is refused where it would open. -/
theorem skipGroups_body_of_lt (b : GroupBody) {outer : Nat} {c : Cursor} {s : List UInt8}
    (h : c.rest = b.bytes ++ s) (hdeep : c.limits.room (c.depth + outer + 1) < b.nesting) :
    ∃ d, skipGroups (outer + 1) c = .error (.recursionLimit c.limits.recursion) d := by
  induction b generalizing outer c s with
  | close key hkey => simp [GroupBody.nesting] at hdeep
  | flat key hkey v rest ih =>
    simp only [GroupBody.bytes, List.append_assoc] at h
    have hk := reads_key key c _ h
    have hv := reads_skipFlat v (c.moveTo (v.bytes ++ (rest.bytes ++ s))) _ rfl
    rw [skipGroups_flat hk hkey hv]
    exact ih (c := (c.moveTo _).moveTo (rest.bytes ++ s)) rfl hdeep
  | group key hkey inner rest ihInner ihRest =>
    simp only [GroupBody.bytes, List.append_assoc] at h
    have hk := reads_key key c _ h
    rw [skipGroups_group hk hkey]
    split
    next hopen =>
      simp only [GroupBody.nesting, Limits.room] at hdeep
      -- This group opens, so one inside it or behind it is too deep.
      by_cases hinner : inner.nesting ≤ c.limits.room (c.depth + (outer + 1) + 1)
      · rw [skipGroups_body inner (c := c.moveTo (inner.bytes ++ (rest.bytes ++ s))) rfl hinner]
        refine ihRest (c := (c.moveTo _).moveTo (rest.bytes ++ s)) rfl ?_
        simp only [Cursor.mayOpen_iff, Limits.room, Cursor.limits_moveTo,
          Cursor.depth_moveTo] at hopen hinner ⊢
        omega
      · exact ihInner (c := c.moveTo (inner.bytes ++ (rest.bytes ++ s))) rfl
          (Nat.lt_of_not_le hinner)
    next => exact ⟨_, rfl⟩

/-- The groups that were left are closed one after the other. -/
theorem skipGroups_ok {opened : Nat} {c c' : Cursor} (h : skipGroups opened c = .ok () c') :
    ∃ bodies : List GroupBody, bodies.length = opened ∧
      c.rest = bodies.flatMap GroupBody.bytes ++ c'.rest := by
  fun_induction skipGroups opened c with
  | case1 c =>
    cases h
    exact ⟨[], rfl, rfl⟩
  | case2 => cases h
  | case3 => cases h
  | case4 c outer k d hk hw ih =>
    obtain ⟨bodies, hlen, hrest⟩ := ih h
    obtain ⟨n, hn, rfl⟩ := key_ok hk
    exact ⟨.close n (WireType.raw_of_ofRaw hw) :: bodies, by simp [hlen],
      by simp [GroupBody.bytes, hn, hrest]⟩
  | case5 c outer k d hk hw hopen ih =>
    rw [if_pos hopen] at h
    obtain ⟨bodies, hlen, hrest⟩ := ih h
    obtain ⟨n, hn, rfl⟩ := key_ok hk
    -- The first body closes the group that this key opens, and the second one goes on behind it.
    obtain ⟨inner, bodies, rfl⟩ := List.exists_cons_of_length_eq_add_one hlen
    obtain ⟨rest, bodies, rfl⟩ := List.exists_cons_of_length_eq_add_one (Nat.succ.inj hlen)
    exact ⟨.group n (WireType.raw_of_ofRaw hw) inner rest :: bodies, by simpa using hlen,
      by simp [GroupBody.bytes, hn, hrest]⟩
  | case6 c outer k d hk hw hopen =>
    rw [if_neg hopen] at h
    cases h
  | case7 => cases h
  | case8 c outer k d hk w _ _ hw d' hs ih =>
    obtain ⟨bodies, hlen, hrest⟩ := ih h
    obtain ⟨n, hn, rfl⟩ := key_ok hk
    obtain ⟨v, hv⟩ := skipFlat_ok hs
    -- A flat value goes in front of the body that closes the innermost group.
    obtain ⟨rest, bodies, rfl⟩ := List.exists_cons_of_length_eq_add_one hlen
    exact ⟨.flat n (WireType.raw_of_ofRaw hw) v rest :: bodies, by simpa using hlen,
      by simp [GroupBody.bytes, hn, hv, hrest]⟩

theorem skip_of_ne {w : WireType} (hw : w ≠ .startGroup) : skip w = skipFlat w := by
  cases w with
  | startGroup => contradiction
  | _ => rfl

theorem skip_ok {w : WireType} {c c' : Cursor} (h : skip w c = .ok () c') :
    ∃ v : WireValue w, c.rest = v.bytes ++ c'.rest := by
  unfold skip at h
  split at h
  next =>
    split at h
    next =>
      obtain ⟨bodies, hlen, hrest⟩ := skipGroups_ok h
      obtain ⟨body, rfl⟩ := List.length_eq_one_iff.1 hlen
      exact ⟨.group body, by simpa [WireValue.bytes] using hrest⟩
    next => cases h
  next =>
    obtain ⟨v, hv⟩ := skipFlat_ok h
    exact ⟨.flat v, hv⟩

end Scan

namespace WireValue

open Scan

/-- A value whose groups fit is skipped as a whole. -/
theorem skip_of_le {w : WireType} (v : WireValue w) {c : Cursor} {s : List UInt8}
    (h : c.rest = v.bytes ++ s) (hfits : v.nesting ≤ c.limits.room c.depth) :
    skip w c = .ok () (c.moveTo s) := by
  cases v with
  | flat v =>
    rw [skip_of_ne v.wire_ne_startGroup]
    exact reads_skipFlat v c s h
  | group body =>
    -- The group of the value itself takes one level of the room.
    simp only [nesting] at hfits
    have hopen : c.mayOpen 0 = true := by
      rw [Cursor.mayOpen_iff]
      omega
    have hbody : body.nesting ≤ c.limits.room (c.depth + 0 + 1) := by
      simp only [Limits.room] at hfits ⊢
      omega
    have hskip : skipGroups (0 + 1) c = skipGroups 0 (c.moveTo s) :=
      skipGroups_body body h hbody
    rw [skipGroups.eq_def 0] at hskip
    simpa [skip, hopen] using hskip

/-- A value whose groups do not fit is refused. -/
theorem skip_of_lt {w : WireType} (v : WireValue w) {c : Cursor} {s : List UInt8}
    (h : c.rest = v.bytes ++ s) (hdeep : c.limits.room c.depth < v.nesting) :
    ∃ d, skip w c = .error (.recursionLimit c.limits.recursion) d := by
  cases v with
  | flat v => simp [nesting] at hdeep
  | group body =>
    simp only [nesting] at hdeep
    simp only [skip]
    split
    next hopen =>
      refine skipGroups_body_of_lt body h ?_
      simp only [Cursor.mayOpen_iff, Limits.room] at hopen hdeep ⊢
      omega
    next => exact ⟨_, rfl⟩

end WireValue
end SchemaCodec
