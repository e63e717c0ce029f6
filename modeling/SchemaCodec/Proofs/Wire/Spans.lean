import Mathlib
import SchemaCodec.Proofs.Wire.Skipping

/-!
# Proofs.Wire.Spans — which bytes a number takes

What `Scan.varint` reads is described byte by byte, without the reader. This module defines:

- `Varint.highBit`: the bit of a byte which says that more bytes follow.
- `Varint.Spans`: how many bytes of a payload are a number.
- `Varint.Unfinished`, `Varint.Overlong`: the two ways of starting with no number.

A payload that starts with a number starts with just one (`Varint.Spans.numeral`), and every other
payload is unfinished or overlong, never both (`Varint.exists_spans_or`). So the fault that is
worked out from the bytes after the reading has failed is the right one for each of them:
`Scan.varint_is_exact`.
-/

namespace SchemaCodec

namespace Varint

/-! ## Bytes of a number -/

/-- The high bit of a byte. -/
def highBit (b : UInt8) : Bool :=
  b.toNat.testBit 7

theorem continues_eq_highBit (b : UInt8) : continues b = highBit b := by
  have hb := b.toNat_lt
  rw [continues, highBit, Nat.testBit_eq_decide_div_mod_eq, decide_eq_decide]
  omega

/-- The first `k` bytes of a payload are a number: all of them but the last are marked, and there
are at most ten, of which the tenth is 0 or 1. -/
structure Spans (bytes : List UInt8) (k : Nat) : Prop where
  pos : 1 ≤ k
  le_ten : k ≤ 10
  le_length : k ≤ bytes.length
  highBits : ∀ i, i + 1 < k → highBit (bytes.getD i 0) = true
  ends : highBit (bytes.getD (k - 1) 0) = false
  tenth : k = 10 → (bytes.getD 9 0).toNat ≤ 1

/-- The low seven bits of each of the first `k` bytes, the lowest first. -/
def septets (bytes : List UInt8) (k : Nat) : Nat :=
  ∑ i ∈ Finset.range k, (bytes.getD i 0).toNat % 128 * 2 ^ (7 * i)

/-- A payload that ends while its number goes on. -/
structure Unfinished (bytes : List UInt8) : Prop where
  length_lt : bytes.length < 10
  highBits : ∀ b ∈ bytes, highBit b = true

/-- A payload whose number goes on for nine bytes, and has more in the tenth than 64 bits hold. -/
structure Overlong (bytes : List UInt8) : Prop where
  le_length : 10 ≤ bytes.length
  highBits : ∀ i < 9, highBit (bytes.getD i 0) = true
  tenth : 1 < (bytes.getD 9 0).toNat

theorem septets_append (xs ys : List UInt8) : septets (xs ++ ys) xs.length = value xs := by
  induction xs with
  | nil => rfl
  | cons b xs ih =>
    have hrest : ∑ i ∈ Finset.range xs.length,
        ((xs ++ ys).getD i 0).toNat % 128 * 2 ^ (7 * (i + 1)) = 128 * value xs := by
      rw [← ih, septets, Finset.mul_sum]
      refine Finset.sum_congr rfl fun i _ => ?_
      ring
    rw [septets, List.length_cons, Finset.sum_range_succ']
    simp only [List.cons_append, List.getD_cons_succ, List.getD_cons_zero, Nat.mul_zero, pow_zero,
      Nat.mul_one, hrest, value]
    omega

/-! ## Spans and numerals -/

theorem getD_append_left {xs ys : List UInt8} {i : Nat} (h : i < xs.length) :
    (xs ++ ys).getD i 0 = xs.getD i 0 :=
  List.getD_append xs ys 0 i h

/-- A numeral at the front of a payload spans its own bytes. -/
theorem spans_of_numeral (n : Numeral) (rest : List UInt8) :
    Spans (n.bytes ++ rest) n.bytes.length := by
  have hlen : n.bytes.length = n.marked.length + 1 := by simp [Numeral.bytes]
  have hbytes : n.bytes ++ rest = n.marked ++ n.last :: rest := by simp [Numeral.bytes]
  have hlast : (n.bytes ++ rest).getD n.marked.length 0 = n.last := by
    rw [hbytes, List.getD_append_right _ _ _ _ (Nat.le_refl _), Nat.sub_self, List.getD_cons_zero]
  have hle := n.length_le
  refine ⟨n.length_pos, by omega, by simp, ?_, ?_, ?_⟩
  · intro i hi
    have hmem : i < n.marked.length := by omega
    rw [hbytes, getD_append_left hmem, List.getD_eq_getElem _ _ hmem, ← continues_eq_highBit]
    exact n.marked_continues _ (List.getElem_mem hmem)
  · rw [hlen, Nat.add_sub_cancel, hlast, ← continues_eq_highBit]
    exact n.last_ends
  · intro hten
    have hnine : n.marked.length = 9 := by omega
    rw [hnine] at hlast
    rw [hlast]
    exact n.tenth hnine

/-- The bytes that a number spans are a numeral. -/
theorem Spans.numeral {bytes : List UInt8} {k : Nat} (h : Spans bytes k) :
    ∃ (n : Numeral) (rest : List UInt8), bytes = n.bytes ++ rest ∧ n.bytes.length = k := by
  have hpos := h.pos
  have hlength := h.le_length
  have hlt : k - 1 < bytes.length := by omega
  have hlast : bytes.getD (k - 1) 0 = bytes[k - 1] := List.getD_eq_getElem bytes 0 hlt
  have hsplit : bytes.take k = bytes.take (k - 1) ++ [bytes[k - 1]] := by
    rw [List.take_append_getElem hlt]
    congr 1
    omega
  have htake : (bytes.take (k - 1)).length = k - 1 := List.length_take_of_le (Nat.le_of_lt hlt)
  have hle := h.le_ten
  refine ⟨⟨bytes.take (k - 1), bytes[k - 1], ?_, ?_, by omega, ?_⟩, bytes.drop k, ?_, ?_⟩
  · intro b hb
    obtain ⟨i, hi, rfl⟩ := List.getElem_of_mem hb
    have hib : i < bytes.length := by omega
    have hmarked := h.highBits i (by omega)
    rw [List.getD_eq_getElem bytes 0 hib, ← continues_eq_highBit] at hmarked
    rwa [List.getElem_take]
  · rw [continues_eq_highBit, ← hlast]
    exact h.ends
  · intro hnine
    have hten : k = 10 := by omega
    have htenth := h.tenth hten
    subst hten
    rwa [← hlast]
  · rw [Numeral.bytes, ← hsplit, List.take_append_drop]
  · rw [Numeral.bytes, ← hsplit, List.length_take_of_le hlength]

/-! ## Payloads without a number -/

theorem Overlong.append {bytes : List UInt8} (h : Overlong bytes) (s : List UInt8) :
    Overlong (bytes ++ s) := by
  have hlength := h.le_length
  refine ⟨by rw [List.length_append]; omega, ?_, ?_⟩
  · intro i hi
    rw [getD_append_left (by omega)]
    exact h.highBits i hi
  · rw [getD_append_left (by omega)]
    exact h.tenth

theorem Unfinished.not_spans {bytes : List UInt8} (h : Unfinished bytes) (k : Nat) :
    ¬ Spans bytes k := by
  intro hspan
  have hpos := hspan.pos
  have hlength := hspan.le_length
  have hlt : k - 1 < bytes.length := by omega
  have hends := hspan.ends
  rw [List.getD_eq_getElem bytes 0 hlt, h.highBits _ (List.getElem_mem hlt)] at hends
  cases hends

theorem Overlong.not_spans {bytes : List UInt8} (h : Overlong bytes) (k : Nat) :
    ¬ Spans bytes k := by
  intro hspan
  have hpos := hspan.pos
  rcases Nat.lt_or_ge k 10 with hlt | hge
  · -- A number of fewer bytes ends in one that is not marked.
    have hends := hspan.ends
    rw [h.highBits (k - 1) (by omega)] at hends
    cases hends
  · have hten : k = 10 := Nat.le_antisymm hspan.le_ten hge
    exact absurd (hspan.tenth hten) (Nat.not_le.2 h.tenth)

theorem Overlong.not_unfinished {bytes : List UInt8} (h : Overlong bytes) :
    ¬ Unfinished bytes :=
  fun hunfinished => absurd hunfinished.length_lt (Nat.not_lt.2 h.le_length)

/-- A payload starts with a number, or ends inside one, or has more than a number holds. -/
theorem exists_spans_or (bytes : List UInt8) :
    (∃ k, Spans bytes k) ∨ Unfinished bytes ∨ Overlong bytes := by
  by_cases hend : ∃ i, i < bytes.length ∧ i < 10 ∧ highBit (bytes.getD i 0) = false
  · -- The first byte that is not marked is the last of the number, if the number is not too long.
    have hfirst := Nat.find_spec hend
    have hbefore : ∀ i < Nat.find hend, highBit (bytes.getD i 0) = true := by
      intro i hi
      have hmin := Nat.find_min hend hi
      rw [← Bool.not_eq_false]
      exact fun hfalse => hmin ⟨by omega, by omega, hfalse⟩
    obtain ⟨hlength, hten, hends⟩ := hfirst
    by_cases hover : Nat.find hend = 9 ∧ 1 < (bytes.getD 9 0).toNat
    · exact .inr (.inr ⟨by omega, fun i hi => hbefore i (by omega), hover.2⟩)
    · exact .inl ⟨Nat.find hend + 1, by omega, by omega, by omega,
        fun i hi => hbefore i (by omega), hends, fun hfull => by omega⟩
  · have hall : ∀ i, i < bytes.length → i < 10 → highBit (bytes.getD i 0) = true := by
      intro i hi hten
      rw [← Bool.not_eq_false]
      exact fun hfalse => hend ⟨i, hi, hten, hfalse⟩
    rcases Nat.lt_or_ge bytes.length 10 with hlt | hge
    · refine .inr (.inl ⟨hlt, ?_⟩)
      intro b hb
      obtain ⟨i, hi, rfl⟩ := List.getElem_of_mem hb
      have hmarked := hall i hi (by omega)
      rwa [List.getD_eq_getElem bytes 0 hi] at hmarked
    · -- A tenth byte that is marked is far above 1.
      have htenth := hall 9 (by omega) (by omega)
      refine .inr (.inr ⟨hge, fun i hi => hall i (by omega) (by omega), ?_⟩)
      rw [← continues_eq_highBit, continues, decide_eq_true_eq] at htenth
      omega

theorem decode?_eq_none_iff {bytes : List UInt8} :
    decode? bytes = none ↔ ∀ k, ¬ Spans bytes k := by
  constructor
  · intro hnone k hspan
    obtain ⟨n, rest, rfl, -⟩ := hspan.numeral
    rw [decode?_numeral] at hnone
    cases hnone
  · intro h
    cases hd : decode? bytes with
    | none => rfl
    | some q =>
      obtain ⟨v, rest⟩ := q
      obtain ⟨n, rfl, -⟩ := exists_numeral_of_decode? hd
      exact absurd (spans_of_numeral n rest) (h _)

theorem fault_of_unfinished {bytes : List UInt8} (h : Unfinished bytes) (position : Nat) :
    fault bytes position = .bufferTooShort (bytes.length + 1) bytes.length position := by
  refine if_pos ⟨h.length_lt, List.all_eq_true.2 fun b hb => ?_⟩
  rw [continues_eq_highBit]
  exact h.highBits b hb

theorem fault_of_overlong {bytes : List UInt8} (h : Overlong bytes) (position : Nat) :
    fault bytes position = .varintOverflow position :=
  if_neg fun hshort => absurd hshort.1 (Nat.not_lt.2 h.le_length)

end Varint

namespace Scan

open Varint

variable {c d : Cursor} {v : UInt64} {e : Fault} {k : Nat}

/-! ## Reading a number -/

theorem varint_of_spans (h : Spans c.rest k) :
    varint c = .ok (.ofNat (septets c.rest k)) (c.advance k) := by
  obtain ⟨n, rest, hrest, rfl⟩ := h.numeral
  have hvalue : septets c.rest n.bytes.length = n.value := by
    rw [hrest]
    exact septets_append n.bytes rest
  rw [hvalue, Cursor.advance_eq_moveTo hrest]
  exact reads_varint n c rest hrest

theorem toNat_septets (h : Spans c.rest k) :
    (UInt64.ofNat (septets c.rest k)).toNat = septets c.rest k := by
  obtain ⟨n, rest, hrest, rfl⟩ := h.numeral
  have hvalue : septets c.rest n.bytes.length = n.value := by
    rw [hrest]
    exact septets_append n.bytes rest
  rw [hvalue]
  exact n.toNat_ofNat_value

theorem varint_eq_ok_iff :
    varint c = .ok v d ↔
      ∃ k, Spans c.rest k ∧ v.toNat = septets c.rest k ∧ d = c.advance k := by
  constructor
  · intro h
    obtain ⟨n, hn⟩ := varint_ok h
    have hspan : Spans c.rest n.bytes.length := by
      rw [hn]
      exact spans_of_numeral n d.rest
    obtain ⟨rfl, rfl⟩ := EStateM.Result.ok.inj (h.symm.trans (varint_of_spans hspan))
    exact ⟨_, hspan, toNat_septets hspan, rfl⟩
  · rintro ⟨k, hspan, hv, rfl⟩
    have hvalue : v = .ofNat (septets c.rest k) :=
      UInt64.toNat_inj.1 (hv.trans (toNat_septets hspan).symm)
    rw [hvalue]
    exact varint_of_spans hspan

theorem varint_of_not_spans (h : ∀ k, ¬ Spans c.rest k) :
    varint c = .error (fault c.rest c.position) c := by
  unfold varint
  rw [decode?_eq_none_iff.2 h]

theorem varint_of_unfinished (h : Unfinished c.rest) :
    varint c = .error (.bufferTooShort (c.rest.length + 1) c.rest.length c.position) c := by
  rw [varint_of_not_spans h.not_spans, fault_of_unfinished h]

theorem varint_of_overlong (h : Overlong c.rest) :
    varint c = .error (.varintOverflow c.position) c := by
  rw [varint_of_not_spans h.not_spans, fault_of_overlong h]

/-- A failure says which of the two ways of being no number it met, and has not moved. -/
theorem varint_eq_error_iff :
    varint c = .error e d ↔ d = c ∧
      (Unfinished c.rest ∧
          e = .bufferTooShort (c.rest.length + 1) c.rest.length c.position ∨
        Overlong c.rest ∧ e = .varintOverflow c.position) := by
  constructor
  · intro h
    rcases exists_spans_or c.rest with ⟨k, hspan⟩ | hshort | hlong
    · rw [varint_of_spans hspan] at h
      cases h
    · rw [varint_of_unfinished hshort] at h
      cases h
      exact ⟨rfl, .inl ⟨hshort, rfl⟩⟩
    · rw [varint_of_overlong hlong] at h
      cases h
      exact ⟨rfl, .inr ⟨hlong, rfl⟩⟩
  · rintro ⟨rfl, ⟨hshort, rfl⟩ | ⟨hlong, rfl⟩⟩
    · exact varint_of_unfinished hshort
    · exact varint_of_overlong hlong

/-- The shortest form of a number is read as that number, and what follows it is left. -/
theorem varint_encode {s : List UInt8} (h : c.rest = encode v.toNat ++ s) :
    varint c = .ok v (c.advance (encode v.toNat).length) := by
  obtain ⟨n, hbytes, hvalue⟩ := exists_numeral_encode v.toNat_lt
  have hread := reads_varint n c s (by rw [h, hbytes])
  rwa [hvalue, UInt64.ofNat_toNat, ← Cursor.advance_eq_moveTo h] at hread

/-- A number is read exactly where the bytes from the cursor on start with one: it is made of the
low seven bits of each of its bytes, and the cursor moves past these bytes alone. Otherwise the
cursor stays, and the fault says that the bytes end too early exactly if there are fewer than ten
and all of them go on. In all other cases it says that the number is too long, whatever bytes
follow. What is written for a number is read as that number in front of any bytes. -/
theorem varint_is_exact (c : Cursor) :
    (∀ v d, varint c = .ok v d ↔
      ∃ k, Spans c.rest k ∧ v.toNat = septets c.rest k ∧ d = c.advance k) ∧
    (varint c = .error (.bufferTooShort (c.rest.length + 1) c.rest.length c.position) c ↔
      c.rest.length < 10 ∧ ∀ b ∈ c.rest, highBit b = true) ∧
    (varint c = .error (.varintOverflow c.position) c ↔
      (∀ k, ¬ Spans c.rest k) ∧ ¬ (c.rest.length < 10 ∧ ∀ b ∈ c.rest, highBit b = true)) ∧
    (varint c = .error (.varintOverflow c.position) c → ∀ s,
      varint { c with rest := c.rest ++ s } =
        .error (.varintOverflow c.position) { c with rest := c.rest ++ s }) ∧
    ∀ (v : UInt64) (s : List UInt8), c.rest = encode v.toNat ++ s →
      ∃ d, varint c = .ok v d ∧ d.rest = s ∧
        d.position = c.position + (encode v.toNat).length := by
  refine ⟨fun v d => varint_eq_ok_iff, ⟨?_, ?_⟩, ⟨?_, ?_⟩, ?_, ?_⟩
  · intro h
    obtain ⟨-, ⟨hshort, -⟩ | ⟨-, hlong⟩⟩ := varint_eq_error_iff.1 h
    · exact ⟨hshort.length_lt, hshort.highBits⟩
    · cases hlong
  · rintro ⟨hlength, hbits⟩
    exact varint_of_unfinished ⟨hlength, hbits⟩
  · intro h
    obtain ⟨-, ⟨-, hshort⟩ | ⟨hlong, -⟩⟩ := varint_eq_error_iff.1 h
    · cases hshort
    · exact ⟨hlong.not_spans, fun hends => hlong.not_unfinished ⟨hends.1, hends.2⟩⟩
  · rintro ⟨hspans, hends⟩
    rcases exists_spans_or c.rest with ⟨k, hspan⟩ | hshort | hlong
    · exact absurd hspan (hspans k)
    · exact absurd ⟨hshort.length_lt, hshort.highBits⟩ hends
    · exact varint_of_overlong hlong
  · intro h s
    obtain ⟨-, ⟨-, hshort⟩ | ⟨hlong, -⟩⟩ := varint_eq_error_iff.1 h
    · cases hshort
    · exact varint_of_overlong (c := { c with rest := c.rest ++ s }) (hlong.append s)
  · intro v s h
    refine ⟨_, varint_encode h, ?_, rfl⟩
    rw [Cursor.advance, h, List.drop_left]

/-- Two bytes of 300 with another one behind them, and a tenth byte of 2 with a zero behind it. -/
theorem varint_is_exact_instances :
    (∃ d, varint { rest := [0xac, 0x02, 0x80], position := 7 } = .ok 300 d ∧
      d.rest = [0x80] ∧ d.position = 9) ∧
    varint { rest := List.replicate 9 0xff ++ [0x02, 0x00], position := 7 } =
      .error (.varintOverflow 7)
        { rest := List.replicate 9 0xff ++ [0x02, 0x00], position := 7 } := by
  obtain ⟨-, -, -, -, hwritten⟩ := varint_is_exact { rest := [0xac, 0x02, 0x80], position := 7 }
  obtain ⟨-, -, -, hlong, -⟩ :=
    varint_is_exact { rest := List.replicate 9 0xff ++ [0x02], position := 7 }
  have hencode : Varint.encode (300 : UInt64).toNat = [0xac, 0x02] := by cbv
  have hread := hwritten 300 [0x80] (by rw [hencode]; rfl)
  rw [hencode] at hread
  have htenth : varint { rest := List.replicate 9 0xff ++ [0x02], position := 7 } =
      .error (.varintOverflow 7) { rest := List.replicate 9 0xff ++ [0x02], position := 7 } := by
    cbv
  exact ⟨hread, hlong htenth [0x00]⟩

end Scan
end SchemaCodec
