import Mathlib
import SchemaCodec.Wire.Varint

/-!
# Proofs.Wire.Numeral — the spellings of a number

A number on the wire has many spellings, since padding is allowed. This module defines:

- `Varint.value`: what a run of bytes stands for, seven bits each.
- `Numeral`: a whole spelling of a number, padded or not.
- `Numeral.low`: the part of a number that keys are made of.

and proves that `Varint.decode?` accepts the numerals and nothing else (`decode?_numeral`,
`exists_numeral_of_decode?`), and that what `Varint.encode` writes is one of them
(`exists_numeral_encode`).
-/

namespace SchemaCodec

namespace Varint

/-! ## What bytes stand for -/

/-- The number that bytes stand for: the low seven bits of each, the lowest first. -/
def value : List UInt8 → Nat
  | [] => 0
  | b :: bytes => b.toNat % 128 + 128 * value bytes

theorem value_append (xs ys : List UInt8) :
    value (xs ++ ys) = value xs + 128 ^ xs.length * value ys := by
  induction xs with
  | nil => simp [value]
  | cons b xs ih =>
    simp only [List.cons_append, value, ih, List.length_cons, pow_succ]
    ring

theorem value_lt (bytes : List UInt8) : value bytes < 128 ^ bytes.length := by
  induction bytes with
  | nil => simp [value]
  | cons b bytes ih =>
    have hb : b.toNat % 128 < 128 := Nat.mod_lt _ (by decide)
    simp only [value, List.length_cons, pow_succ]
    omega

theorem value_singleton {b : UInt8} (h : continues b = false) : value [b] = b.toNat := by
  have hb : b.toNat < 128 := by simpa [continues] using h
  simp [value, Nat.mod_eq_of_lt hb]

/-! ## Reading marked bytes -/

theorem decodeWithin_marked {marked : List UInt8} {last : UInt8} {room : Nat}
    (rest : List UInt8) (hmarked : ∀ b ∈ marked, continues b = true)
    (hlast : continues last = false) (hroom : marked.length + 1 ≤ room)
    (htight : marked.length + 1 = room → last.toNat ≤ 1) :
    decodeWithin room (marked ++ last :: rest) = some (value (marked ++ [last]), rest) := by
  induction marked generalizing room with
  | nil =>
    match room, hroom, htight with
    | 1, _, htight =>
      have hsmall : last.toNat ≤ 1 := htight rfl
      simp [decodeWithin, hsmall, value_singleton hlast]
    | room + 2, _, _ => simp [decodeWithin, hlast, value_singleton hlast]
  | cons b marked ih =>
    simp only [List.length_cons] at hroom htight
    -- Another byte follows, so this one is not the tenth.
    obtain ⟨room, rfl⟩ : ∃ k, room = k + 2 := ⟨room - 2, by omega⟩
    have hb : continues b = true := hmarked b (by simp)
    have hroom' : marked.length + 1 ≤ room + 1 := by omega
    have htail := ih (fun x hx => hmarked x (by simp [hx])) hroom' (fun h => htight (by omega))
    simp [decodeWithin, hb, htail, value]

/-- What is read is marked bytes with an unmarked one behind them. -/
theorem marked_of_decodeWithin {room n : Nat} {bytes rest : List UInt8}
    (h : decodeWithin room bytes = some (n, rest)) :
    ∃ marked last, bytes = marked ++ last :: rest ∧ (∀ b ∈ marked, continues b = true) ∧
      continues last = false ∧ marked.length + 1 ≤ room ∧
      (marked.length + 1 = room → last.toNat ≤ 1) ∧ n = value (marked ++ [last]) := by
  fun_induction decodeWithin room bytes generalizing n rest with
  | case1 => cases h
  | case2 => cases h
  | case3 b tail hb =>
    -- The tenth byte, which is read only if it is 0 or 1.
    cases h
    have hend : continues b = false := by simp [continues]; omega
    exact ⟨[], b, by simp, by simp, hend, by simp, fun _ => hb, by simp [value_singleton hend]⟩
  | case4 => cases h
  | case5 room b tail hb m tail' htail ih =>
    cases h
    obtain ⟨marked, last, rfl, hmarked, hlast, hroom, htight, rfl⟩ := ih htail
    refine ⟨b :: marked, last, by simp, ?_, hlast, by simp; omega, ?_, by simp [value]⟩
    · intro x hx
      rcases List.mem_cons.1 hx with rfl | hx
      · exact hb
      · exact hmarked x hx
    · intro hfull
      simp only [List.length_cons] at hfull
      exact htight (by omega)
  | case6 => cases h
  | case7 room b tail hb =>
    cases h
    have hend : continues b = false := by simpa using hb
    exact ⟨[], b, by simp, by simp, hend, by simp, by simp, by simp [value_singleton hend]⟩

/-! ## Written numbers -/

/-- The shortest form of a number: how many bytes are marked, and what the last one holds. -/
theorem encode_eq_marked {k n : Nat} (h : n < 128 ^ (k + 1)) :
    ∃ marked last, encode n = marked ++ [last] ∧ (∀ b ∈ marked, continues b = true) ∧
      continues last = false ∧ marked.length ≤ k ∧ last.toNat = n / 128 ^ marked.length ∧
      n = value (marked ++ [last]) := by
  -- The induction is on the room for marked bytes, since `encode` goes on with a quotient.
  induction k generalizing n with
  | zero =>
    have hn : n < 128 := by simpa using h
    have hlast : (UInt8.ofNat n).toNat = n := by simp; omega
    rw [encode, if_pos hn]
    exact ⟨[], UInt8.ofNat n, by simp, by simp, by simp [continues, hlast]; omega, by simp,
      by simp [hlast], by simp [value, hlast]; omega⟩
  | succ k ih =>
    rw [encode]
    split
    next hn =>
      have hlast : (UInt8.ofNat n).toNat = n := by simp; omega
      exact ⟨[], UInt8.ofNat n, by simp, by simp, by simp [continues, hlast]; omega, by simp,
        by simp [hlast], by simp [value, hlast]; omega⟩
    next hn =>
      have hsmaller : n / 128 < 128 ^ (k + 1) := by
        rw [Nat.div_lt_iff_lt_mul (by decide), ← pow_succ]
        exact h
      obtain ⟨marked, last, hbytes, hmarked, hlast, hlen, htop, hvalue⟩ := ih hsmaller
      have hbyte : (UInt8.ofNat (n % 128 + 128)).toNat = n % 128 + 128 := by simp; omega
      refine ⟨UInt8.ofNat (n % 128 + 128) :: marked, last, by simp [hbytes], ?_, hlast,
        by simp; omega, ?_, ?_⟩
      · intro b hb
        rcases List.mem_cons.1 hb with rfl | hb
        · simp only [continues, hbyte, decide_eq_true_eq]
          omega
        · exact hmarked b hb
      · rw [htop, Nat.div_div_eq_div_mul, List.length_cons, pow_succ']
      · simp only [List.cons_append, value, hbyte, ← hvalue]
        omega

end Varint

/-! ## Numerals -/

/-- A whole spelling of a number: marked bytes, and one that is not. Ten bytes hold 64 bits, so
the tenth is 0 or 1. -/
structure Numeral where
  marked : List UInt8
  last : UInt8
  marked_continues : ∀ b ∈ marked, Varint.continues b = true
  last_ends : Varint.continues last = false
  length_le : marked.length ≤ 9
  tenth : marked.length = 9 → last.toNat ≤ 1

namespace Numeral

def bytes (n : Numeral) : List UInt8 :=
  n.marked ++ [n.last]

def single (b : UInt8) (h : Varint.continues b = false) : Numeral :=
  ⟨[], b, by simp, h, by simp, by simp⟩

def value (n : Numeral) : Nat :=
  Varint.value n.bytes

/-- The low 32 bits of the number. -/
def low (n : Numeral) : Nat :=
  n.value % 4294967296

theorem length_pos (n : Numeral) : 0 < n.bytes.length := by
  simp [bytes]

theorem value_lt (n : Numeral) : n.value < 2 ^ 64 := by
  have hmarked := Varint.value_lt n.marked
  have hlast : n.last.toNat < 128 := by simpa [Varint.continues] using n.last_ends
  have hvalue : n.value = Varint.value n.marked + 128 ^ n.marked.length * n.last.toNat := by
    rw [value, bytes, Varint.value_append, Varint.value_singleton n.last_ends]
  -- Nine bytes hold 63 bits whatever the last one is, and the tenth adds one more.
  rcases Nat.lt_or_ge n.marked.length 9 with hlen | hlen
  · have hprod : 128 ^ n.marked.length * n.last.toNat ≤ 128 ^ n.marked.length * 127 :=
      Nat.mul_le_mul_left _ (by omega)
    calc n.value = Varint.value n.marked + 128 ^ n.marked.length * n.last.toNat := hvalue
      _ < 128 ^ n.marked.length + 128 ^ n.marked.length * 127 :=
        Nat.add_lt_add_of_lt_of_le hmarked hprod
      _ = 128 ^ (n.marked.length + 1) := by ring
      _ ≤ 128 ^ 9 := Nat.pow_le_pow_right (by decide) hlen
      _ < 2 ^ 64 := by norm_num
  · have hnine : n.marked.length = 9 := Nat.le_antisymm n.length_le hlen
    have htenth := n.tenth hnine
    rw [hnine] at hvalue hmarked
    omega

theorem toNat_ofNat_value (n : Numeral) : (UInt64.ofNat n.value).toNat = n.value := by
  have := n.value_lt
  simp
  omega

end Numeral

namespace Varint

/-- A numeral at the front of a payload is read as its number. -/
theorem decode?_numeral (n : Numeral) (rest : List UInt8) :
    decode? (n.bytes ++ rest) = some (n.value, rest) := by
  have h := decodeWithin_marked rest n.marked_continues n.last_ends
    (Nat.succ_le_succ n.length_le) (fun hfull => n.tenth (by omega))
  simpa [decode?, Numeral.bytes, Numeral.value] using h

/-- Nothing but numerals is read. -/
theorem exists_numeral_of_decode? {bytes rest : List UInt8} {v : Nat}
    (h : decode? bytes = some (v, rest)) :
    ∃ n : Numeral, bytes = n.bytes ++ rest ∧ n.value = v := by
  obtain ⟨marked, last, rfl, hmarked, hlast, hroom, htight, rfl⟩ := marked_of_decodeWithin h
  exact ⟨⟨marked, last, hmarked, hlast, by omega, fun hnine => htight (by omega)⟩,
    by simp [Numeral.bytes], rfl⟩

/-- The shortest form of a number of 64 bits is a numeral. -/
theorem exists_numeral_encode {v : Nat} (h : v < 2 ^ 64) :
    ∃ n : Numeral, n.bytes = encode v ∧ n.value = v := by
  have hroom : v < 128 ^ (9 + 1) := lt_of_lt_of_le h (by norm_num)
  obtain ⟨marked, last, hbytes, hmarked, hlast, hlen, htop, hvalue⟩ := encode_eq_marked hroom
  refine ⟨⟨marked, last, hmarked, hlast, hlen, ?_⟩, hbytes.symm, hvalue.symm⟩
  intro hnine
  rw [htop, hnine]
  omega

end Varint
end SchemaCodec
