import Mathlib
import SchemaCodec.Proofs.Json.Scanning
import SchemaCodec.Proofs.Text.ByteOrder
import SchemaCodec.Text.Hex

/-!
# Proofs.Text.LooseHex — payloads written loosely

- `Spaced`: a text with blanks put in anywhere.
- `SpellsDigits`: a payload made of digits, with letters of either case, a mark and blanks.
- `DigitsOf`: the digits that are left of any payload.
- `ofHex_of_spells`: a payload made of the digits of bytes denotes these bytes.
- `ofHex_error_iff`: when a payload denotes nothing.

Digits are read from the bytes of a text. A character that is a digit is one byte
(`hexValue?_eq_none_iff`), and one that is no digit has a byte that is none either, so it does not
matter whether bytes or characters are counted.
-/

namespace SchemaCodec
namespace Text

/-! ## Blanks and marks -/

/-- A text with blanks put in anywhere. -/
inductive Spaced : List Char → List Char → Prop where
  | nil : Spaced [] []
  | blank {c : Char} {s t : List Char} (hc : isBlank c = true) (h : Spaced s t) : Spaced (c :: s) t
  | keep (c : Char) {s t : List Char} (h : Spaced s t) : Spaced (c :: s) (c :: t)

/-- What may stand in front of digits. -/
def radixMarks : List (List Char) :=
  [[], ['0', 'x'], ['0', 'X']]

/-- A payload made of digits: each letter in either case, a mark in front or none, and blanks
anywhere, inside the mark too. -/
def SpellsDigits (payload digits : List Char) : Prop :=
  ∃ mark ∈ radixMarks, ∃ recased,
    List.Forall₂ (fun d c => d = c ∨ d = c.toUpper) recased digits ∧
      Spaced payload (mark ++ recased)

/-- What is left of a text without one mark in front. -/
inductive Unmarked : List Char → List Char → Prop where
  | lower (digits : List Char) : Unmarked ('0' :: 'x' :: digits) digits
  | upper (digits : List Char) : Unmarked ('0' :: 'X' :: digits) digits
  | bare {digits : List Char} (hlower : ¬ ['0', 'x'] <+: digits)
      (hupper : ¬ ['0', 'X'] <+: digits) : Unmarked digits digits

/-- The digits of a payload: what is left of it without blanks and without one mark in front. -/
def DigitsOf (payload digits : List Char) : Prop :=
  ∃ plain, Spaced payload plain ∧ (∀ c ∈ plain, isBlank c = false) ∧ Unmarked plain digits

section Blanks

variable {s t digits : List Char}

theorem Spaced.compact_eq (h : Spaced s t) : compact s = compact t := by
  induction h with
  | nil => rfl
  | blank hc _ ih => rw [compact, List.filter_cons_of_neg (by simp [hc]), ← compact, ih]
  | keep c _ ih =>
    rw [compact, compact, List.filter_cons, List.filter_cons, ← compact, ← compact, ih]

theorem compact_eq_self (h : ∀ c ∈ s, isBlank c = false) : compact s = s := by
  refine List.filter_eq_self.2 fun c hc => ?_
  rw [h c hc]
  rfl

theorem spaced_compact (s : List Char) : Spaced s (compact s) := by
  induction s with
  | nil => exact .nil
  | cons c s ih =>
    cases hc : isBlank c with
    | true =>
      rw [compact, List.filter_cons_of_neg (by simp [hc]), ← compact]
      exact .blank hc ih
    | false =>
      rw [compact, List.filter_cons_of_pos (by simp [hc]), ← compact]
      exact .keep c ih

theorem not_blank_of_mem_compact {c : Char} (h : c ∈ compact s) : isBlank c = false := by
  simpa using (List.mem_filter.1 h).2

theorem unmarked_payloadDigits (s : List Char) : Unmarked (compact s) (payloadDigits s) := by
  unfold payloadDigits
  split
  next digits h =>
    rw [h]
    exact .lower digits
  next digits h =>
    rw [h]
    exact .upper digits
  next hlower hupper =>
    refine .bare ?_ ?_
    · rintro ⟨rest, hrest⟩
      exact hlower rest hrest.symm
    · rintro ⟨rest, hrest⟩
      exact hupper rest hrest.symm

theorem Unmarked.payloadDigits_eq (h : Unmarked (compact s) digits) :
    payloadDigits s = digits := by
  unfold payloadDigits
  generalize compact s = plain at h
  cases h with
  | lower => rfl
  | upper => rfl
  | bare hlower hupper =>
    split
    next rest => exact absurd ⟨rest, rfl⟩ hlower
    next rest => exact absurd ⟨rest, rfl⟩ hupper
    next => rfl

theorem digitsOf_iff : DigitsOf s digits ↔ payloadDigits s = digits := by
  constructor
  · rintro ⟨plain, hspaced, hblank, hunmarked⟩
    have hplain : compact s = plain := hspaced.compact_eq.trans (compact_eq_self hblank)
    exact Unmarked.payloadDigits_eq (hplain ▸ hunmarked)
  · rintro rfl
    exact ⟨compact s, spaced_compact s, fun c hc => not_blank_of_mem_compact hc,
      unmarked_payloadDigits s⟩

end Blanks

/-! ## Digits -/

/-- The hexadecimal digits, in either case. -/
def hexLetters : List Char :=
  ['0', '1', '2', '3', '4', '5', '6', '7', '8', '9', 'a', 'b', 'c', 'd', 'e', 'f', 'A', 'B', 'C',
    'D', 'E', 'F']

theorem le_of_hexValue? {n : Nat} (h : hexValue? n ≠ none) : n ≤ 127 := by
  by_contra hlarge
  refine h ?_
  rw [hexValue?, if_neg (by omega), if_neg (by omega), if_neg (by omega)]

theorem hexValue?_eq_none_iff (c : Char) : hexValue? c.toNat = none ↔ c ∉ hexLetters := by
  have hletters : ∀ d ∈ hexLetters, (hexValue? d.toNat).isSome = true :=
    List.all_eq_true.1 (by decide)
  -- Nothing beyond ASCII has a value, so there are finitely many codes to look at.
  have hnumbers : ∀ n ≤ 127, (hexValue? n).isSome = true → Char.ofNat n ∈ hexLetters := by
    decide +kernel
  constructor
  · intro hnone hmem
    exact Option.isSome_iff_ne_none.1 (hletters c hmem) hnone
  · intro hmem
    by_contra hsome
    have hletter := hnumbers c.toNat (le_of_hexValue? hsome) (Option.isSome_iff_ne_none.2 hsome)
    rw [Char.ofNat_toNat] at hletter
    exact hmem hletter

/-- Either case of a digit has its value. -/
theorem hexValue?_of_recased {n : Nat} (hn : n < 16) {d : Char}
    (h : d = hexDigit n ∨ d = (hexDigit n).toUpper) : hexValue? d.toNat = some n := by
  have hupper : ∀ n < 16, hexValue? (hexDigit n).toUpper.toNat = some n := by decide
  rcases h with rfl | rfl
  · exact Document.hexValue?_hexDigit n hn
  · exact hupper n hn

/-- A character that is a digit is one byte. -/
theorem encodeChar_of_le {c : Char} (h : c.toNat ≤ 127) :
    String.utf8EncodeChar c = [UInt8.ofNat c.toNat] := by
  have hval : c.val.toNat ≤ 127 := h
  rw [String.utf8EncodeChar, if_pos hval]
  rfl

/-- A character of several bytes begins with none of ASCII. -/
theorem exists_byte_of_lt {c : Char} (h : 127 < c.toNat) :
    ∃ b ∈ String.utf8EncodeChar c, 127 < b.toNat := by
  have hval : ¬ c.val.toNat ≤ 127 := Nat.not_le.2 h
  rw [String.utf8EncodeChar, if_neg hval]
  split
  next =>
    refine ⟨_, List.mem_cons_self, ?_⟩
    rw [UInt8.toNat_ofNat']
    omega
  next =>
    split
    next =>
      refine ⟨_, List.mem_cons_self, ?_⟩
      rw [UInt8.toNat_ofNat']
      omega
    next =>
      refine ⟨_, List.mem_cons_self, ?_⟩
      rw [UInt8.toNat_ofNat']
      omega

section Bytes

variable {cs : List Char} {bytes : List UInt8}

theorem utf8_ofList (cs : List Char) :
    utf8 (String.ofList cs) = cs.flatMap String.utf8EncodeChar := by
  rw [utf8_eq_flatMap, String.toList_ofList]

/-- Digits are bytes one by one. -/
theorem utf8_of_hexLetters (h : ∀ c ∈ cs, hexValue? c.toNat ≠ none) :
    utf8 (String.ofList cs) = cs.map fun c => UInt8.ofNat c.toNat := by
  have hbytes : ∀ c ∈ cs, String.utf8EncodeChar c = [UInt8.ofNat c.toNat] :=
    fun c hc => encodeChar_of_le (le_of_hexValue? (h c hc))
  rw [utf8_ofList, List.flatMap_congr hbytes, List.map_eq_flatMap]

theorem toNat_of_hexValue? {c : Char} (h : hexValue? c.toNat ≠ none) :
    (UInt8.ofNat c.toNat).toNat = c.toNat := by
  have hle := le_of_hexValue? h
  rw [UInt8.toNat_ofNat']
  omega

/-- A character that is no digit has a byte that is none. -/
theorem exists_badByte {c : Char} (hc : c ∈ cs) (h : hexValue? c.toNat = none) :
    ∃ b ∈ utf8 (String.ofList cs), hexValue? b.toNat = none := by
  have hbyte : ∃ b ∈ String.utf8EncodeChar c, hexValue? b.toNat = none := by
    rcases Nat.lt_or_ge 127 c.toNat with hlarge | hsmall
    · obtain ⟨b, hb, hlt⟩ := exists_byte_of_lt hlarge
      refine ⟨b, hb, ?_⟩
      by_contra hvalue
      exact absurd (le_of_hexValue? hvalue) (Nat.not_le.2 hlt)
    · refine ⟨UInt8.ofNat c.toNat, ?_, ?_⟩
      · rw [encodeChar_of_le hsmall]
        exact List.mem_singleton_self _
      · rw [UInt8.toNat_ofNat', Nat.mod_eq_of_lt (by omega)]
        exact h
  obtain ⟨b, hb, hvalue⟩ := hbyte
  refine ⟨b, ?_, hvalue⟩
  rw [utf8_ofList]
  exact List.mem_flatMap.2 ⟨c, hc, hb⟩

/-- Pairs denote nothing exactly if one of their bytes is no digit. -/
theorem hexPairs_error_iff {position : Nat} {digits : List UInt8} (heven : digits.length % 2 = 0) :
    (∃ e, hexPairs position digits = .error e) ↔ ∃ b ∈ digits, hexValue? b.toNat = none := by
  fun_induction hexPairs position digits with
  | case1 position high low rest h l hlow hhigh ih =>
    have hrest : rest.length % 2 = 0 := by
      simp only [List.length_cons] at heven
      omega
    -- This pair is good, so whatever is bad stands behind it.
    have hbad : (∃ b ∈ high :: low :: rest, hexValue? b.toNat = none) ↔
        ∃ b ∈ rest, hexValue? b.toNat = none := by
      simp [hhigh, hlow]
    rw [hbad, ← ih hrest]
    cases hexPairs (position + 2) rest with
    | ok bytes => simp [Except.map]
    | error e => simp [Except.map]
  | case2 position high low rest h hlow hhigh => exact iff_of_true ⟨_, rfl⟩ ⟨low, by simp, hlow⟩
  | case3 position high low rest hhigh => exact iff_of_true ⟨_, rfl⟩ ⟨high, by simp, hhigh⟩
  | case4 digits position hshort =>
    match digits with
    | [] => simp
    | [b] => cases heven
    | high :: low :: rest => exact (hshort high low rest rfl).elim

theorem length_hexDigits (bytes : List UInt8) : (hexDigits bytes).length = 2 * bytes.length := by
  rw [hexDigits, List.length_flatMap]
  simp
  omega

/-- The digits of bytes are read as these bytes, letters in either case. -/
theorem hexPairs_of_recased (position : Nat)
    (h : List.Forall₂ (fun d c => d = c ∨ d = c.toUpper) cs (hexDigits bytes)) :
    (∀ c ∈ cs, hexValue? c.toNat ≠ none) ∧
      hexPairs position (cs.map fun c => UInt8.ofNat c.toNat) = .ok bytes := by
  induction bytes generalizing cs position with
  | nil =>
    rw [List.forall₂_nil_right_iff.1 h]
    exact ⟨nofun, rfl⟩
  | cons b bytes ih =>
    have h : List.Forall₂ (fun d c => d = c ∨ d = c.toUpper) cs
        (hexDigit (b.toNat / 16) :: hexDigit (b.toNat % 16) :: hexDigits bytes) := h
    obtain ⟨high, cs, hhigh, hcs, rfl⟩ := List.forall₂_cons_right_iff.1 h
    obtain ⟨low, rest, hlow, hrest, rfl⟩ := List.forall₂_cons_right_iff.1 hcs
    have hb := b.toNat_lt
    have hhigh := hexValue?_of_recased (show b.toNat / 16 < 16 by omega) hhigh
    have hlow := hexValue?_of_recased (show b.toNat % 16 < 16 by omega) hlow
    obtain ⟨hvalues, hpairs⟩ := ih (position + 2) hrest
    constructor
    · intro c hc
      rcases List.mem_cons.1 hc with rfl | hc
      · simp [hhigh]
      rcases List.mem_cons.1 hc with rfl | hc
      · simp [hlow]
      · exact hvalues c hc
    · have hbyte : UInt8.ofNat (16 * (b.toNat / 16) + b.toNat % 16) = b := by
        rw [Nat.div_add_mod, UInt8.ofNat_toNat]
      rw [List.map_cons, List.map_cons, hexPairs, toNat_of_hexValue? (by simp [hhigh]),
        toNat_of_hexValue? (by simp [hlow]), hhigh, hlow, hpairs]
      simp only [Except.map, hbyte]

end Bytes

/-! ## Payloads -/

theorem isBlank_of_hexValue? {c : Char} (h : hexValue? c.toNat ≠ none) : isBlank c = false := by
  have hletters : ∀ d ∈ hexLetters, isBlank d = false := by
    simpa using List.all_eq_true.1 (show (hexLetters.all fun d => !isBlank d) = true by decide)
  refine hletters c ?_
  by_contra hletter
  exact h ((hexValue?_eq_none_iff c).2 hletter)

theorem isBlank_of_mark {mark : List Char} (hmark : mark ∈ radixMarks) :
    ∀ c ∈ mark, isBlank c = false := by
  have hmarks : ∀ m ∈ radixMarks, (m.all fun c => !isBlank c) = true := by decide
  simpa using List.all_eq_true.1 (hmarks mark hmark)

/-- A mark is told from the digits behind it, since no digit is an `x`. -/
theorem unmarked_of_hexLetters {mark digits : List Char}
    (hmark : mark ∈ radixMarks) (h : ∀ c ∈ digits, hexValue? c.toNat ≠ none) :
    Unmarked (mark ++ digits) digits := by
  simp only [radixMarks, List.mem_cons, List.not_mem_nil, or_false] at hmark
  rcases hmark with rfl | rfl | rfl
  · refine .bare ?_ ?_
    · rintro ⟨rest, rfl⟩
      exact h 'x' (by simp) (by decide)
    · rintro ⟨rest, rfl⟩
      exact h 'X' (by simp) (by decide)
  · exact .lower digits
  · exact .upper digits

/-- A payload made of the digits of bytes denotes these bytes. -/
theorem ofHex_of_spells {payload : String} {bytes : List UInt8}
    (h : SpellsDigits payload.toList (hexDigits bytes)) : ofHex payload = .ok bytes := by
  obtain ⟨mark, hmark, recased, hrecased, hspaced⟩ := h
  obtain ⟨hvalues, hpairs⟩ := hexPairs_of_recased 0 hrecased
  have hblank : ∀ c ∈ mark ++ recased, isBlank c = false := by
    intro c hc
    rcases List.mem_append.1 hc with hc | hc
    · exact isBlank_of_mark hmark c hc
    · exact isBlank_of_hexValue? (hvalues c hc)
  have hdigits : DigitsOf payload.toList recased :=
    ⟨mark ++ recased, hspaced, hblank, unmarked_of_hexLetters hmark hvalues⟩
  have heven : ¬ (recased.map fun c => UInt8.ofNat c.toNat).length % 2 = 1 := by
    rw [List.length_map, hrecased.length_eq, length_hexDigits]
    omega
  rw [ofHex, digitsOf_iff.1 hdigits, utf8_of_hexLetters hvalues, ofHexDigits, if_neg heven]
  exact hpairs

theorem Spaced.blank_or_mem {s t : List Char} (h : Spaced s t) {c : Char} (hc : c ∈ s) :
    isBlank c = true ∨ c ∈ t := by
  induction h with
  | nil => exact absurd hc List.not_mem_nil
  | blank hblank _ ih =>
    rcases List.mem_cons.1 hc with rfl | hc
    · exact .inl hblank
    · exact ih hc
  | keep d _ ih =>
    rcases List.mem_cons.1 hc with rfl | hc
    · exact .inr List.mem_cons_self
    · exact (ih hc).imp_right (List.mem_cons_of_mem d)

/-- A payload made of digits does not look like an option. -/
theorem hyphen_not_mem {payload : List Char} {bytes : List UInt8}
    (h : SpellsDigits payload (hexDigits bytes)) : '-' ∉ payload := by
  obtain ⟨mark, hmark, recased, hrecased, hspaced⟩ := h
  have hmarks : ∀ m ∈ radixMarks, '-' ∉ m := by decide
  intro hmem
  rcases hspaced.blank_or_mem hmem with hblank | hmem
  · exact absurd hblank (by decide)
  rcases List.mem_append.1 hmem with hmem | hmem
  · exact hmarks mark hmark hmem
  · exact (hexPairs_of_recased 0 hrecased).1 '-' hmem (by decide)

/-- A payload denotes nothing exactly if its digits are odd in number or not all digits. -/
theorem ofHex_error_iff {payload : String} {digits : List Char}
    (h : DigitsOf payload.toList digits) :
    (∃ e, ofHex payload = .error e) ↔
      digits.length % 2 = 1 ∨ ∃ c ∈ digits, c ∉ hexLetters := by
  rw [ofHex, digitsOf_iff.1 h, ofHexDigits]
  by_cases hbad : ∃ c ∈ digits, c ∉ hexLetters
  · -- Whatever the count of bytes is, one of them is bad.
    refine iff_of_true ?_ (.inr hbad)
    obtain ⟨c, hc, hletter⟩ := hbad
    split
    next => exact ⟨_, rfl⟩
    next heven =>
      exact (hexPairs_error_iff (by omega)).2
        (exists_badByte hc ((hexValue?_eq_none_iff c).2 hletter))
  · -- All characters are digits, so there are as many bytes.
    have hvalues : ∀ c ∈ digits, hexValue? c.toNat ≠ none := fun c hc hnone =>
      hbad ⟨c, hc, (hexValue?_eq_none_iff c).1 hnone⟩
    rw [utf8_of_hexLetters hvalues, List.length_map, or_iff_left hbad]
    split
    next hodd => exact iff_of_true ⟨_, rfl⟩ hodd
    next heven =>
      refine iff_of_false ?_ heven
      rw [hexPairs_error_iff (by rw [List.length_map]; omega)]
      rintro ⟨b, hb, hnone⟩
      obtain ⟨c, hc, rfl⟩ := List.mem_map.1 hb
      rw [toNat_of_hexValue? (hvalues c hc)] at hnone
      exact hvalues c hc hnone

/-- Only one mark is taken away. -/
example : ofHex "0x 0x18" = .error (.badDigit 0x78 1) := by cbv

end Text
end SchemaCodec
