import Mathlib
import SchemaCodec.Json.Document
import SchemaCodec.Json.Printer
import SchemaCodec.Proofs.Numeric.Exact

/-!
# Proofs.Json.Scanning — strings and integers found in a text

- `Document.Delimited`: what may follow a value that stands in a text without blanks.
- `Document.string?_quote`: a quoted string is read back, whatever follows it.
- `Document.literal?_integer`: the digits of an integer are read back in front of a delimiter, and
  `Literal.number?_spelling` gives their number.

An escape is one character or one UTF-16 unit, and no unit that the printer writes is a surrogate.
So a string is read back character by character (`units?_escape`).
-/

namespace SchemaCodec

open Numeric (fitsInt64 fitsUInt64 isDigit ofDigits spanDigits)

namespace Document

/-- The end of a text, or a character that ends the value in front of it. -/
def Delimited : List Char → Prop
  | [] => True
  | c :: _ => c = ',' ∨ c = ']' ∨ c = '\x7d'

/-! ## Strings -/

/-- Anything below the surrogates is a character by itself, whatever follows it. -/
theorem decodeUnits_below {unit : Nat} (h : unit < 0xD800) (us : List (Nat ⊕ Char)) :
    decodeUnits (.inl unit :: us) = (decodeUnits us).map (Char.ofNat unit :: ·) := by
  have hhigh : ¬ (0xD800 ≤ unit ∧ unit < 0xDC00) := by omega
  have hlow : ¬ (0xDC00 ≤ unit ∧ unit < 0xE000) := by omega
  have hsurrogate : ¬ (0xD800 ≤ unit ∧ unit < 0xE000) := by omega
  match us with
  | [] => simp [decodeUnits, hsurrogate]
  | .inl low :: rest => rw [decodeUnits, if_neg hhigh, if_neg hlow]
  | .inr c :: rest => simp [decodeUnits, hsurrogate]

theorem hexValue?_hexDigit : ∀ n < 16, Text.hexValue? (Text.hexDigit n).toNat = some n := by
  decide

/-- A control character is written as its number in four digits. -/
theorem hex4?_hexDigit {n : Nat} (h : n < 0x20) :
    hex4? '0' '0' (Text.hexDigit (n / 16)) (Text.hexDigit (n % 16)) = some n := by
  have hzero : Text.hexValue? '0'.toNat = some 0 := by decide
  have hhigh := hexValue?_hexDigit (n / 16) (by omega)
  have hlow := hexValue?_hexDigit (n % 16) (by omega)
  rw [hex4?, hzero, hhigh, hlow]
  simp
  omega

/-- A character is written as a short escape, as its number, or as itself. -/
theorem escape_cases (c : Char) :
    (∃ letter, letter ≠ 'u' ∧ shortEscape? letter = some c ∧ Json.escape c = ['\\', letter]) ∨
    (c.toNat < 0x20 ∧ Json.escape c =
      ['\\', 'u', '0', '0', Text.hexDigit (c.toNat / 16), Text.hexDigit (c.toNat % 16)]) ∨
    (c ≠ '"' ∧ c ≠ '\\' ∧ ¬ c.toNat < 0x20 ∧ Json.escape c = [c]) := by
  unfold Json.escape
  split_ifs with hshort hshort hshort hshort hshort hshort hshort hcontrol
  -- Seven characters have a short escape.
  iterate 7 exact .inl ⟨_, by decide, by rw [hshort]; rfl, rfl⟩
  · exact .inr (.inl ⟨hcontrol, rfl⟩)
  · exact .inr (.inr ⟨by assumption, by assumption, hcontrol, rfl⟩)

/-- What the printer writes for a character is read as one unit, which stands for that character. -/
theorem units?_escape (c : Char) (rest : List Char) :
    ∃ u, units? (Json.escape c ++ rest) = (units? rest).map (fun (us, rest) => (u :: us, rest)) ∧
      ∀ us, decodeUnits (u :: us) = (decodeUnits us).map (c :: ·) := by
  rcases escape_cases c with ⟨letter, hletter, hshort, htext⟩ | ⟨hcontrol, htext⟩ |
    ⟨hquote, hbackslash, hcontrol, htext⟩
  · refine ⟨.inr c, ?_, fun _ => rfl⟩
    rw [htext, List.cons_append, List.singleton_append, units?]
    · simp [hshort]
    · rintro a b c d rest rfl
      exact absurd rfl hletter
  · refine ⟨.inl c.toNat, ?_, ?_⟩
    · simp [htext, units?, hex4?_hexDigit hcontrol]
    · intro us
      rw [decodeUnits_below (by omega), Char.ofNat_toNat]
  · refine ⟨.inr c, ?_, fun _ => rfl⟩
    rw [htext, List.singleton_append, units?]
    · simp [hcontrol]
    all_goals simp_all

/-- A quoted string is read back, whatever follows it. -/
theorem string?_quote (s : String) (rest : List Char) :
    string? (s.toList.flatMap Json.escape ++ '"' :: rest) = some (some s, rest) := by
  have hunits : ∀ cs : List Char, ∃ us,
      units? (cs.flatMap Json.escape ++ '"' :: rest) = some (us, rest) ∧
        decodeUnits us = some cs := by
    intro cs
    induction cs with
    | nil => exact ⟨[], by simp [units?], rfl⟩
    | cons c cs ih =>
      rcases ih with ⟨us, hread, hdecoded⟩
      rcases units?_escape c (cs.flatMap Json.escape ++ '"' :: rest) with ⟨u, hfirst, hchar⟩
      refine ⟨u :: us, ?_, ?_⟩
      · rw [List.flatMap_cons, List.append_assoc, hfirst, hread]
        rfl
      · rw [hchar, hdecoded]
        rfl
  rcases hunits s.toList with ⟨us, hread, hdecoded⟩
  simp [string?, hread, hdecoded]

/-! ## Integers -/

theorem not_isDigit_of_delimited {rest : List Char} (h : Delimited rest) :
    rest.takeWhile isDigit = [] ∧ rest.dropWhile isDigit = rest := by
  match rest with
  | [] => exact ⟨rfl, rfl⟩
  | c :: rest =>
    have hdigit : isDigit c = false := by
      rcases h with rfl | rfl | rfl <;> decide
    simp [hdigit]

/-- The digits of a number are the run of digits in front of a delimiter. -/
theorem spanDigits_toDigits (n : Nat) {rest : List Char} (h : Delimited rest) :
    spanDigits (Nat.toDigits 10 n ++ rest) = (Nat.toDigits 10 n, rest) := by
  have hdigits : ∀ c ∈ Nat.toDigits 10 n, isDigit c = true :=
    fun c hc => Numeric.isDigit_of_mem_toDigits hc
  rcases not_isDigit_of_delimited h with ⟨htake, hdrop⟩
  rw [spanDigits, List.takeWhile_append_of_pos hdigits, List.dropWhile_append_of_pos hdigits,
    htake, hdrop, List.append_nil]

/-- Only zero is written with a zero in front. -/
theorem toDigits_of_zero_front {n : Nat} {ds : List Char} (h : Nat.toDigits 10 n = '0' :: ds) :
    ds = [] := by
  induction n using Nat.strong_induction_on generalizing ds with
  | _ n ih =>
    by_cases hsmall : n < 10
    · rw [Nat.toDigits_of_lt_base hsmall] at h
      exact (List.cons.inj h).2.symm
    · rw [Nat.toDigits_of_base_le (by decide) (by omega)] at h
      rcases List.append_eq_cons_iff.1 h with ⟨hnil, -⟩ | ⟨front, hfront, hds⟩
      · exact absurd hnil Nat.toDigits_ne_nil
      · -- Without its last digit the number is zero, so it had only that digit.
        have hnil := ih (n / 10) (by omega) hfront
        have hzero : n / 10 = 0 := by
          rw [← Numeric.ofDigits_toDigits (n / 10), hfront, hnil]
          rfl
        omega

/-- A number has one digit or more. -/
theorem exists_toDigits_cons (n : Nat) :
    ∃ d ds, Nat.toDigits 10 n = d :: ds ∧ isDigit d = true := by
  rcases List.exists_cons_of_ne_nil (Nat.toDigits_ne_nil (n := n) (b := 10)) with ⟨d, ds, hdigits⟩
  exact ⟨d, ds, hdigits, Numeric.isDigit_of_mem_toDigits (hdigits ▸ List.mem_cons_self)⟩

theorem whole?_toDigits (n : Nat) {rest : List Char} (h : Delimited rest) :
    whole? (Nat.toDigits 10 n ++ rest) = some (Nat.toDigits 10 n, rest) := by
  have hspan := spanDigits_toDigits n h
  rcases exists_toDigits_cons n with ⟨d, ds, hdigits, -⟩
  rw [hdigits] at hspan ⊢
  rw [whole?, hspan]
  -- A zero in front has to be the only digit.
  by_cases hzero : d = '0'
  · subst hzero
    obtain rfl : ds = [] := toDigits_of_zero_front hdigits
    rfl
  · split <;> simp_all

/-- No delimiter starts a fraction or an exponent. -/
theorem fraction?_exponent?_delimited {rest : List Char} (h : Delimited rest) :
    fraction? rest = some (none, rest) ∧ exponent? rest = some (none, rest) := by
  match rest with
  | [] => exact ⟨rfl, rfl⟩
  | c :: rest => rcases h with rfl | rfl | rfl <;> exact ⟨rfl, rfl⟩

/-- An integer is written as its digits, with a sign in front if it is negative. -/
theorem literal_integer (n : Int) :
    (Number.integer n).literal.toList =
      (if n < 0 then ['-'] else []) ++ Nat.toDigits 10 n.natAbs := by
  have hrepr : (Number.integer n).literal = n.repr := Int.toString_eq_repr
  rw [hrepr, Int.repr_eq_if]
  by_cases hneg : n < 0
  · have habs : (-n).toNat = n.natAbs := by omega
    rw [if_neg (by omega), if_pos hneg, String.toList_append, Nat.toList_repr, habs]
    rfl
  · have habs : n.toNat = n.natAbs := by omega
    rw [if_pos (by omega), if_neg hneg, Nat.toList_repr, habs]
    rfl

/-- The text of an integer starts with a sign or a digit. -/
theorem literal_integer_front (n : Int) :
    ∃ c cs, (Number.integer n).literal.toList = c :: cs ∧ (c = '-' ∨ isDigit c = true) := by
  rw [literal_integer]
  by_cases hneg : n < 0
  · exact ⟨'-', Nat.toDigits 10 n.natAbs, by simp [hneg], .inl rfl⟩
  · rcases exists_toDigits_cons n.natAbs with ⟨d, ds, hdigits, hdigit⟩
    exact ⟨d, ds, by simp [hneg, hdigits], .inr hdigit⟩

/-- The spelling of an integer. -/
def spelling (n : Int) : Literal :=
  ⟨decide (n < 0), Nat.toDigits 10 n.natAbs, none, none⟩

/-- The digits of an integer are read back in front of a delimiter. -/
theorem literal?_integer (n : Int) {rest : List Char} (h : Delimited rest) :
    literal? ((Number.integer n).literal.toList ++ rest) = some (spelling n, rest) := by
  have hwhole := whole?_toDigits n.natAbs h
  rcases fraction?_exponent?_delimited h with ⟨hfraction, hexponent⟩
  rw [literal_integer]
  by_cases hneg : n < 0
  · simp [literal?, spelling, hneg, hwhole, hfraction, hexponent]
  · rcases exists_toDigits_cons n.natAbs with ⟨d, ds, hdigits, hdigit⟩
    have hsign : d ≠ '-' := by
      rintro rfl
      exact absurd hdigit (by decide)
    rw [hdigits, List.cons_append] at hwhole
    simp [literal?, spelling, hneg, hsign, hdigits, hwhole, hfraction, hexponent]

end Document

/-- The spelling of an integer of 64 bits denotes that integer. -/
theorem Literal.number?_spelling {n : Int} (h : fitsInt64 n = true ∨ fitsUInt64 n = true) :
    (Document.spelling n).number? = some (.integer n) := by
  unfold number?
  by_cases hneg : n < 0
  · have hvalue : Numeric.Binary64.signed true n.natAbs = n := by
      rw [Numeric.Binary64.signed, if_pos rfl]
      omega
    have hsigned : fitsInt64 n = true := by
      refine h.resolve_right ?_
      simp [fitsUInt64, hneg]
    have hpos : 0 < n.natAbs := by omega
    simp [Document.spelling, Numeric.ofDigits_toDigits, hneg, hvalue, hsigned, hpos]
  · have hvalue : Numeric.Binary64.signed false n.natAbs = n := by
      rw [Numeric.Binary64.signed, if_neg Bool.false_ne_true]
      omega
    have hunsigned : fitsUInt64 n = true := by
      simp only [fitsInt64, fitsUInt64, Bool.and_eq_true, decide_eq_true_eq] at h ⊢
      omega
    simp [Document.spelling, Numeric.ofDigits_toDigits, hneg, hvalue, hunsigned]

end SchemaCodec
