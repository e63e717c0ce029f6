import Mathlib
import SchemaCodec.Proofs.Json.RoundTrip
import SchemaCodec.Proofs.Numeric.Rounding
import SchemaCodec.Proofs.Projection.Typing

/-!
# Proofs.Projection.Integers — integers that are read loosely

- `Literal.integer`: the integer of a sign and the digits before the point.
- `Json.SpellsInteger`, `Json.SpellsSigned`: the values that spell an integer as an integer.
- `Json.SpellsInteger.of_parse?`: a text of a sign and digits is such a value, if it has one.
- `Coercion.toOption_int32_loose`, `Coercion.toOption_uint64_loose`: what a loose reading makes of
  them.

A loose reading may go through a double, and doubles do not keep integers of more than 53 bits. The
integers that it may give back were never doubles, or are small enough (`Binary64.Near`). So the
reading is exact, and bounded as the integers are (`FieldSource.integers_are_not_rounded`).
-/

namespace SchemaCodec

open Numeric (Binary64 fitsInt32 fitsUInt64 isDigit ofDigits)

/-! ## Spellings -/

/-- The integer that the sign and the digits before the point denote. -/
def Literal.integer (l : Literal) : Int :=
  Binary64.signed l.negative (ofDigits l.whole)

/-- The values that spell an integer: texts of digits with an optional plus sign and blanks around
them, and numbers whose literal has neither point nor exponent. -/
inductive Json.SpellsInteger : Json → Int → Prop where
  | text (s : String) (n : Nat) (h : Numeric.Unsigned (Text.trim s.toList) n) :
      Json.SpellsInteger (.string s) n
  | literal (l : Literal) (v : Json) (hfraction : l.fraction = none) (hexponent : l.exponent = none)
      (haccepted : (Document.number l).value? = some v) :
      Json.SpellsInteger v l.integer

/-- The same values, and texts with a minus sign. -/
inductive Json.SpellsSigned : Json → Int → Prop where
  | unsigned {v : Json} {n : Int} (h : Json.SpellsInteger v n) : Json.SpellsSigned v n
  | minus (s : String) (ds : List Char) (hne : ds ≠ []) (hdigits : ∀ c ∈ ds, isDigit c = true)
      (htrim : Text.trim s.toList = '-' :: ds) :
      Json.SpellsSigned (.string s) (Binary64.signed true (ofDigits ds))

namespace Document

/-- A sign and digits are one literal, or none where a zero stands in front of other digits. -/
theorem literal?_digits {negative : Bool} {ds : List Char} (hdigits : ∀ c ∈ ds, isDigit c = true)
    {l : Literal} {rest : List Char}
    (h : literal? ((if negative then ['-'] else []) ++ ds) = some (l, rest)) :
    l = ⟨negative, ds, none, none⟩ := by
  have hwhole : whole? ds = none ∨ whole? ds = some (ds, []) := by
    rw [whole?, Numeric.spanDigits_of_digits hdigits]
    split <;> simp_all
  have hsign : ∀ cs, ds ≠ '-' :: cs := by
    rintro cs rfl
    exact absurd (hdigits '-' List.mem_cons_self) (by decide)
  rcases hwhole with hwhole | hwhole
  · cases negative <;> simp_all [literal?]
  · cases negative <;> simp_all [literal?, fraction?, exponent?]

end Document

/-- A text that is a literal of an integer spells it, as the parser reads the text. -/
theorem Json.SpellsInteger.of_parse? {text : String} {negative : Bool} {ds : List Char} {v : Json}
    (htext : text.toList = (if negative then ['-'] else []) ++ ds)
    (hdigits : ∀ c ∈ ds, isDigit c = true) (hparse : Json.parse? text = some v) :
    Json.SpellsInteger v (Binary64.signed negative (ofDigits ds)) := by
  have hfront : ∀ c cs, text.toList = c :: cs → c = '-' ∨ isDigit c = true := by
    intro c cs hcs
    have hmem : c ∈ (if negative then ['-'] else []) ++ ds := by
      rw [← htext, hcs]
      exact List.mem_cons_self
    rcases List.mem_append.1 hmem with hsign | hdigit
    · cases negative <;> simp_all
    · exact .inr (hdigits c hdigit)
  rw [Json.parse?, Document.parse?] at hparse
  cases hcs : text.toList with
  | nil =>
    rw [hcs] at hparse
    cases hparse
  | cons c cs =>
    have hread := Document.value_number (hfront c cs hcs) (2 * text.toList.length + 1) cs
    rw [← hcs, htext] at hread
    cases hliteral : Document.literal? ((if negative then ['-'] else []) ++ ds) with
    | none => simp_all
    | some p =>
      obtain ⟨l, rest⟩ := p
      obtain rfl := Document.literal?_digits hdigits hliteral
      rw [htext, hread, hliteral] at hparse
      dsimp only [Option.map_some] at hparse
      split at hparse
      next d hd =>
        obtain ⟨-, hd⟩ := Option.ite_none_right_eq_some.1 hd
        obtain rfl := Option.some.inj hd
        exact .literal ⟨negative, ds, none, none⟩ v rfl rfl hparse
      next => cases hparse

/-! ## Bounds -/

namespace Coercion

variable {n : Int}

theorem toUInt64?_toNat (u : UInt64) : toUInt64? u.toNat = some u :=
  toUInt64?_iff (x := .integer u.toNat).2 rfl

theorem toInt32?_eq_some_iff {i : Int32} : toInt32? n = some i ↔ n = i.toInt := by
  constructor
  · intro h
    have hfits := toInt32?_eq_some h
    rw [toInt32?, if_pos hfits, Option.some.injEq] at h
    simp only [fitsInt32, Bool.and_eq_true, decide_eq_true_eq] at hfits
    rw [← h, Int32.toInt_ofInt_of_le (by omega) (by omega)]
  · rintro rfl
    have hlow := i.le_toInt
    have hhigh := i.toInt_lt
    have hfits : fitsInt32 i.toInt = true := by
      simp only [fitsInt32, Bool.and_eq_true, decide_eq_true_eq]
      omega
    rw [toInt32?, if_pos hfits, Int32.ofInt_toInt]

theorem toUInt64?_of_outside (h : n < 0 ∨ 2 ^ 64 ≤ n) : toUInt64? n = none := by
  refine if_neg ?_
  simp only [fitsUInt64, Bool.and_eq_true, decide_eq_true_eq]
  omega

theorem toInt32?_of_outside (h : n < -2 ^ 31 ∨ 2 ^ 31 ≤ n) : toInt32? n = none := by
  refine if_neg ?_
  simp only [fitsInt32, Bool.and_eq_true, decide_eq_true_eq]
  omega

theorem le_or_le_of_toUInt64? (h : toUInt64? n = none) : n ≤ 0 ∨ 2 ^ 64 ≤ n := by
  by_contra hfits
  have hsome : fitsUInt64 n = true := by
    simp only [fitsUInt64, Bool.and_eq_true, decide_eq_true_eq]
    omega
  rw [toUInt64?, if_pos hsome] at h
  cases h

end Coercion

/-! ## Numbers -/

/-- The number of an integer literal is that integer, or a double where 64 bits do not hold the
integer or a sign would be lost. -/
theorem Literal.number?_integer {l : Literal} {x : Number} (hfraction : l.fraction = none)
    (hexponent : l.exponent = none) (h : l.number? = some x) :
    x = .integer l.integer ∨
      ∃ y, x = .double y ∧ y.Near l.integer ∧ (l.integer ≤ 0 ∨ 2 ^ 64 ≤ l.integer) := by
  have hnear := Binary64.ofScientific_near l.negative (ofDigits l.whole)
  unfold number? at h
  extract_lets n i isInteger fraction y at h
  have hy : y = Binary64.ofScientific l.negative n 0 := by
    simp [y, fraction, hfraction, hexponent, n]
  by_cases hinteger : isInteger = true
  · rw [if_pos hinteger] at h
    exact .inl (Option.some.inj h).symm
  · rw [if_neg hinteger] at h
    refine .inr ⟨y, ?_, hy ▸ hnear, ?_⟩
    · cases hfinite : y with
      | finite s m q =>
        rw [hfinite] at h
        exact (Option.some.inj h).symm
      | infinite s =>
        rw [hfinite] at h
        cases h
    · rw [Literal.integer]
      cases hnegative : l.negative with
      | true =>
        refine .inl ?_
        simp [Binary64.signed]
      | false =>
        -- Without a sign only the size can be the reason for a double.
        refine .inr ?_
        have hsize : ¬ fitsUInt64 (ofDigits l.whole) = true := by
          simpa [isInteger, i, n, hfraction, hexponent, hnegative, Binary64.signed] using hinteger
        simp only [fitsUInt64, Bool.and_eq_true, decide_eq_true_eq] at hsize
        simp only [Binary64.signed, Bool.false_eq_true, if_false]
        omega

namespace Numeric.Binary64.Near

variable {x : Binary64} {i : Int}

/-! ## Doubles -/

/-- The double of an integer is a signed 32-bit integer exactly if the integer is. -/
theorem bind_toInt32? (h : x.Near i) : x.trunc.bind Coercion.toInt32? = Coercion.toInt32? i := by
  by_cases hsmall : i.natAbs < 2 ^ 53
  · rw [h.exact hsmall]
    rfl
  · have hnone : ∀ j : Int, 2 ^ 53 ≤ j.natAbs → Coercion.toInt32? j = none :=
      fun j hj => Coercion.toInt32?_of_outside (by omega)
    rw [hnone i (Nat.le_of_not_lt hsmall)]
    cases hj : x.trunc with
    | none => rfl
    | some j => exact hnone j (h.large 53 (le_refl _) (Nat.le_of_not_lt hsmall) j hj).1

/-- The double of an integer is an unsigned 64-bit integer exactly if the integer is, apart from
those that may be rounded. -/
theorem bind_toUInt64? (h : x.Near i) (hexact : i ≤ 0 ∨ 2 ^ 64 ≤ i) :
    x.trunc.bind Coercion.toUInt64? = Coercion.toUInt64? i := by
  by_cases hsmall : i.natAbs < 2 ^ 53
  · rw [h.exact hsmall]
    rfl
  · rw [Coercion.toUInt64?_of_outside (by omega)]
    cases hj : x.trunc with
    | none => rfl
    | some j =>
      refine Coercion.toUInt64?_of_outside ?_
      by_cases hneg : i < 0
      · exact .inl ((h.large 53 (le_refl _) (by omega) j hj).2.2 hneg)
      · have hlarge := h.large 64 (by decide) (by omega) j hj
        omega

end Numeric.Binary64.Near

/-! ## Coercions -/

namespace Coercion

variable {v : Json} {n : Int} {s : String}

theorem eq_ok_of_toOption {α : Type} {r : Except Mismatch α} {a : α} (h : r.toOption = some a) :
    r = .ok a := by
  cases r with
  | ok b => exact congrArg Except.ok (Option.some.inj h)
  | error m => cases h

theorem exists_error_of_toOption {α : Type} {r : Except Mismatch α} (h : r.toOption = none) :
    ∃ m, r = .error m := by
  cases r with
  | ok b => cases h
  | error m => exact ⟨m, rfl⟩

theorem toOption_truncInt32 (x : Binary64) : (truncInt32 x).toOption = x.trunc.bind toInt32? := by
  rw [truncInt32]
  cases x.trunc.bind toInt32? <;> rfl

theorem toOption_truncUInt64 (x : Binary64) :
    (truncUInt64 x).toOption = x.trunc.bind toUInt64? := by
  rw [truncUInt64]
  cases x.trunc.bind toUInt64? <;> rfl

/-- A text of a sign and digits is read as the double of its integer. -/
theorem numeric_digits {negative : Bool} {ds : List Char}
    (hsplit : Binary64.splitSign (Text.trim s.toList) = (negative, ds)) (hne : ds ≠ [])
    (hdigits : ∀ c ∈ ds, isDigit c = true) :
    ∃ x, numeric s = .ok x ∧ x.Near (Binary64.signed negative (ofDigits ds)) := by
  refine ⟨_, ?_, Binary64.ofScientific_near negative (ofDigits ds)⟩
  have hnonempty : (Text.trim s.toList).isEmpty = false := by
    rw [List.isEmpty_eq_false_iff]
    intro hnil
    rw [hnil] at hsplit
    exact hne (Prod.mk.inj hsplit).2.symm
  rw [numeric, Binary64.parse?_digits hsplit hne hdigits]
  simp [hnonempty]

theorem numeric_unsigned {k : Nat} (h : Numeric.Unsigned (Text.trim s.toList) k) :
    ∃ x, numeric s = .ok x ∧ x.Near k := by
  generalize htrim : Text.trim s.toList = cs at h
  cases h with
  | plain ds hne hdigits =>
    have hsplit : Binary64.splitSign (Text.trim s.toList) = (false, cs) := by
      rw [htrim]
      exact Binary64.splitSign_of_digits hdigits
    exact numeric_digits hsplit hne hdigits
  | signed ds hne hdigits =>
    have hsplit : Binary64.splitSign (Text.trim s.toList) = (false, ds) := by
      rw [htrim]
      rfl
    exact numeric_digits hsplit hne hdigits

theorem toOption_int32_number {x : Number} (h : x.toBinary64.Near n) :
    (loose.int32 (.number x)).toOption = toInt32? n :=
  (toOption_truncInt32 _).trans h.bind_toInt32?

theorem toOption_int32_text (h : ∃ x, numeric s = .ok x ∧ x.Near n) :
    (loose.int32 (.string s)).toOption = toInt32? n := by
  obtain ⟨x, hx, hnear⟩ := h
  rw [int32, hx]
  exact (toOption_truncInt32 x).trans hnear.bind_toInt32?

/-- Loosely, an integer is read as itself if it is a signed 32-bit one, and not at all otherwise. -/
theorem toOption_int32_loose (h : Json.SpellsSigned v n) :
    (loose.int32 v).toOption = toInt32? n := by
  cases h with
  | unsigned h =>
    cases h with
    | text s k h => exact toOption_int32_text (numeric_unsigned h)
    | literal l v hfraction hexponent haccepted =>
      obtain ⟨x, hx, rfl⟩ := Option.map_eq_some_iff.1 haccepted
      rcases l.number?_integer hfraction hexponent hx with rfl | ⟨y, rfl, hnear, -⟩
      · exact toOption_int32_number (Binary64.ofInt_near _)
      · exact toOption_int32_number hnear
  | minus s ds hne hdigits htrim =>
    refine toOption_int32_text (numeric_digits ?_ hne hdigits)
    rw [htrim]
    rfl

/-- Loosely, an integer is read as itself if it is an unsigned 64-bit one, and not at all
otherwise. -/
theorem toOption_uint64_loose (h : Json.SpellsInteger v n) :
    (loose.uint64 v).toOption = toUInt64? n := by
  cases h with
  | text s k h =>
    have hread : Numeric.uint64? (Text.trim s.toList) = toUInt64? k := by
      rw [Numeric.uint64?, Numeric.unsigned?_eq_some_iff.2 h]
      rfl
    rw [uint64, hread]
    cases hfits : toUInt64? k with
    | some u => rfl
    | none =>
      -- Digits that do not fit do not fit as a double either.
      obtain ⟨x, hx, hnear⟩ := numeric_unsigned h
      have hbig := hnear.bind_toUInt64? (le_or_le_of_toUInt64? hfits)
      rw [hx]
      exact (toOption_truncUInt64 x).trans (hbig.trans hfits)
  | literal l v hfraction hexponent haccepted =>
    obtain ⟨x, hx, rfl⟩ := Option.map_eq_some_iff.1 haccepted
    rcases l.number?_integer hfraction hexponent hx with rfl | ⟨y, rfl, hnear, hexact⟩
    · have hread : (Number.integer l.integer).toUInt64? = toUInt64? l.integer := rfl
      rw [uint64, hread]
      cases hfits : toUInt64? l.integer with
      | some u => rfl
      | none =>
        have hbig := (Binary64.ofInt_near _).bind_toUInt64? (le_or_le_of_toUInt64? hfits)
        exact (toOption_truncUInt64 _).trans (hbig.trans hfits)
    · exact (toOption_truncUInt64 y).trans (hnear.bind_toUInt64? hexact)

end Coercion

/-! ## Fields -/

namespace FieldSource

/-- Integers that are spelled as integers are never rounded by a loose reading. As an unsigned
64-bit number one is read as itself, or refused with itself where the range does not accept it; as a
signed 32-bit number it is read as itself. What the bits do not hold is no number of the kind. -/
theorem integers_are_not_rounded (σ : Schema) (src : FieldSource) (hloose : src.coercion = .loose)
    (key : String) :
    (∀ v n, Json.SpellsInteger v n →
      (∀ u : UInt64, n = u.toNat → src.element σ key .uint64 v =
        if src.limits.range.accepts u then .ok (.uint64 u)
        else .error (.rangeOverflow ⟨src.typeName, key⟩ u)) ∧
      (n < 0 ∨ 2 ^ 64 ≤ n → ∃ reason,
        src.element σ key .uint64 v = .error (.parse s!"{src.typeName}.{key}" reason))) ∧
    ∀ v n, Json.SpellsSigned v n →
      (∀ i : Int32, n = i.toInt → src.element σ key .int32 v = .ok (.int32 i)) ∧
      (n < -2 ^ 31 ∨ 2 ^ 31 ≤ n → ∃ reason,
        src.element σ key .int32 v = .error (.parse s!"{src.typeName}.{key}" reason)) := by
  constructor
  · intro v n h
    have hread := Coercion.toOption_uint64_loose h
    rw [element_uint64, uint64, hloose]
    constructor
    · rintro u rfl
      rw [Coercion.eq_ok_of_toOption (hread.trans (Coercion.toUInt64?_toNat u))]
      dsimp only [fit, Except.mapError]
      split <;> rfl
    · intro houtside
      obtain ⟨m, hm⟩ := Coercion.exists_error_of_toOption
        (hread.trans (Coercion.toUInt64?_of_outside houtside))
      rw [hm]
      exact ⟨m.message, rfl⟩
  · intro v n h
    have hread := Coercion.toOption_int32_loose h
    rw [element_int32, hloose]
    constructor
    · rintro i rfl
      rw [Coercion.eq_ok_of_toOption (hread.trans (Coercion.toInt32?_eq_some_iff.2 rfl))]
      rfl
    · intro houtside
      obtain ⟨m, hm⟩ := Coercion.exists_error_of_toOption
        (hread.trans (Coercion.toInt32?_of_outside houtside))
      rw [hm]
      exact ⟨m.message, rfl⟩

/-- A row whose identity is read loosely. -/
def looseRow (range : IntegerRange) : FieldSource :=
  ⟨[], "Row", .loose, { range := range }, 0⟩

/-- The first integer that is no double is read from a text, and refused as itself in the safe
range. The first one that 64 bits do not hold is a number of a document, but no identity. The least
signed 32-bit integer has no neighbour below it. -/
theorem integers_are_not_rounded_identities :
    (looseRow .full).element Catalog.standard "id" .uint64 (.string " +09007199254740993\t") =
      .ok (.uint64 9007199254740993) ∧
    (looseRow .safe).element Catalog.standard "id" .uint64 (.string " +09007199254740993\t") =
      .error (.rangeOverflow ⟨"Row", "id"⟩ 9007199254740993) ∧
    (∃ v reason, Json.parse? "18446744073709551616" = some v ∧
      (looseRow .full).element Catalog.standard "id" .uint64 v = .error (.parse "Row.id" reason)) ∧
    (looseRow .safe).element Catalog.standard "id" .int32 (.string "-2147483648") =
      .ok (.int32 (-2147483648)) ∧
    ∃ reason, (looseRow .safe).element Catalog.standard "id" .int32 (.string "-2147483649") =
      .error (.parse "Row.id" reason) := by
  have hread := fun range => integers_are_not_rounded Catalog.standard (looseRow range) rfl "id"
  have htext : Json.SpellsInteger (.string " +09007199254740993\t") (9007199254740993 : Nat) :=
    .text _ _ (Numeric.unsigned?_eq_some_iff.1 (by cbv))
  have hshape : Document.parse? "18446744073709551616" =
      some (.number ⟨false, "18446744073709551616".toList, none, none⟩) := by cbv
  have hnumber : Literal.number? ⟨false, "18446744073709551616".toList, none, none⟩ =
      some (.double (.finite false 4503599627370496 12)) := by decide +kernel
  have hparse : Json.parse? "18446744073709551616" =
      some (.number (.double (.finite false 4503599627370496 12))) := by
    rw [Json.parse?, hshape]
    exact congrArg (Option.map Json.number) hnumber
  have hliteral : Json.SpellsInteger _
      (Binary64.signed false (ofDigits "18446744073709551616".toList)) :=
    .of_parse? rfl (List.all_eq_true.1 rfl) hparse
  have hleast := Json.SpellsSigned.minus "-2147483648" "2147483648".toList (by decide)
    (List.all_eq_true.1 rfl) rfl
  have hbelow := Json.SpellsSigned.minus "-2147483649" "2147483649".toList (by decide)
    (List.all_eq_true.1 rfl) rfl
  refine ⟨((hread .full).1 _ _ htext).1 9007199254740993 (by decide),
    ((hread .safe).1 _ _ htext).1 9007199254740993 (by decide), ?_,
    ((hread .safe).2 _ _ hleast).1 (-2147483648) (by decide),
    ((hread .safe).2 _ _ hbelow).2 (by decide)⟩
  obtain ⟨reason, hreason⟩ := ((hread .full).1 _ _ hliteral).2 (by decide)
  exact ⟨_, reason, hparse, hreason⟩

end FieldSource
end SchemaCodec
