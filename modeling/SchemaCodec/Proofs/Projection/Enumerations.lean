import Mathlib
import SchemaCodec.Proofs.Numeric.Value
import SchemaCodec.Proofs.Projection.Integers

/-!
# Proofs.Projection.Enumerations — symbols and numbers that are read loosely

- `Number.value?`: the number that a spelling denotes.
- `EnumType.Inverse`: symbols and numbers of an enumeration are inverse to each other.
- `EnumType.Spells`: the values that spell a defined number, by the number or by its symbol.
- `Json.IsLeastDouble`: the double that is the least signed 32-bit integer.

A loose reading finds the number that is spelled, and nothing else
(`Coercion.loose_enum_resolves`). Doubles are bounded by their size, so the one in
`Json.IsLeastDouble` is not found even where its number is defined
(`Coercion.loose_enum_misses_leastDouble`).
-/

namespace SchemaCodec

open Numeric (Binary64 fitsInt64)

/-- The number that a spelling denotes. -/
def Number.value? : Number → Option ℚ
  | .integer n => some n
  | .double x => x.value?

/-- Symbols and numbers of an enumeration are inverse to each other. -/
def EnumType.Inverse (e : EnumType) : Prop :=
  ∀ n s, e.symbolOf? n = some s ↔ e.numberOf? s = some n

/-- The values that spell a defined number of an enumeration: any spelling of the number, and its
symbol. -/
inductive EnumType.Spells (e : EnumType) : Json → Int32 → Prop where
  | number (x : Number) (n : Int32) (hvalue : x.value? = some (n.toInt : ℚ))
      (hdefined : (e.symbolOf? n).isSome = true) : e.Spells (.number x) n
  | symbol (s : String) (n : Int32) (hsymbol : e.symbolOf? n = some s) : e.Spells (.string s) n

/-- The spelling of the least signed 32-bit integer as a double. -/
def Json.IsLeastDouble (v : Json) : Prop :=
  ∃ x : Binary64, v = .number (.double x) ∧ x.value? = some (-2 ^ 31)

theorem Json.not_isLeastDouble_integer (i : Int) :
    ¬ (Json.number (.integer i)).IsLeastDouble := by
  rintro ⟨x, hx, -⟩
  cases hx

theorem Json.not_isLeastDouble_string (s : String) : ¬ (Json.string s).IsLeastDouble := by
  rintro ⟨x, hx, -⟩
  cases hx

/-- A double is the exception exactly if its value is. -/
theorem Json.isLeastDouble_double_iff {x : Binary64} :
    (Json.number (.double x)).IsLeastDouble ↔ x.value? = some (-2 ^ 31) := by
  constructor
  · rintro ⟨y, hy, hvalue⟩
    cases hy
    exact hvalue
  · exact fun hvalue => ⟨x, rfl, hvalue⟩

/-! ## Tables -/

/-- What is looked up by a key that no two entries share is the entry with that key. -/
theorem find?_eq_some_iff_of_distinct {α β : Type} [BEq β] [LawfulBEq β] {key : α → β}
    {as : List α} (h : (as.map key).Nodup) {a : α} {k : β} :
    as.find? (fun a => key a == k) = some a ↔ a ∈ as ∧ key a = k := by
  constructor
  · intro hfind
    exact ⟨List.mem_of_find?_eq_some hfind, by simpa using List.find?_some hfind⟩
  · rintro ⟨ha, rfl⟩
    cases hfind : as.find? (fun a' => key a' == key a) with
    | none => exact absurd (List.find?_eq_none.1 hfind a ha) (by simp)
    | some a' =>
      have hkey : key a' = key a := by simpa using List.find?_some hfind
      rw [List.inj_on_of_nodup_map h (List.mem_of_find?_eq_some hfind) ha hkey]

/-- A table without repeated numbers and symbols is inverse to itself. -/
theorem EnumType.inverse_of_distinct {e : EnumType} (hnumbers : (e.values.map (·.number)).Nodup)
    (hsymbols : (e.values.map (·.symbol)).Nodup) : e.Inverse := by
  intro n s
  rw [symbolOf?, find?, numberOf?, Option.map_eq_some_iff, Option.map_eq_some_iff]
  refine exists_congr fun v => ?_
  rw [find?_eq_some_iff_of_distinct hnumbers, find?_eq_some_iff_of_distinct hsymbols]
  tauto

namespace Coercion

variable {e : EnumType} {v : Json} {n : Int32}

/-! ## Numbers -/

/-- An integer is taken by its value alone, whether 64 bits hold it or not. -/
theorem enumNumber?_integer (i : Int) : enumNumber? (.integer i) = toInt32? i := by
  by_cases hfits : fitsInt64 i = true
  · simp [enumNumber?, Number.toInt64?, hfits]
  · have hlarge : 2 ^ 53 ≤ i.natAbs := by
      simp only [fitsInt64, Bool.and_eq_true, decide_eq_true_eq] at hfits
      omega
    have hnone : toInt32? i = none := toInt32?_of_outside (by omega)
    rw [enumNumber?, Number.toInt64?, if_neg hfits, hnone]
    dsimp only
    -- As a double the integer is still far too large.
    split
    next j hj =>
      have hreach := ((Binary64.ofInt_near i).large 53 (le_refl _) hlarge j hj).1
      exact if_neg fun hbound => by omega
    next => rfl

/-- A double is taken by its value, unless that is the least signed 32-bit integer. -/
theorem enumNumber?_double_iff {x : Binary64} :
    enumNumber? (.double x) = some n ↔ x.value? = some (n.toInt : ℚ) ∧ n.toInt ≠ -2 ^ 31 := by
  have hlow := n.le_toInt
  have hhigh := n.toInt_lt
  have hread : enumNumber? (.double x) = x.trunc.bind fun i =>
      if x.isIntegral ∧ i.natAbs ≤ 2147483647 then toInt32? i else none := by
    rw [enumNumber?, Number.toInt64?]
    dsimp only [Number.toBinary64]
    cases x.trunc <;> rfl
  rw [hread, Option.bind_eq_some_iff, Binary64.value?_eq_intCast_iff]
  constructor
  · rintro ⟨i, htrunc, hi⟩
    obtain ⟨⟨hintegral, hbound⟩, hi⟩ := Option.ite_none_right_eq_some.1 hi
    obtain rfl := toInt32?_eq_some_iff.1 hi
    exact ⟨⟨htrunc, hintegral⟩, by omega⟩
  · rintro ⟨⟨htrunc, hintegral⟩, hne⟩
    refine ⟨n.toInt, htrunc, ?_⟩
    rw [if_pos ⟨hintegral, by omega⟩, toInt32?_eq_some_iff]

/-- A number is taken exactly by its value, apart from one double. -/
theorem enumNumber?_eq_some_iff {x : Number} :
    enumNumber? x = some n ↔
      x.value? = some (n.toInt : ℚ) ∧ ¬ (Json.number x).IsLeastDouble := by
  cases x with
  | integer i =>
    rw [enumNumber?_integer, toInt32?_eq_some_iff, Number.value?, Option.some.injEq, Int.cast_inj]
    exact (and_iff_left (Json.not_isLeastDouble_integer i)).symm
  | double x =>
    rw [enumNumber?_double_iff, Number.value?, Json.isLeastDouble_double_iff]
    refine and_congr_right fun hvalue => not_congr ?_
    rw [hvalue, Option.some.injEq]
    norm_cast

/-! ## Values -/

theorem defined?_eq_some_iff (he : e.Inverse) :
    defined? e v = some n ↔ e.Spells v n ∧ ¬ v.IsLeastDouble := by
  constructor
  · intro h
    cases v with
    | number x =>
      obtain ⟨hnumber, hdefined⟩ := Option.filter_eq_some_iff.1 h
      obtain ⟨hvalue, hleast⟩ := enumNumber?_eq_some_iff.1 hnumber
      exact ⟨.number x n hvalue hdefined, hleast⟩
    | string s => exact ⟨.symbol s n ((he n s).2 h), Json.not_isLeastDouble_string s⟩
    | _ => cases h
  · rintro ⟨h, hleast⟩
    cases h with
    | number x n hvalue hdefined =>
      rw [defined?, enumNumber?_eq_some_iff.2 ⟨hvalue, hleast⟩, Option.filter_some,
        if_pos hdefined]
    | symbol s n hsymbol => exact (he n s).1 hsymbol

/-- Loosely, a value is read as the number of an enumeration that it spells, and as the unrecognized
one if it spells none. The symbol that is written for a defined number is read as that number, and
of two numbers only the value counts. The least signed 32-bit integer is no number of an enumeration
as a double, whether it is defined or not. -/
theorem loose_enum_resolves (e : EnumType) (he : e.Inverse) :
    (∀ v n, e.Spells v n → ¬ v.IsLeastDouble → loose.enum e v = .ok n) ∧
    (∀ v, (∀ n, ¬ e.Spells v n) ∨ v.IsLeastDouble →
      loose.enum e v = .ok EnumType.unrecognizedNumber) ∧
    (∀ n, (e.symbolOf? n).isSome = true → loose.enum e (.string (e.symbolFor n)) = .ok n) ∧
    ∀ x y : Number, x.value? = y.value? → ¬ (Json.number x).IsLeastDouble →
      ¬ (Json.number y).IsLeastDouble → loose.enum e (.number x) = loose.enum e (.number y) := by
  have hspells : ∀ v n, e.Spells v n → ¬ v.IsLeastDouble → loose.enum e v = .ok n := by
    intro v n h hleast
    rw [enum, (defined?_eq_some_iff he).2 ⟨h, hleast⟩]
    rfl
  refine ⟨hspells, ?_, ?_, ?_⟩
  · intro v h
    have hnone : defined? e v = none := by
      refine Option.eq_none_iff_forall_ne_some.2 fun n hn => ?_
      obtain ⟨hn, hleast⟩ := (defined?_eq_some_iff he).1 hn
      exact h.elim (fun hnever => hnever n hn) hleast
    rw [enum, hnone]
    rfl
  · intro n hdefined
    obtain ⟨s, hs⟩ := Option.isSome_iff_exists.1 hdefined
    have hsymbol : e.symbolFor n = s := by
      rw [EnumType.symbolFor, hs]
      rfl
    exact hspells _ n (.symbol _ n (hsymbol ▸ hs)) (Json.not_isLeastDouble_string _)
  · intro x y hvalue hx hy
    have hsame : enumNumber? x = enumNumber? y := by
      ext n
      rw [enumNumber?_eq_some_iff, enumNumber?_eq_some_iff, hvalue]
      exact and_congr_right fun _ => iff_of_true hx hy
    rw [enum, enum, defined?, defined?, hsame]

/-- One as a double. -/
def oneDouble : Binary64 :=
  .finite false 4503599627370496 (-52)

theorem loose_enum_resolves_profileType :
    loose.enum Catalog.profileType (.number (.double oneDouble)) = .ok 1 ∧
    loose.enum Catalog.profileType (.number (.integer 7)) = .ok (-1) ∧
    loose.enum Catalog.profileType (.string (Catalog.profileType.symbolFor 2)) = .ok 2 ∧
    loose.enum Catalog.profileType (.number (.integer 1)) =
      loose.enum Catalog.profileType (.number (.double oneDouble)) := by
  have hinverse : Catalog.profileType.Inverse :=
    EnumType.inverse_of_distinct (by decide) (by decide)
  obtain ⟨hspells, hnever, hsymbol, hvalue⟩ := loose_enum_resolves Catalog.profileType hinverse
  have hone : oneDouble.value? = some 1 := by
    norm_num [oneDouble, Binary64.value?, Binary64.signed]
  have hleast : ¬ (Json.number (.double oneDouble)).IsLeastDouble := by
    rw [Json.isLeastDouble_double_iff, hone]
    norm_num
  refine ⟨hspells _ 1 (.number _ 1 hone rfl) hleast, hnever _ (.inl ?_), hsymbol 2 rfl,
    hvalue _ _ ?_ (Json.not_isLeastDouble_integer 1) hleast⟩
  · intro n h
    cases h with
    | number x n hseven hdefined =>
      have hn : n.toInt = (7 : Int32).toInt := by
        have hcast : (7 : ℚ) = n.toInt := Option.some.inj hseven
        exact_mod_cast hcast.symm
      rw [Int32.toInt_inj.1 hn] at hdefined
      exact absurd hdefined (by decide)
  · rw [Number.value?, Number.value?, hone, Int.cast_one]

/-- An enumeration that defines the least signed 32-bit integer and nothing else. -/
def leastOnly : EnumType :=
  ⟨"Least", [⟨"LEAST", "Least", -2147483648⟩]⟩

/-- The least signed 32-bit integer as a double. -/
def leastDouble : Binary64 :=
  .finite true 4503599627370496 (-21)

/-- A defined number is found as an integer, and not found as the double that it is equal to. -/
theorem loose_enum_misses_leastDouble :
    leastOnly.Inverse ∧
    leastOnly.Spells (.number (.double leastDouble)) (-2147483648) ∧
    Json.parse? "-2147483648.0" = some (.number (.double leastDouble)) ∧
    loose.enum leastOnly (.number (.integer (-2147483648))) = .ok (-2147483648) ∧
    loose.enum leastOnly (.number (.double leastDouble)) = .ok (-1) := by
  have hinverse : leastOnly.Inverse := EnumType.inverse_of_distinct (by decide) (by decide)
  have hvalue : leastDouble.value? = some (-2 ^ 31) := by
    norm_num [leastDouble, Binary64.value?, Binary64.signed]
  have hleast : (Number.double leastDouble).value? = some ((-2147483648 : Int32).toInt : ℚ) := by
    have hint : (-2147483648 : Int32).toInt = -2147483648 := by decide
    rw [Number.value?, hvalue, hint]
    norm_num
  have hshape : Document.parse? "-2147483648.0" =
      some (.number ⟨true, "2147483648".toList, some ['0'], none⟩) := by cbv
  have hnumber : Literal.number? ⟨true, "2147483648".toList, some ['0'], none⟩ =
      some (.double leastDouble) := by decide +kernel
  have hnone : enumNumber? (.double leastDouble) = none := by decide +kernel
  refine ⟨hinverse, .number _ _ hleast rfl, ?_, rfl, ?_⟩
  · rw [Json.parse?, hshape]
    exact congrArg (Option.map Json.number) hnumber
  · rw [enum, defined?, hnone]
    rfl

end Coercion
end SchemaCodec
