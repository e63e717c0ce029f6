import Mathlib
import SchemaCodec.Numeric.Binary64
import SchemaCodec.Text.Blank

/-!
# Proofs.Numeric.Exact — integers that survive a conversion

- `Binary64.trunc_ofInt`: an integer of at most 53 bits is a double, and is read back from it.
- `uint64?_toString`: the decimal digits of an unsigned 64-bit number denote that number, also after
  blanks have been cut off (`Text.trim_toString`).
-/

namespace SchemaCodec
namespace Numeric

/-! ## Doubles -/

theorem twoTo_eq (k : Nat) : twoTo k = 2 ^ k := rfl

theorem roundDiv_one (n : Nat) : roundDiv n 1 = n := by
  simp [roundDiv, Nat.mod_one]

theorem floorLog2_one {n : Nat} (h : n ≠ 0) : floorLog2 n 1 = n.log2 := by
  have hle : 2 ^ n.log2 ≤ n := Nat.log2_self_le h
  have hone : Nat.log2 1 = 0 := by decide
  simp [floorLog2, twoTo_eq, hone, hle]

namespace Binary64

/-- A positive integer of at most 53 bits is scaled to a mantissa without rounding. -/
theorem ofRatio_one (negative : Bool) {n : Nat} (hpos : n ≠ 0) (hlt : n < 2 ^ 53) :
    ofRatio negative n 1 = .finite negative (n * 2 ^ (52 - n.log2)) ((n.log2 : Int) - 52) := by
  have hlog : n.log2 ≤ 52 := by
    have := (Nat.log2_lt hpos).2 hlt
    omega
  have hupper : n < 2 ^ (n.log2 + 1) := Nat.lt_log2_self
  have hscale : 2 ^ (n.log2 + 1) * 2 ^ (52 - n.log2) = 2 ^ 53 := by
    rw [← pow_add]
    congr 1
    omega
  have hmantissa : n * 2 ^ (52 - n.log2) < 2 ^ 53 := by
    calc n * 2 ^ (52 - n.log2) < 2 ^ (n.log2 + 1) * 2 ^ (52 - n.log2) :=
          Nat.mul_lt_mul_of_pos_right hupper (Nat.two_pow_pos _)
      _ = 2 ^ 53 := hscale
  -- The exponent is not positive, so the number is scaled up and nothing is cut off.
  have hexponent : max ((n.log2 : Int) - 52) (-1074) = (n.log2 : Int) - 52 := by omega
  have hdown : (-((n.log2 : Int) - 52)).toNat = 52 - n.log2 := by omega
  have hup : ((n.log2 : Int) - 52).toNat = 0 := by omega
  rw [ofRatio, if_neg hpos, floorLog2_one hpos]
  simp only [hexponent, hdown, hup, twoTo_eq, pow_zero, mul_one, roundDiv_one]
  rw [if_neg (by simp only [leastNormal]; omega), if_pos (by omega)]

/-- An integer of at most 53 bits is read back from its double. -/
theorem trunc_ofInt {n : Int} (h : n.natAbs < 2 ^ 53) : (ofInt n).trunc = some n := by
  rw [ofInt]
  by_cases hzero : n.natAbs = 0
  · obtain rfl : n = 0 := Int.natAbs_eq_zero.1 hzero
    simp [ofRatio, zero, trunc, signed]
  · have hlog : n.natAbs.log2 ≤ 52 := by
      have := (Nat.log2_lt hzero).2 h
      omega
    -- The mantissa is divided by the power of two that it was scaled with.
    have hdown : (-((n.natAbs.log2 : Int) - 52)).toNat = 52 - n.natAbs.log2 := by omega
    have hup : ((n.natAbs.log2 : Int) - 52).toNat = 0 := by omega
    rw [ofRatio_one _ hzero h, trunc]
    simp only [hdown, hup, twoTo_eq, pow_zero, mul_one,
      Nat.mul_div_cancel _ (Nat.two_pow_pos _), Option.some.injEq, signed]
    split
    next hneg =>
      have : n < 0 := by simpa using hneg
      omega
    next hneg =>
      have : ¬ n < 0 := by simpa using hneg
      omega

end Binary64

/-! ## Decimal digits -/

theorem isDigit_of_mem_toDigits {n : Nat} {c : Char} (h : c ∈ Nat.toDigits 10 n) :
    isDigit c = true := by
  have hdigit := Nat.isDigit_of_mem_toDigits (by decide) (by decide) h
  simpa [isDigit, Char.isDigit, Char.le_def] using hdigit

theorem ofDigits_toDigits (n : Nat) : ofDigits (Nat.toDigits 10 n) = n :=
  Nat.ofDigitChars_ten_toDigits

theorem toList_toString (n : Nat) : (toString n).toList = Nat.toDigits 10 n := by
  rw [Nat.toString_eq_repr, Nat.toList_repr]

theorem unsigned?_toDigits (n : Nat) : unsigned? (Nat.toDigits 10 n) = some n := by
  have hall : (Nat.toDigits 10 n).all isDigit = true :=
    List.all_eq_true.2 fun c hc => isDigit_of_mem_toDigits hc
  have hplus : ∀ rest, Nat.toDigits 10 n ≠ '+' :: rest := by
    intro rest heq
    have hdigit : isDigit '+' = true :=
      isDigit_of_mem_toDigits (n := n) (heq ▸ List.mem_cons_self)
    exact absurd hdigit (by decide)
  unfold unsigned?
  split
  next rest heq => exact absurd heq (hplus rest)
  next => simp [hall, ofDigits_toDigits]

theorem uint64?_toString (n : UInt64) : uint64? (toString n.toNat).toList = some n := by
  have hlt := n.toNat_lt
  have hfits : fitsUInt64 n.toNat = true := by
    simp [fitsUInt64]
    omega
  rw [uint64?, toList_toString, unsigned?_toDigits]
  simp [hfits]

end Numeric

namespace Text

theorem isBlank_of_isDigit {c : Char} (h : Numeric.isDigit c = true) : isBlank c = false := by
  have hrange : 48 ≤ c.toNat ∧ c.toNat ≤ 57 := by
    simpa [Numeric.isDigit, Char.le_def, UInt32.le_iff_toNat_le] using h
  simp [isBlank]
  omega

theorem trim_eq_self {s : List Char} (h : ∀ c ∈ s, isBlank c = false) : trim s = s := by
  have hdrop : ∀ t : List Char, (∀ c ∈ t, isBlank c = false) → t.dropWhile isBlank = t := by
    intro t ht
    cases t with
    | nil => rfl
    | cons c t => simp [ht c List.mem_cons_self]
  rw [trim, hdrop s h, hdrop s.reverse (fun c hc => h c (List.mem_reverse.1 hc)),
    List.reverse_reverse]

theorem trim_toString (n : Nat) : trim (toString n).toList = (toString n).toList := by
  refine trim_eq_self ?_
  intro c hc
  rw [Numeric.toList_toString] at hc
  exact isBlank_of_isDigit (Numeric.isDigit_of_mem_toDigits hc)

/-- A text that denotes an unsigned number has no blanks to cut off. -/
theorem trim_of_uint64? {s : List Char} {n : UInt64} (h : Numeric.uint64? s = some n) :
    trim s = s := by
  have hdigits : ∀ ds : List Char,
      (if ds.isEmpty || !ds.all Numeric.isDigit then none else some (Numeric.ofDigits ds)) ≠ none →
      ∀ c ∈ ds, isBlank c = false := by
    intro ds hds c hc
    have hall : ds.all Numeric.isDigit = true := by
      by_contra hnot
      exact hds (if_pos (by simp [hnot]))
    exact isBlank_of_isDigit (List.all_eq_true.1 hall c hc)
  have hunsigned : Numeric.unsigned? s ≠ none := by
    intro hnone
    rw [Numeric.uint64?, hnone] at h
    cases h
  refine trim_eq_self ?_
  unfold Numeric.unsigned? at hunsigned
  split at hunsigned
  next rest =>
    -- A plus sign may stand in front of the digits.
    exact List.forall_mem_cons.2 ⟨by decide, hdigits rest hunsigned⟩
  next => exact hdigits s hunsigned

end Text
end SchemaCodec
