import Mathlib
import SchemaCodec.Proofs.Numeric.Exact

/-!
# Proofs.Numeric.Rounding — integers as doubles

- `Binary64.Near`: what the double of an integer still tells of it.
- `Binary64.ofInt_near`, `Binary64.ofScientific_near`: the doubles that integers are converted to.
- `Binary64.parse?_digits`: the double that a run of digits denotes.

An integer of at most 53 bits is read back from its double. A greater one may be rounded, but not
across the power of two below it, so a bound that is such a power is seen in the double.
-/

namespace SchemaCodec
namespace Numeric

theorem leastNormal_eq : leastNormal = 2 ^ 52 := by
  decide

/-- Rounding does not go below the quotient without its remainder. -/
theorem div_le_roundDiv (num den : Nat) : num / den ≤ roundDiv num den := by
  rw [roundDiv]
  split
  · exact Nat.le_succ _
  · exact Nat.le_refl _

theorem spanDigits_of_digits {ds : List Char} (h : ∀ c ∈ ds, isDigit c = true) :
    spanDigits ds = (ds, []) := by
  rw [spanDigits, List.takeWhile_eq_self_iff.2 h, List.dropWhile_eq_nil_iff.2 h]

namespace Binary64

variable {negative : Bool} {n : Nat} {i : Int}

theorem signed_neg_iff (hpos : n ≠ 0) : signed negative n < 0 ↔ negative = true := by
  cases negative with
  | true =>
    simp only [signed, if_true, iff_true]
    omega
  | false => simp [signed]

@[simp] theorem natAbs_signed : (signed negative n).natAbs = n := by
  cases negative <;> simp [signed]

/-! ## Large integers -/

/-- The mantissa of an integer has at least 53 bits if the integer has. -/
theorem le_roundDiv_of_large (h : 2 ^ 53 ≤ n) : 2 ^ 52 ≤ roundDiv n (2 ^ (n.log2 - 52)) := by
  have hpos : n ≠ 0 := by omega
  have hlog : 53 ≤ n.log2 := (Nat.le_log2 hpos).2 h
  calc 2 ^ 52 ≤ n / 2 ^ (n.log2 - 52) := by
        rw [Nat.le_div_iff_mul_le (Nat.two_pow_pos _), ← pow_add,
          show 52 + (n.log2 - 52) = n.log2 by omega]
        exact Nat.log2_self_le hpos
    _ ≤ roundDiv n (2 ^ (n.log2 - 52)) := div_le_roundDiv _ _

/-- What the double of a large integer is cut off to is at least the greatest power of two that is
not beyond the integer. -/
theorem trunc_ofRatio_of_large (h : 2 ^ 53 ≤ n) (hi : (ofRatio negative n 1).trunc = some i) :
    ∃ k, 2 ^ n.log2 ≤ k ∧ i = signed negative k := by
  have hpos : n ≠ 0 := by omega
  have hlog : 53 ≤ n.log2 := (Nat.le_log2 hpos).2 h
  have hmantissa := le_roundDiv_of_large h
  have hsplit : 2 ^ 52 * 2 ^ (n.log2 - 52) = 2 ^ n.log2 := by
    rw [← pow_add, show 52 + (n.log2 - 52) = n.log2 by omega]
  -- The exponent is positive, so the integer is scaled down, and the mantissa back up.
  have hexponent : max ((n.log2 : Int) - 52) (-1074) = (n.log2 : Int) - 52 := by omega
  have hdown : (-((n.log2 : Int) - 52)).toNat = 0 := by omega
  have hup : ((n.log2 : Int) - 52).toNat = n.log2 - 52 := by omega
  rw [ofRatio, if_neg hpos, floorLog2_one hpos] at hi
  simp only [hexponent, hdown, hup, twoTo_eq, pow_zero, mul_one, one_mul] at hi
  split_ifs at hi with hcarry hsmall hsmall
  · -- The mantissa was rounded up to a power of two, which the exponent takes over.
    have hdown' : (-((n.log2 : Int) - 52 + 1)).toNat = 0 := by omega
    have hup' : ((n.log2 : Int) - 52 + 1).toNat = n.log2 - 52 + 1 := by omega
    simp only [trunc, hdown', hup', twoTo_eq, pow_zero, Nat.div_one, Option.some.injEq] at hi
    refine ⟨_, ?_, hi.symm⟩
    calc 2 ^ n.log2 = leastNormal * 2 ^ (n.log2 - 52) := by rw [leastNormal_eq, hsplit]
      _ ≤ leastNormal * 2 ^ (n.log2 - 52 + 1) :=
        Nat.mul_le_mul_left _ (Nat.pow_le_pow_right (by decide) (Nat.le_succ _))
  · cases hi
  · simp only [trunc, hdown, hup, twoTo_eq, pow_zero, Nat.div_one, Option.some.injEq] at hi
    refine ⟨_, ?_, hi.symm⟩
    calc 2 ^ n.log2 = 2 ^ 52 * 2 ^ (n.log2 - 52) := hsplit.symm
      _ ≤ roundDiv n (2 ^ (n.log2 - 52)) * 2 ^ (n.log2 - 52) :=
        Nat.mul_le_mul_right _ hmantissa
  · cases hi

/-! ## Doubles near integers -/

/-- What a double tells of an integer that it was made from: all of it up to 53 bits, and beyond
them its sign and which powers of two it reaches, unless the double is infinite. -/
structure Near (x : Binary64) (i : Int) : Prop where
  exact : i.natAbs < 2 ^ 53 → x.trunc = some i
  large : ∀ b, 53 ≤ b → 2 ^ b ≤ i.natAbs → ∀ j, x.trunc = some j →
    2 ^ b ≤ j.natAbs ∧ (j < 0 ↔ i < 0)

theorem ofInt_near (i : Int) : (ofInt i).Near i where
  exact := trunc_ofInt
  large := by
    intro b hb hi j hj
    have hpow : 2 ^ 53 ≤ 2 ^ b := Nat.pow_le_pow_right (by decide) hb
    have hpos : i.natAbs ≠ 0 := by omega
    obtain ⟨k, hk, rfl⟩ := trunc_ofRatio_of_large (le_trans hpow hi) hj
    have hlog : b ≤ i.natAbs.log2 := (Nat.le_log2 hpos).2 hi
    have hreach : 2 ^ b ≤ k := le_trans (Nat.pow_le_pow_right (by decide) hlog) hk
    refine ⟨by rwa [natAbs_signed], ?_⟩
    rw [signed_neg_iff (by omega), decide_eq_true_iff]

theorem infinite_near (h : 2 ^ 53 ≤ i.natAbs) : (infinite negative).Near i where
  exact hsmall := absurd hsmall (Nat.not_lt.2 h)
  large _ _ _ _ hj := nomatch hj

theorem ofRatio_near (negative : Bool) (n : Nat) :
    (ofRatio negative n 1).Near (signed negative n) := by
  by_cases hzero : n = 0
  · -- Either zero is cut off to the one integer zero.
    subst hzero
    have hsigned : signed negative 0 = 0 := by cases negative <;> rfl
    rw [hsigned]
    exact ⟨fun _ => by simp [ofRatio, zero, trunc, hsigned],
      fun b _ hb => absurd hb (Nat.not_le.2 (Nat.two_pow_pos b))⟩
  · have hint : ofInt (signed negative n) = ofRatio negative n 1 := by
      rw [ofInt, natAbs_signed]
      congr 1
      simp [signed_neg_iff hzero]
    exact hint ▸ ofInt_near (signed negative n)

/-- Digits without point and exponent give a double near to the integer that they denote. -/
theorem ofScientific_near (negative : Bool) (n : Nat) :
    (ofScientific negative n 0).Near (signed negative n) := by
  have hratio := ofRatio_near negative n
  unfold ofScientific
  extract_lets magnitude
  split_ifs with hzero hhuge htiny
  · subst hzero
    exact hratio
  · -- Integers of at most 53 bits have at most 16 digits.
    refine infinite_near ?_
    rw [natAbs_signed]
    by_contra hsmall
    have hlength : (Nat.toDigits 10 n).length ≤ 16 :=
      (Nat.length_toDigits_le_iff (by decide) (by decide)).2 (by omega)
    omega
  · omega
  · simpa [tenTo] using hratio

/-! ## Digits -/

theorem toLower_of_isDigit {c : Char} (h : isDigit c = true) : c.toLower = c := by
  refine Char.toLower_eq_of_not_isUpper ?_
  simp only [isDigit, Char.le_def, Char.isUpper, Bool.and_eq_true, decide_eq_true_eq,
    ge_iff_le, UInt32.le_iff_toNat_le] at h ⊢
  rintro ⟨hlow, -⟩
  exact absurd (le_trans hlow h.2) (by decide)

/-- A digit in front is no sign. -/
theorem splitSign_of_digits {ds : List Char} (h : ∀ c ∈ ds, isDigit c = true) :
    splitSign ds = (false, ds) := by
  unfold splitSign
  split
  next => exact absurd (h '-' List.mem_cons_self) (by decide)
  next => exact absurd (h '+' List.mem_cons_self) (by decide)
  next => rfl

/-- A run of digits denotes a double, with the sign that is split off in front of it. -/
theorem parse?_digits {s ds : List Char} (hsplit : splitSign s = (negative, ds)) (hne : ds ≠ [])
    (hdigits : ∀ c ∈ ds, isDigit c = true) :
    parse? s = some (ofScientific negative (ofDigits ds) 0) := by
  -- No digit is the first letter of a name of infinity.
  have hword : ∀ letters, ds.map Char.toLower ≠ 'i' :: letters := by
    intro letters hletters
    obtain ⟨c, ds', rfl, hlower, -⟩ := List.map_eq_cons_iff.1 hletters
    have hdigit := hdigits c List.mem_cons_self
    rw [← toLower_of_isDigit hdigit, hlower] at hdigit
    exact absurd hdigit (by decide)
  rw [parse?, hsplit]
  dsimp only
  rw [if_neg (not_or.2 ⟨hword _, hword _⟩), decimal?, spanDigits_of_digits hdigits]
  simp [exponentPart?, hne]

end Binary64
end Numeric
end SchemaCodec
