import Mathlib
import SchemaCodec.Proofs.Numeric.Rounding

/-!
# Proofs.Numeric.Value — the numbers that doubles are

- `Binary64.value?`: a finite double as a fraction.
- `Binary64.value?_eq_intCast_iff`: a double is an integer exactly if it is integral and is cut off
  to that integer.
-/

namespace SchemaCodec
namespace Numeric
namespace Binary64

variable {i : Int}

/-- The number that a double is; an infinity is none. -/
def value? : Binary64 → Option ℚ
  | .finite negative m q => some (signed negative m * 2 ^ q)
  | .infinite _ => none

theorem signed_mul (negative : Bool) (a b : Nat) :
    signed negative (a * b) = signed negative a * b := by
  cases negative <;> simp [signed]

/-- A power of two is a quotient of two natural ones. -/
theorem two_zpow_eq_div (q : Int) : (2 : ℚ) ^ q = 2 ^ q.toNat / 2 ^ (-q).toNat := by
  rw [← zpow_natCast, ← zpow_natCast, ← zpow_sub₀ (by norm_num)]
  congr 1
  omega

/-- A signed number is a multiple exactly if there is no remainder. -/
theorem signed_eq_mul_iff {negative : Bool} {n den : Nat} (hden : den ≠ 0) :
    signed negative n = i * den ↔ n % den = 0 ∧ signed negative (n / den) = i := by
  have hcast : (den : Int) ≠ 0 := by exact_mod_cast hden
  constructor
  · intro h
    have hsize : n = i.natAbs * den := by
      have habs := congrArg Int.natAbs h
      rwa [natAbs_signed, Int.natAbs_mul, Int.natAbs_natCast] at habs
    rw [hsize, Nat.mul_div_cancel _ (Nat.pos_of_ne_zero hden)]
    refine ⟨Nat.mul_mod_left _ _, Int.eq_of_mul_eq_mul_right hcast ?_⟩
    rw [← signed_mul, ← hsize, h]
  · rintro ⟨hmod, rfl⟩
    rw [← signed_mul, Nat.div_mul_cancel (Nat.dvd_of_mod_eq_zero hmod)]

/-- A double is an integer exactly if nothing is cut off of it. -/
theorem value?_eq_intCast_iff {x : Binary64} :
    x.value? = some (i : ℚ) ↔ x.trunc = some i ∧ x.isIntegral = true := by
  cases x with
  | infinite negative => simp [value?, trunc]
  | finite negative m q =>
    have hcast : (2 : ℚ) ^ (-q).toNat ≠ 0 := by positivity
    have hden : twoTo (-q).toNat ≠ 0 := (Nat.two_pow_pos _).ne'
    -- The number is compared as a quotient, so its two sides are integers.
    calc (finite negative m q).value? = some (i : ℚ)
      _ ↔ (signed negative m : ℚ) * 2 ^ q.toNat = i * 2 ^ (-q).toNat := by
        rw [value?, Option.some.injEq, two_zpow_eq_div, ← mul_div_assoc, div_eq_iff hcast]
      _ ↔ signed negative (m * twoTo q.toNat) = i * (twoTo (-q).toNat : Nat) := by
        rw [signed_mul, twoTo_eq, twoTo_eq]
        norm_cast
      _ ↔ (finite negative m q).trunc = some i ∧ (finite negative m q).isIntegral = true := by
        rw [signed_eq_mul_iff hden, trunc, isIntegral, Option.some.injEq,
          beq_iff_eq, and_comm]

end Binary64
end Numeric
end SchemaCodec
