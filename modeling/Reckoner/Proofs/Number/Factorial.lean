import Mathlib.Algebra.Order.Field.Basic
import Mathlib.Data.Rat.Lemmas
import Reckoner.Number.Power

/-!
# The numbers without a factorial

Whether a double is a whole number is computed from its bits, taken apart into natural
numbers. The parts are those of the logical model of doubles, so what is
computed there holds of the rational number that the double is: a factorial is missing
exactly for what is not finite, what is negative and what has a fraction.
-/

namespace Reckoner

namespace Decimal

open Float.Model Float.Model.UnpackedFloat

/-- The rational number that a finite double is. -/
def rational? (x : Float) : Option ℚ :=
  match x.toModel.unpack with
  | .zero _ => some 0
  | .finite sign mantissa exponent _ => some (sign.apply mantissa * 2 ^ exponent)
  | _ => none

/-- A finite double that is no whole number. -/
def isFractional (x : Float) : Bool :=
  (rational? x).any fun value => value.den != 1

theorem isFinite_eq (x : Float) : x.isFinite = (rational? x).isSome := by
  change x.toModel.unpack.isFinite = _
  unfold rational?
  cases x.toModel.unpack <;> rfl

/-- The parts of an unpacked double. -/
def Binary.ofUnpacked : UnpackedFloat → Binary
  | .notANumber => .nan
  | .infinity sign => .infinite (sign == .negative)
  | .zero sign => .finite (sign == .negative) 0 (-1074)
  | .finite sign mantissa exponent _ => .finite (sign == .negative) mantissa exponent

section

variable (word : BitVec Format.binary64.numBits)

theorem toNat_unpackMantissa : (unpackMantissa word).toNat = word.toNat % hiddenBit := by
  change (word.toNat >>> 0) % 2 ^ 52 = _
  rw [Nat.shiftRight_zero]
  rfl

theorem toNat_unpackExponent : (unpackExponent word).toNat = word.toNat / hiddenBit % 2048 := by
  change (word.toNat >>> 52) % 2 ^ 11 = _
  rw [Nat.shiftRight_eq_div_pow]
  rfl

theorem unpackSign_negative :
    (Sign.ofBitVec (unpackSign word) == .negative) = (word.toNat / (2048 * hiddenBit) % 2 == 1) := by
  have bit : (unpackSign word).toNat = word.toNat / (2048 * hiddenBit) % 2 := by
    change (word.toNat >>> 63) % 2 ^ 1 = _
    rw [Nat.shiftRight_eq_div_pow]
    rfl
  rw [← bit]
  have cases : ∀ b : BitVec 1, (Sign.ofBitVec b == .negative) = (b.toNat == 1) := by decide
  exact cases _

/-- The hidden bit stands in front of the fraction of a normal number. -/
theorem toNat_hiddenBit_append (fraction : BitVec 52) : (1#1 ++ fraction).toNat = hiddenBit + fraction.toNat := by
  change 2 ^ 52 ||| fraction.toNat = _
  rw [Nat.or_comm, Nat.or_two_pow_eq_add_of_lt fraction.isLt, Nat.add_comm]
  rfl

/-- Both ways of taking the bits of a double apart give the same parts. -/
theorem Binary.ofBits_toNat : Binary.ofBits word.toNat = .ofUnpacked (UnpackedFloat.unpack Format.binary64 word) := by
  have full : unpackExponent word = -1#11 ↔ (word.toNat / hiddenBit % 2048 == 2047) = true := by
    rw [beq_iff_eq, ← toNat_unpackExponent, ← BitVec.toNat_inj]
    rfl
  have low : unpackExponent word = 0#11 ↔ (word.toNat / hiddenBit % 2048 == 0) = true := by
    rw [beq_iff_eq, ← toNat_unpackExponent, ← BitVec.toNat_inj]
    rfl
  have empty : unpackMantissa word = 0#52 ↔ (word.toNat % hiddenBit == 0) = true := by
    rw [beq_iff_eq, ← toNat_unpackMantissa, ← BitVec.toNat_inj]
    rfl
  unfold Binary.ofBits UnpackedFloat.unpack
  dsimp only
  rw [← unpackSign_negative]
  by_cases infinite : unpackExponent word = -1#11
  · rw [if_pos infinite, if_pos (full.1 infinite)]
    by_cases zero : unpackMantissa word = 0#52
    · rw [if_pos zero, if_pos (empty.1 zero)]
      rfl
    · rw [if_neg zero, if_neg (mt empty.2 zero)]
      rfl
  · rw [if_neg infinite, if_neg (mt full.2 infinite)]
    by_cases subnormal : unpackExponent word = 0#11
    · rw [if_pos subnormal, if_pos (low.1 subnormal)]
      by_cases zero : unpackMantissa word = 0#52
      · rw [dif_pos zero, beq_iff_eq.1 (empty.1 zero)]
        rfl
      · rw [dif_neg zero]
        change _ = Binary.finite _ (unpackMantissa word).toNat ((unpackExponent word).toNat - (1023 + 52) + 1)
        rw [toNat_unpackMantissa, toNat_unpackExponent, beq_iff_eq.1 (low.1 subnormal)]
        rfl
    · rw [if_neg subnormal, if_neg (mt low.2 subnormal)]
      change _ = Binary.finite _ (1#1 ++ unpackMantissa word).toNat ((unpackExponent word).toNat - (1023 + 52))
      rw [toNat_hiddenBit_append, toNat_unpackMantissa, toNat_unpackExponent]
      rfl

end

theorem Binary.ofFloat_eq (x : Float) : Binary.ofFloat x = .ofUnpacked x.toModel.unpack :=
  Binary.ofBits_toNat x.toModel.toBits.toBitVec

/-- A scaled mantissa is the quotient of its two parts. -/
theorem Quotient.scaled_value (mantissa : Nat) (exponent : Int) :
    ((scaled mantissa 2 exponent).num : ℚ) / (scaled mantissa 2 exponent).den = mantissa * 2 ^ exponent := by
  unfold scaled
  split
  · next nonneg =>
    obtain ⟨n, rfl⟩ := Int.eq_ofNat_of_zero_le nonneg
    simp
  · next negative =>
    obtain ⟨n, rfl⟩ : ∃ n : Nat, exponent = -n := ⟨(-exponent).toNat, by omega⟩
    simp [div_eq_mul_inv]

theorem Quotient.scaled_den_pos (mantissa : Nat) (exponent : Int) : 0 < (scaled mantissa 2 exponent).den := by
  unfold scaled
  split
  · exact Nat.one_pos
  · exact Nat.pow_pos (by decide)

/-- The remainder of a scaled mantissa tells whether its value is a whole number. -/
theorem Quotient.scaled_mod (mantissa : Nat) (exponent : Int) :
    (scaled mantissa 2 exponent).num % (scaled mantissa 2 exponent).den = 0 ↔
      ((mantissa : ℚ) * 2 ^ exponent).den = 1 := by
  rw [← scaled_value, Rat.den_div_natCast_eq_one_iff _ _ (scaled_den_pos mantissa exponent).ne']
  exact (Nat.dvd_iff_mod_eq_zero ..).symm

theorem den_sign_apply (sign : Sign) (mantissa : Nat) (scale : ℚ) :
    ((sign.apply mantissa : ℚ) * scale).den = ((mantissa : ℚ) * scale).den := by
  cases sign with
  | negative =>
    have same : ((Sign.apply .negative (mantissa : Int) : Int) : ℚ) * scale = -(mantissa * scale) := by
      simp [Sign.apply]
    rw [same, Rat.den_neg_eq_den]
  | positive => simp [Sign.apply]

/-- A double is whole if it is finite and has no fraction. -/
theorem isWhole_eq (x : Float) : isWhole x = (x.isFinite && !isFractional x) := by
  rw [isFinite_eq]
  unfold isWhole isFractional rational?
  rw [Binary.ofFloat_eq]
  cases x.toModel.unpack with
  | infinity sign => rfl
  | notANumber => rfl
  | zero sign =>
    have whole := (Quotient.scaled_mod 0 (-1074)).2 (by rw [Nat.cast_zero, zero_mul, Rat.den_zero])
    exact beq_iff_eq.2 whole
  | finite sign mantissa exponent positive =>
    change ((Quotient.scaled mantissa 2 exponent).num % (Quotient.scaled mantissa 2 exponent).den == 0) =
      !(((sign.apply mantissa : ℚ) * 2 ^ exponent).den != 1)
    rw [den_sign_apply, Bool.eq_iff_iff]
    simp [Quotient.scaled_mod mantissa exponent]

end Decimal

namespace Number

open Decimal

/-- Infinite, not a number, negative or fractional. -/
def lacksFactorial (x : Float) : Bool :=
  !x.isFinite || decide (x < 0.0) || isFractional x

/-- A factorial is missing exactly for these. -/
theorem factorial?_eq_none_iff {x : Float} : factorial? x = none ↔ lacksFactorial x = true := by
  unfold factorial? lacksFactorial
  rw [isWhole_eq]
  cases x.isFinite <;> cases isFractional x <;> by_cases negative : x < 0.0 <;> simp [negative]

/-- The negative zero is not negative. -/
example : lacksFactorial (-0.0) = false := by decide +kernel

end Number

end Reckoner
