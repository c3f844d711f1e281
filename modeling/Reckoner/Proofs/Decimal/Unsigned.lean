import Reckoner.Proofs.Decimal.Plain
import Reckoner.Proofs.Number.Factorial

/-!
# Numbers that are written without a sign

The value of a numeral without a sign is a number, and its sign bit is not set, also if the digits are too many or too few
for a double. Two such doubles are the same as soon as they compare as equal: neither a minus zero nor what is not a number
is among them.
-/

namespace Reckoner.Decimal

open Float.Model Float.Model.UnpackedFloat

/-- A number whose sign is positive. -/
def Positive : UnpackedFloat → Prop
  | .notANumber => False
  | .infinity sign | .zero sign | .finite sign .. => sign = .positive

/-- A double is a number, and its sign bit is not set. -/
def Unsigned (x : Float) : Prop := Positive x.toModel.unpack

variable {u v : UnpackedFloat}

section Rounding

variable (spec : Format) (mantissa : Nat) (exponent : Int) (accuracy : Accuracy)

theorem positive_roundWithAccuracy : Positive (roundWithAccuracy spec .positive mantissa exponent accuracy) := by
  have parts (m : Nat) (e : Int) :
      Positive (if h : m = 0 then .zero .positive else .finite .positive m e (Nat.pos_of_ne_zero h)) := by
    by_cases zero : m = 0
    · rw [dif_pos zero]
      exact rfl
    · rw [dif_neg zero]
      exact rfl
  unfold roundWithAccuracy
  exact parts _ _

variable (filled : 0 < mantissa)

/-- A number times a finite one that is not zero is a number. -/
theorem positive_mul (hu : Positive u) (hv : v = .finite .positive mantissa exponent filled) : Positive (u.mul spec v) := by
  subst hv
  cases u with
  | notANumber => exact hu.elim
  | infinity sign | zero sign =>
    cases (show sign = .positive from hu)
    exact rfl
  | finite sign =>
    cases (show sign = .positive from hu)
    exact positive_roundWithAccuracy ..

theorem positive_div (hu : Positive u) (hv : v = .finite .positive mantissa exponent filled) : Positive (u.div spec v) := by
  subst hv
  cases u with
  | notANumber => exact hu.elim
  | infinity sign | zero sign =>
    cases (show sign = .positive from hu)
    exact rfl
  | finite sign =>
    cases (show sign = .positive from hu)
    exact positive_roundWithAccuracy ..

theorem positive_ofScientific : Positive (UnpackedFloat.ofScientific spec mantissa exponent) := by
  unfold UnpackedFloat.ofScientific
  by_cases zero : mantissa = 0
  · rw [dif_pos zero]
    exact rfl
  rw [dif_neg zero]
  by_cases large : exponent > 2 ^ spec.exponentBits
  · rw [if_pos large]
    exact rfl
  rw [if_neg large]
  by_cases small : exponent < -((2 ^ spec.exponentBits : Int) + mantissa.log2)
  · rw [if_pos small]
    exact rfl
  rw [if_neg small]
  by_cases whole : 0 ≤ exponent
  · rw [if_pos whole]
    exact positive_mul _ _ _ _ rfl rfl
  · rw [if_neg whole]
    exact positive_div _ _ _ _ rfl rfl

theorem positive_ofNat : Positive (UnpackedFloat.ofNat spec mantissa) := by
  unfold UnpackedFloat.ofNat UnpackedFloat.ofInt UnpackedFloat.normalize
  have order : compare (mantissa : Int) 0 ≠ .lt := by
    rw [ne_eq, Int.compare_eq_lt]
    omega
  split
  · contradiction
  · exact rfl
  · exact positive_roundWithAccuracy ..

end Rounding

section Packing

theorem unpackSign_packComponents (sign : Sign) (exponent : BitVec 11) (mantissa : BitVec 52) :
    unpackSign (packComponents Format.binary64 sign exponent mantissa) = sign.toBitVec := by
  ext i hi
  obtain rfl : i = 0 := by omega
  show ((BitVec.extractLsb 63 63 (sign.toBitVec ++ exponent ++ mantissa)).cast rfl)[0] = sign.toBitVec[0]
  rw [BitVec.getElem_cast, BitVec.extractLsb, BitVec.getElem_extractLsb', BitVec.getLsbD_append, BitVec.getLsbD_append]
  rfl

/-- Bits with a positive sign are those of a number unless the exponent is full and the mantissa is not zero. -/
theorem positive_unpack (exponent : BitVec 11) (mantissa : BitVec 52) (number : exponent = -1#11 → mantissa = 0#52) :
    Positive (UnpackedFloat.unpack Format.binary64 (packComponents Format.binary64 .positive exponent mantissa)) := by
  have sign := unpackSign_packComponents .positive exponent mantissa
  have rest : unpackExponent (packComponents Format.binary64 .positive exponent mantissa) = -1#11 →
      unpackMantissa (packComponents Format.binary64 .positive exponent mantissa) = 0#52 := by
    rw [unpackExponent_packComponents, unpackMantissa_packComponents]
    exact number
  generalize packComponents Format.binary64 .positive exponent mantissa = word at sign rest
  have positive : Sign.ofBitVec (unpackSign word) = .positive := by
    rw [sign]
    rfl
  unfold UnpackedFloat.unpack
  dsimp only
  by_cases full : unpackExponent word = -1#11
  · rw [if_pos full, if_pos (rest full)]
    exact positive
  rw [if_neg full]
  by_cases low : unpackExponent word = 0#11
  · rw [if_pos low]
    by_cases zero : unpackMantissa word = 0#52
    · rw [dif_pos zero]
      exact positive
    · rw [dif_neg zero]
      exact positive
  · rw [if_neg low]
    exact positive

/-- Packing keeps the sign, and makes an infinity of what is too large. -/
theorem positive_pack (hu : Positive u) : Positive (UnpackedFloat.unpack Format.binary64 (UnpackedFloat.pack Format.binary64 u)) := by
  fun_cases UnpackedFloat.pack Format.binary64 u with
  | case1 => exact hu.elim
  | case2 sign =>
    cases (show sign = .positive from hu)
    exact positive_unpack _ _ fun _ => rfl
  | case3 sign =>
    cases (show sign = .positive from hu)
    exact positive_unpack _ _ fun _ => rfl
  | case4 sign =>
    cases (show sign = .positive from hu)
    exact positive_unpack _ _ fun _ => rfl
  | case5 sign m e _ bits biased few =>
    cases (show sign = .positive from hu)
    refine positive_unpack _ _ fun full => ?_
    have whole := congrArg BitVec.toNat full
    simp only [BitVec.toNat_ofNat] at whole
    have small : biased < 2047 := by
      have bound : ¬ 2048 ≤ biased + 1 := few
      omega
    have rest : biased % 2048 = 2047 := whole
    omega
  | case6 sign =>
    cases (show sign = .positive from hu)
    exact positive_unpack _ _ fun full => by simp at full

end Packing

section Comparing

/-- The numbers without a sign that compare as equal have the same parts. -/
theorem eq_of_compare (hu : Positive u) (hv : Positive v) (same : u.compare v = some .eq) : u = v := by
  cases u with
  | notANumber => exact hu.elim
  | infinity sign =>
    cases (show sign = .positive from hu)
    cases v with
    | notANumber => exact hv.elim
    | infinity sign' =>
      cases (show sign' = .positive from hv)
      rfl
    | zero | finite => cases same
  | zero sign =>
    cases (show sign = .positive from hu)
    cases v with
    | notANumber => exact hv.elim
    | zero sign' =>
      cases (show sign' = .positive from hv)
      rfl
    | infinity sign' | finite sign' =>
      cases (show sign' = .positive from hv)
      cases same
  | finite sign m e =>
    cases (show sign = .positive from hu)
    cases v with
    | notANumber => exact hv.elim
    | infinity sign' =>
      cases (show sign' = .positive from hv)
      cases same
    | zero => cases same
    | finite sign' m' e' =>
      cases (show sign' = .positive from hv)
      have order : (compare e e').then (compare m m') = .eq := Option.some.inj same
      obtain ⟨exponents, mantissas⟩ := Ordering.then_eq_eq.1 order
      obtain rfl := Std.LawfulEqCmp.eq_of_compare exponents
      obtain rfl := Std.LawfulEqCmp.eq_of_compare mantissas
      rfl

/-- The bits of a double that has been taken apart. -/
def Binary.bits : Binary → Nat
  | .nan => 2047 * hiddenBit + hiddenBit / 2
  | .infinite negative => (if negative then 2048 * hiddenBit else 0) + 2047 * hiddenBit
  | .finite negative mantissa exponent =>
    (if negative then 2048 * hiddenBit else 0) + (exponent + 1074).toNat * hiddenBit + mantissa

/-- Nothing is lost of the bits of a number when it is taken apart. -/
theorem Binary.bits_ofBits {n : Nat} (short : n < 2 ^ 64) (number : ofBits n ≠ .nan) : (ofBits n).bits = n := by
  have sign : (if n / (2048 * hiddenBit) % 2 == 1 then 2048 * hiddenBit else 0) =
      n / (2048 * hiddenBit) % 2 * (2048 * hiddenBit) := by
    rcases Nat.mod_two_eq_zero_or_one (n / (2048 * hiddenBit)) with bit | bit <;> simp [bit]
  unfold ofBits at number ⊢
  dsimp only at number ⊢
  split
  · next full =>
    rw [if_pos full] at number
    split
    · next zero =>
      rw [bits, sign]
      simp only [hiddenBit, beq_iff_eq] at *
      omega
    · next rest => exact absurd (if_neg rest) number
  · split
    · next low =>
      rw [bits, sign]
      simp only [hiddenBit, beq_iff_eq] at *
      omega
    · rw [bits, sign]
      simp only [hiddenBit, beq_iff_eq] at *
      omega

theorem Unsigned.ofFloat_ne_nan {x : Float} (hx : Unsigned x) : Binary.ofFloat x ≠ .nan := by
  rw [Binary.ofFloat_eq]
  unfold Unsigned at hx
  cases u : x.toModel.unpack with
  | notANumber =>
    rw [u] at hx
    exact hx.elim
  | infinity | zero | finite => exact Binary.noConfusion

/-- Two doubles without a sign bit that compare as equal are one. -/
theorem Unsigned.eq_of_beq {x y : Float} (hx : Unsigned x) (hy : Unsigned y) (same : (x == y) = true) : x = y := by
  have order : (x.toModel.unpack.compare y.toModel.unpack == some .eq) = true := same
  have parts : x.toModel.unpack = y.toModel.unpack := eq_of_compare hx hy (beq_iff_eq.1 order)
  have binary : Binary.ofFloat x = Binary.ofFloat y := by rw [Binary.ofFloat_eq, Binary.ofFloat_eq, parts]
  have bits : x.toBits.toNat = y.toBits.toNat := by
    rw [← Binary.bits_ofBits x.toBits.toNat_lt hx.ofFloat_ne_nan, ← Binary.bits_ofBits y.toBits.toNat_lt hy.ofFloat_ne_nan]
    exact congrArg Binary.bits binary
  have model : x.toModel.toBits = y.toModel.toBits := UInt64.toNat_inj.1 bits
  obtain ⟨⟨_, _⟩⟩ := x
  obtain ⟨⟨_, _⟩⟩ := y
  cases model
  rfl

end Comparing

section Reading

/-- Finite, positive and not zero. -/
def isScale : UnpackedFloat → Bool
  | .finite .positive .. => true
  | _ => false

theorem exists_of_isScale (scale : isScale u = true) :
    ∃ mantissa exponent filled, u = .finite .positive mantissa exponent filled := by
  cases u with
  | finite sign mantissa exponent filled =>
    cases sign with
    | positive => exact ⟨mantissa, exponent, filled, rfl⟩
    | negative => cases scale
  | notANumber | infinity | zero => cases scale

/-- The powers of ten that a double holds exactly are all scales. -/
theorem isScale_powerOfTen {e : Nat} (h : e < Float.exactlyRepresentablePowersOfTen.size) :
    isScale Float.exactlyRepresentablePowersOfTen[e].toModel.unpack = true := by
  have all : Float.exactlyRepresentablePowersOfTen.all (fun x => isScale x.toModel.unpack) = true := by decide +kernel
  exact Array.all_eq_true.1 all e h

theorem unsigned_ofScientific (digits : Nat) (negative : Bool) (exponent : Nat) :
    Unsigned (Float.ofScientific digits negative exponent) := by
  unfold Float.ofScientific
  split
  · next small =>
    have whole : Positive digits.toUInt64.toFloat.toModel.unpack := positive_pack (positive_ofNat _ _)
    obtain ⟨mantissa, power, filled, ten⟩ := exists_of_isScale (isScale_powerOfTen (e := exponent) (Nat.lt_succ_of_le small.2))
    dsimp only
    split
    · exact positive_pack (positive_div _ _ _ _ whole ten)
    · exact positive_pack (positive_mul _ _ _ _ whole ten)
  · exact positive_pack (positive_ofScientific _ _ _)

theorem unsigned_nearestDouble (digits : Nat) (exponent : Int) : Unsigned (nearestDouble digits exponent) := by
  unfold nearestDouble
  dsimp only
  split
  · exact unsigned_ofScientific 0 true 1
  split
  · exact rfl
  · exact unsigned_ofScientific ..

theorem unsigned_of_unsigned? {text : List Char} {x : Float} (read : unsigned? text = some x) : Unsigned x := by
  unfold unsigned? at read
  dsimp only at read
  -- With and without a point.
  split at read <;>
  · split at read
    · cases read
    · obtain ⟨exponent, -, rfl⟩ := Option.map_eq_some_iff.1 read
      exact unsigned_nearestDouble ..

/-- What is read from digits and points has no sign. -/
theorem unsigned_of_read? {text : String} {x : Float} (plain : Plain text.toList) (read : read? text = some x) :
    Unsigned x :=
  unsigned_of_unsigned? (plain.read?_eq.symm.trans read)

end Reading

end Reckoner.Decimal
