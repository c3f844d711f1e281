import Reckoner.Decimal.Places
import Reckoner.Proofs.Decimal.Unsigned

/-!
# How large a rounded double is

The logical model rounds a mantissa to 53 bits: it is shifted to its place, rounded, and shifted once more if the
carry needs another bit. `round_cases` says what comes of it, without the error that is made. From there two
bounds are followed through the operations. A `Moderate` number has an exponent that is not too large; a `Normal` one
fills its mantissa, so that both ends of its exponent tell how large it is.
-/

namespace Reckoner.Decimal

open Float.Model Float.Model.UnpackedFloat

/-- Finite, with a mantissa of at most 53 bits and an exponent that is not above `high`. -/
inductive Moderate (high : Int) : UnpackedFloat → Prop where
  | zero (sign : Sign) : Moderate high (.zero sign)
  | finite {mantissa : Nat} {exponent : Int} (sign : Sign) (filled : 0 < mantissa) (few : mantissa < 2 ^ 53)
      (least : -1074 ≤ exponent) (most : exponent ≤ high) : Moderate high (.finite sign mantissa exponent filled)

/-- Finite and not zero, with a mantissa of 53 bits and an exponent from `low` to `high`. -/
inductive Normal (low high : Int) : UnpackedFloat → Prop where
  | finite {mantissa : Nat} {exponent : Int} (sign : Sign) (filled : 0 < mantissa) (full : 2 ^ 52 ≤ mantissa)
      (few : mantissa < 2 ^ 53) (lower : low ≤ exponent) (upper : exponent ≤ high) : Normal low high (.finite sign mantissa exponent filled)

variable {u v : UnpackedFloat} {sign : Sign} {mantissa r : Nat} {exponent low high low' high' : Int} {accuracy : Accuracy}

section Rounding

theorem mantissa_shiftRight (em : ExtendedMantissa) (k : Nat) : (em >>> k).mantissa = em.mantissa / 2 ^ k := by
  change (k.repeat ExtendedMantissa.shiftRightOne em).mantissa = _
  induction k with
  | zero => exact (Nat.div_one _).symm
  | succ k ih =>
    rw [Nat.repeat, Nat.pow_succ, ← Nat.div_div_eq_div_mul, ← ih]
    rfl

theorem roundedMantissa_cases (em : ExtendedMantissa) :
    em.roundedMantissa = em.mantissa ∨ em.roundedMantissa = em.mantissa + 1 := by
  obtain ⟨m, round, sticky⟩ := em
  have parity := Nat.mod_two_eq_zero_or_one m
  cases round <;> cases sticky <;>
    simp only [ExtendedMantissa.roundedMantissa, ExtendedMantissa.accuracy, Accuracy.roundToNearestEven]
  all_goals simp
  all_goals omega

/-- The places by which a mantissa is shifted: to 53 bits, or less far to the least exponent. -/
def shiftOf (mantissa : Nat) (exponent : Int) : Nat :=
  (max ((mantissa.log2 : Int) + exponent - 52) (-1074) - exponent).toNat

theorem targetExponent_eq (mantissa : Nat) (exponent : Int) :
    Format.binary64.targetExponent (totalExponent mantissa exponent) = max ((mantissa.log2 : Int) + exponent - 52) (-1074) := by
  have bits : Format.binary64.mantissaBits = 53 := rfl
  simp only [Format.targetExponent, totalExponent, bits, Format.minExponent]
  norm_num
  omega

theorem shiftToTargetExponent_eq (mantissa : Nat) (exponent : Int) (accuracy : Accuracy) :
    shiftToTargetExponent Format.binary64 mantissa exponent accuracy =
      (ExtendedMantissa.ofMantissaAndAccuracy mantissa accuracy >>> shiftOf mantissa exponent, exponent + shiftOf mantissa exponent) := by
  simp only [shiftToTargetExponent, shiftToExponent, targetExponent_eq, shiftOf]

theorem mantissa_ofMantissaAndAccuracy (mantissa : Nat) (accuracy : Accuracy) :
    (ExtendedMantissa.ofMantissaAndAccuracy mantissa accuracy).mantissa = mantissa := by
  fun_cases ExtendedMantissa.ofMantissaAndAccuracy mantissa accuracy <;> rfl

/-- What is left of a mantissa has at most 53 bits. -/
theorem div_shiftOf_lt (mantissa : Nat) (exponent : Int) : mantissa / 2 ^ shiftOf mantissa exponent < 2 ^ 53 := by
  have enough : mantissa.log2 + 1 ≤ 53 + shiftOf mantissa exponent := by
    unfold shiftOf
    omega
  rw [Nat.div_lt_iff_lt_mul (Nat.two_pow_pos _), ← Nat.pow_add]
  exact Nat.lt_of_lt_of_le Nat.lt_log2_self (Nat.pow_le_pow_right (by decide) enough)

/-- A mantissa that has its place is not shifted. -/
theorem shiftOf_eq_zero (few : r < 2 ^ 53) (least : -1074 ≤ exponent) : shiftOf r exponent = 0 := by
  have bits : r.log2 ≤ 52 := by
    by_cases zero : r = 0
    · simp [zero]
    · have := (Nat.log2_lt zero).2 few
      omega
  unfold shiftOf
  omega

/-- A mantissa is shifted, rounded and shifted again. -/
theorem roundWithAccuracy_eq (sign : Sign) (mantissa : Nat) (exponent : Int) (accuracy : Accuracy) :
    let k := shiftOf mantissa exponent
    ∃ r, (r = mantissa / 2 ^ k ∨ r = mantissa / 2 ^ k + 1) ∧
      roundWithAccuracy Format.binary64 sign mantissa exponent accuracy =
        if h : r / 2 ^ shiftOf r (exponent + k) = 0 then .zero sign
        else .finite sign (r / 2 ^ shiftOf r (exponent + k)) (exponent + k + shiftOf r (exponent + k)) (Nat.pos_of_ne_zero h) := by
  intro k
  have rounded := roundedMantissa_cases (ExtendedMantissa.ofMantissaAndAccuracy mantissa accuracy >>> k)
  rw [mantissa_shiftRight, mantissa_ofMantissaAndAccuracy] at rounded
  refine ⟨_, rounded, ?_⟩
  unfold roundWithAccuracy
  rw [shiftToTargetExponent_eq]
  dsimp only
  rw [shiftToTargetExponent_eq]
  dsimp only
  rw [mantissa_shiftRight, mantissa_ofMantissaAndAccuracy]

/-- The result of rounding is zero, or has the rounded mantissa, or that of the next power of two. -/
theorem round_cases (sign : Sign) (mantissa : Nat) (exponent : Int) (accuracy : Accuracy) :
    let k := shiftOf mantissa exponent
    let result := roundWithAccuracy Format.binary64 sign mantissa exponent accuracy
    (result = .zero sign ∧ mantissa / 2 ^ k = 0) ∨
      ∃ r e filled, result = .finite sign r e filled ∧ r < 2 ^ 53 ∧
        (e = exponent + k ∧ mantissa / 2 ^ k ≤ r ∨ e = exponent + k + 1 ∧ 2 ^ 52 ≤ r) := by
  intro k result
  have least : -1074 ≤ exponent + k := by
    show -1074 ≤ exponent + (shiftOf mantissa exponent : Int)
    unfold shiftOf
    omega
  have few : mantissa / 2 ^ k < 2 ^ 53 := div_shiftOf_lt mantissa exponent
  obtain ⟨r, rounded, eq⟩ := roundWithAccuracy_eq sign mantissa exponent accuracy
  change result = _ at eq
  change r = mantissa / 2 ^ k ∨ r = mantissa / 2 ^ k + 1 at rounded
  by_cases carry : r = 2 ^ 53
  · have one : shiftOf r (exponent + k) = 1 := by
      rw [carry]
      unfold shiftOf
      rw [Nat.log2_two_pow]
      omega
    have half : r / 2 ^ 1 = 2 ^ 52 := by rw [carry]; rfl
    rw [one, half, dif_neg (by decide)] at eq
    exact .inr ⟨_, _, _, eq, by decide, .inr ⟨rfl, le_rfl⟩⟩
  · have fits : r < 2 ^ 53 := by omega
    have none : r / 2 ^ shiftOf r (exponent + k) = r := by rw [shiftOf_eq_zero fits least, Nat.pow_zero, Nat.div_one]
    rw [none] at eq
    by_cases zero : r = 0
    · rw [dif_pos zero] at eq
      refine .inl ⟨eq, ?_⟩
      rcases rounded with same | next
      · exact same.symm.trans zero
      · exact absurd (next.symm.trans zero) (Nat.succ_ne_zero _)
    · rw [dif_neg zero] at eq
      refine .inr ⟨_, _, _, eq, fits, .inl ⟨?_, by omega⟩⟩
      rw [shiftOf_eq_zero fits least, Nat.cast_zero, Int.add_zero]

/-- A long mantissa is cut to 53 bits, and its exponent grows by the bits that are cut off, and one for the carry. -/
theorem round_normal {bits : Nat} (sign : Sign) (accuracy : Accuracy) (long : 2 ^ (52 + bits) ≤ mantissa)
    (short : mantissa < 2 ^ (53 + bits)) (least : -1074 ≤ exponent + bits) :
    ∃ r e filled, roundWithAccuracy Format.binary64 sign mantissa exponent accuracy = .finite sign r e filled ∧
      2 ^ 52 ≤ r ∧ r < 2 ^ 53 ∧ (e = exponent + bits ∨ e = exponent + bits + 1) := by
  have filled : mantissa ≠ 0 := by
    have := Nat.two_pow_pos (52 + bits)
    omega
  have log : mantissa.log2 = 52 + bits := by
    have lower := (Nat.le_log2 filled).2 long
    have upper := (Nat.log2_lt filled).2 short
    omega
  have shift : shiftOf mantissa exponent = bits := by
    unfold shiftOf
    omega
  have full : 2 ^ 52 ≤ mantissa / 2 ^ bits := by
    rw [Nat.le_div_iff_mul_le (Nat.two_pow_pos _), ← Nat.pow_add]
    exact long
  rcases round_cases sign mantissa exponent accuracy with ⟨-, none⟩ | ⟨r, e, filled, eq, few, place⟩
  · rw [shift] at none
    omega
  · rw [shift] at place
    refine ⟨r, e, filled, eq, ?_, few, ?_⟩ <;> omega

end Rounding

section Packing

theorem ofBitVec_unpackSign (sign : Sign) (exponent : BitVec 11) (fraction : BitVec 52) :
    Sign.ofBitVec (unpackSign (packComponents Format.binary64 sign exponent fraction)) = sign := by
  rw [unpackSign_packComponents]
  cases sign <;> rfl

theorem finite_congr {s s' : Sign} {m m' : Nat} {e e' : Int} {filled : 0 < m} {filled' : 0 < m'} (hs : s = s') (hm : m = m')
    (he : e = e') : UnpackedFloat.finite s m e filled = .finite s' m' e' filled' := by
  subst hs hm he
  rfl

section

variable (bits : BitVec Format.binary64.numBits)

theorem unpack_of_normal (finite : unpackExponent bits ≠ -1#11) (normal : unpackExponent bits ≠ 0#11) :
    UnpackedFloat.unpack Format.binary64 bits =
      .finite (.ofBitVec (unpackSign bits)) (hiddenBit + (unpackMantissa bits).toNat) ((unpackExponent bits).toNat - 1075)
        (Nat.add_pos_left (by decide) _) := by
  unfold UnpackedFloat.unpack
  dsimp only
  rw [if_neg finite, if_neg normal]
  exact finite_congr rfl (toNat_hiddenBit_append _) rfl

theorem unpack_of_subnormal (subnormal : unpackExponent bits = 0#11) (filled : 0 < (unpackMantissa bits).toNat) :
    UnpackedFloat.unpack Format.binary64 bits =
      .finite (.ofBitVec (unpackSign bits)) (unpackMantissa bits).toNat (-1074) filled := by
  have finite : unpackExponent bits ≠ -1#11 := by
    rw [subnormal]
    decide
  have other : unpackMantissa bits ≠ 0#52 := by
    intro zero
    rw [zero] at filled
    exact absurd filled (by decide)
  unfold UnpackedFloat.unpack
  dsimp only
  rw [if_neg finite, if_pos subnormal, dif_neg other]
  refine finite_congr rfl rfl ?_
  rw [subnormal]
  rfl

end

section

variable (sign : Sign) {biased : BitVec 11} (fraction : BitVec 52)

/-- The hidden bit of a normal number comes back. -/
theorem unpack_normal (finite : biased ≠ -1#11) (normal : biased ≠ 0#11) :
    UnpackedFloat.unpack Format.binary64 (packComponents Format.binary64 sign biased fraction) =
      .finite sign (hiddenBit + fraction.toNat) (biased.toNat - 1075) (Nat.add_pos_left (by decide) _) := by
  have exponent : unpackExponent (packComponents Format.binary64 sign biased fraction) = biased :=
    unpackExponent_packComponents
  have rest : unpackMantissa (packComponents Format.binary64 sign biased fraction) = fraction :=
    unpackMantissa_packComponents
  refine (unpack_of_normal _ (by rwa [exponent]) (by rwa [exponent])).trans ?_
  exact finite_congr (ofBitVec_unpackSign ..) (by rw [rest]) (by rw [exponent])

theorem unpack_subnormal (filled : 0 < fraction.toNat) :
    UnpackedFloat.unpack Format.binary64 (packComponents Format.binary64 sign 0#11 fraction) =
      .finite sign fraction.toNat (-1074) filled := by
  have rest : unpackMantissa (packComponents Format.binary64 sign 0#11 fraction) = fraction :=
    unpackMantissa_packComponents
  refine (unpack_of_subnormal _ unpackExponent_packComponents (by rwa [rest])).trans ?_
  exact finite_congr (ofBitVec_unpackSign ..) (by rw [rest]) rfl

end

/-- Fifty-three bits are packed without a loss, and the hidden one decides about the exponent. -/
theorem unpack_pack (filled : 0 < mantissa) (few : mantissa < 2 ^ 53) (least : -1074 ≤ exponent) (most : exponent ≤ 971) :
    UnpackedFloat.unpack Format.binary64 (UnpackedFloat.pack Format.binary64 (.finite sign mantissa exponent filled)) =
      .finite sign mantissa (if 2 ^ 52 ≤ mantissa then exponent else -1074) filled := by
  have sign_eq (s : Sign) : Sign.ofBitVec s.toBitVec = s := by cases s <;> rfl
  delta UnpackedFloat.pack
  dsimp only
  have biased : (exponent + Format.binary64.exponentBias + Format.binary64.mantissaBitsWithoutImplicit).toNat =
      (exponent + 1075).toNat := by
    show (exponent + 1023 + 52).toNat = _
    omega
  rw [biased]
  have room : ¬ 2 ^ Format.binary64.exponentBits ≤ (exponent + 1075).toNat + 1 := by
    show ¬ 2048 ≤ (exponent + 1075).toNat + 1
    omega
  rw [if_neg room]
  by_cases full : 2 ^ 52 ≤ mantissa
  · have bits : mantissa.log2 + 1 = Format.binary64.mantissaBits := by
      have lower := (Nat.le_log2 filled.ne').2 full
      have upper := (Nat.log2_lt filled.ne').2 few
      show mantissa.log2 + 1 = 1 + 52
      omega
    have one : (BitVec.ofNat 11 (exponent + 1075).toNat).toNat = (exponent + 1075).toNat := by
      rw [BitVec.toNat_ofNat, Nat.mod_eq_of_lt]
      omega
    have rest : hiddenBit + (BitVec.ofNat 52 mantissa).toNat = mantissa := by
      rw [BitVec.toNat_ofNat, hiddenBit]
      omega
    have finite : BitVec.ofNat 11 (exponent + 1075).toNat ≠ -1#11 := by
      intro same
      have number : (exponent + 1075).toNat = 2047 := one.symm.trans (congrArg BitVec.toNat same)
      omega
    have normal : BitVec.ofNat 11 (exponent + 1075).toNat ≠ 0#11 := by
      intro same
      have number : (exponent + 1075).toNat = 0 := one.symm.trans (congrArg BitVec.toNat same)
      omega
    rw [if_pos bits, if_pos full]
    refine (unpack_normal sign (BitVec.ofNat 52 mantissa) finite normal).trans ?_
    exact finite_congr rfl rest (by omega)
  · have bits : ¬ mantissa.log2 + 1 = Format.binary64.mantissaBits := by
      have upper := (Nat.log2_lt filled.ne').2 (Nat.lt_of_not_le full)
      show ¬ mantissa.log2 + 1 = 1 + 52
      omega
    have rest : (BitVec.ofNat 52 mantissa).toNat = mantissa := by
      rw [BitVec.toNat_ofNat, Nat.mod_eq_of_lt (Nat.lt_of_not_le full)]
    rw [if_neg bits, if_neg full]
    refine (unpack_subnormal sign (BitVec.ofNat 52 mantissa) (by rw [rest]; exact filled)).trans ?_
    exact finite_congr rfl rest rfl

theorem unpack_pack_zero (sign : Sign) :
    UnpackedFloat.unpack Format.binary64 (UnpackedFloat.pack Format.binary64 (.zero sign)) = .zero sign := by
  cases sign <;> rfl

end Packing

section Moderate

theorem Moderate.unpack_pack (h : Moderate high u) (most : high ≤ 971) :
    Moderate high (UnpackedFloat.unpack Format.binary64 (UnpackedFloat.pack Format.binary64 u)) := by
  cases h with
  | zero sign =>
    rw [unpack_pack_zero]
    exact .zero sign
  | finite sign filled few least bounded =>
    rw [Decimal.unpack_pack filled few least (bounded.trans most)]
    refine .finite sign filled few ?_ ?_ <;> split <;> omega

theorem moderate_round (sign : Sign) (accuracy : Accuracy) (least : -1074 ≤ high) (fits : exponent ≤ high)
    (bits : mantissa.log2 + exponent - 52 ≤ high) :
    Moderate (high + 1) (roundWithAccuracy Format.binary64 sign mantissa exponent accuracy) := by
  have place : -1074 ≤ exponent + shiftOf mantissa exponent ∧ exponent + shiftOf mantissa exponent ≤ high := by
    unfold shiftOf
    omega
  rcases round_cases sign mantissa exponent accuracy with ⟨eq, -⟩ | ⟨r, e, filled, eq, few, exponents⟩
  · rw [eq]
    exact .zero sign
  · rw [eq]
    refine .finite sign filled few ?_ ?_ <;> rcases exponents with ⟨rfl, -⟩ | ⟨rfl, -⟩ <;> omega

theorem Moderate.mul (hu : Moderate high u) (hv : Moderate high' v) (least : -1074 ≤ high + high' + 53) :
    Moderate (high + high' + 54) (UnpackedFloat.mul Format.binary64 u v) := by
  cases hu with
  | zero sign =>
    cases hv with
    | zero sign' => exact .zero (sign * sign')
    | finite sign' => exact .zero (sign * sign')
  | @finite m e sign filled few _ most =>
    cases hv with
    | zero sign' => exact .zero (sign * sign')
    | @finite m' e' sign' filled' few' _ most' =>
      have short : m * m' < 2 ^ 53 * 2 ^ 53 := Nat.mul_lt_mul'' few few'
      have bits : (m * m').log2 < 106 := (Nat.log2_lt (Nat.mul_pos filled filled').ne').2 short
      have bound := moderate_round (sign * sign') .exact least (show e + e' ≤ _ by omega)
        (show ((m * m').log2 : Int) + (e + e') - 52 ≤ _ by omega)
      rwa [Int.add_assoc _ 53 1] at bound

end Moderate

section Normal

theorem Normal.weaken (h : Normal low high u) (lower : low' ≤ low) (upper : high ≤ high') : Normal low' high' u := by
  cases h with
  | finite sign filled full few lower' upper' => exact .finite sign filled full few (lower.trans lower') (upper'.trans upper)

theorem Normal.unpack_pack (h : Normal low high u) (least : -1074 ≤ low) (most : high ≤ 971) :
    UnpackedFloat.unpack Format.binary64 (UnpackedFloat.pack Format.binary64 u) = u := by
  cases h with
  | finite sign filled full few lower upper =>
    rw [Decimal.unpack_pack filled few (least.trans lower) (upper.trans most), if_pos full]

theorem Normal.neg (h : Normal low high u) : Normal low high u.neg := by
  cases h with
  | finite sign filled full few lower upper => exact .finite (-sign) filled full few lower upper

theorem normal_round (bits : Nat) (sign : Sign) (accuracy : Accuracy) (long : 2 ^ (52 + bits) ≤ mantissa)
    (short : mantissa < 2 ^ (53 + bits)) (least : -1074 ≤ exponent + bits) :
    Normal (exponent + bits) (exponent + bits + 1) (roundWithAccuracy Format.binary64 sign mantissa exponent accuracy) := by
  obtain ⟨r, e, filled, eq, full, few, exponents⟩ := round_normal sign accuracy long short least
  rw [eq]
  refine .finite sign filled full few ?_ ?_ <;> rcases exponents with rfl | rfl <;> omega

/-- A product has 105 or 106 bits before it is rounded. -/
theorem Normal.mul (hu : Normal low high u) (hv : Normal low' high' v) (least : -1074 ≤ low + low' + 52) :
    Normal (low + low' + 52) (high + high' + 54) (UnpackedFloat.mul Format.binary64 u v) := by
  cases hu with
  | @finite m e sign filled full few lower upper =>
    cases hv with
    | @finite m' e' sign' filled' full' few' lower' upper' =>
      have long : 2 ^ 52 * 2 ^ 52 ≤ m * m' := Nat.mul_le_mul full full'
      have short : m * m' < 2 ^ 53 * 2 ^ 53 := Nat.mul_lt_mul'' few few'
      change Normal _ _ (roundWithAccuracy Format.binary64 (sign * sign') (m * m') (e + e') .exact)
      by_cases half : m * m' < 2 ^ 105
      · exact (normal_round 52 _ _ long half (by omega)).weaken (by omega) (by omega)
      · exact (normal_round 53 _ _ (Nat.le_of_not_lt half) short (by omega)).weaken (by omega) (by omega)

/-- The dividend is shifted by 53 bits, so that the quotient has 53 or 54 of them. -/
theorem divCore_eq {m m' : Nat} {e e' : Int} (full : 2 ^ 52 ≤ m) (few : m < 2 ^ 53) (full' : 2 ^ 52 ≤ m')
    (few' : m' < 2 ^ 53) (least : -1074 ≤ e - e' - 53) :
    divCore Format.binary64 m e m' e' =
      (m * 2 ^ 53 / m', e - e' - 53, accuracyOfFraction (m * 2 ^ 53 % m') m') := by
  have log {n : Nat} (full : 2 ^ 52 ≤ n) (few : n < 2 ^ 53) : n.log2 = 52 := by
    have filled : n ≠ 0 := by omega
    have lower := (Nat.le_log2 filled).2 full
    have upper := (Nat.log2_lt filled).2 few
    omega
  have target : min (e - e') (Format.binary64.targetExponent (totalExponent m e - totalExponent m' e')) = e - e' - 53 := by
    have bits : Format.binary64.mantissaBits = 53 := rfl
    simp only [Format.targetExponent, totalExponent, bits, Format.minExponent, log full few, log full' few']
    norm_num
    omega
  have shift : (e - e' - (e - e' - 53)).toNat = 53 := by omega
  simp only [divCore, target, shift, Nat.shiftLeft_eq]

theorem Normal.div (hu : Normal low high u) (hv : Normal low' high' v) (least : -1074 ≤ low - high' - 53) :
    Normal (low - high' - 53) (high - low' - 51) (UnpackedFloat.div Format.binary64 u v) := by
  cases hu with
  | @finite m e sign filled full few lower upper =>
    cases hv with
    | @finite m' e' sign' filled' full' few' lower' upper' =>
      have long : 2 ^ 52 ≤ m * 2 ^ 53 / m' := by
        rw [Nat.le_div_iff_mul_le filled']
        omega
      have short : m * 2 ^ 53 / m' < 2 ^ 54 := by
        rw [Nat.div_lt_iff_lt_mul filled']
        omega
      unfold UnpackedFloat.div
      dsimp only
      rw [divCore_eq full few full' few' (by omega : -1074 ≤ e - e' - 53)]
      dsimp only
      by_cases half : m * 2 ^ 53 / m' < 2 ^ 53
      · exact (normal_round 0 _ _ long half (by omega)).weaken (by omega) (by omega)
      · exact (normal_round 1 _ _ (Nat.le_of_not_lt half) short (by omega)).weaken (by omega) (by omega)

/-- A whole number is shifted to the left until it fills its mantissa. -/
theorem normal_ofNat {n : Nat} (filled : 0 < n) (few : n < 2 ^ 53) :
    Normal (n.log2 - 52) (n.log2 - 51) (UnpackedFloat.ofNat Format.binary64 n) := by
  have log : n.log2 < 53 := (Nat.log2_lt filled.ne').2 few
  have target : Format.binary64.targetExponent (totalExponent n 0) = (n.log2 : Int) - 52 := by
    rw [targetExponent_eq]
    omega
  have shift : (0 - ((n.log2 : Int) - 52)).toNat = 52 - n.log2 := by omega
  have order : compare (n : Int) 0 = .gt := Int.compare_eq_gt.2 (by omega)
  have long : 2 ^ 52 ≤ n * 2 ^ (52 - n.log2) := by
    calc 2 ^ 52 = 2 ^ n.log2 * 2 ^ (52 - n.log2) := by rw [← Nat.pow_add]; congr 1; omega
      _ ≤ n * 2 ^ (52 - n.log2) := Nat.mul_le_mul_right _ (Nat.log2_self_le filled.ne')
  have short : n * 2 ^ (52 - n.log2) < 2 ^ 53 := by
    calc n * 2 ^ (52 - n.log2) < 2 ^ (n.log2 + 1) * 2 ^ (52 - n.log2) :=
          Nat.mul_lt_mul_of_pos_right Nat.lt_log2_self (Nat.two_pow_pos _)
      _ = 2 ^ 53 := by rw [← Nat.pow_add]; congr 1; omega
  simp only [UnpackedFloat.ofNat, UnpackedFloat.ofInt, UnpackedFloat.normalize, order, UnpackedFloat.round, target,
    decreaseExponent, shift, Nat.shiftLeft_eq, Int.toNat_natCast]
  exact (normal_round 0 .positive .exact long short (by omega)).weaken (by omega) (by omega)

end Normal

end Reckoner.Decimal
