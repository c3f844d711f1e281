import Reckoner.Proofs.Decimal.Magnitude

/-!
# Numbers with two decimal places

Of a number between -32 and 32 both ways of rounding to two decimal places make a zero, or a double between
2 ^ -8 and 2 ^ 13. The hundredths are counted by a whole number of at most twelve bits, which is divided by a hundred again.
-/

namespace Reckoner.Decimal

open Float.Model Float.Model.UnpackedFloat

/-- Zero, or with a full mantissa and an exponent from `low` to `high`. -/
def Sized (low high : Int) (u : UnpackedFloat) : Prop :=
  (∃ sign, u = .zero sign) ∨ Normal low high u

/-- A double that is zero, or not far from one. -/
def Modest (x : Float) : Prop := Sized (-60) (-40) x.toModel.unpack

variable {u v l h : UnpackedFloat} {low high low' high' : Int} {x y : Float} {k : Nat}

namespace Sized

theorem weaken (hu : Sized low high u) (lower : low' ≤ low) (upper : high ≤ high') : Sized low' high' u :=
  hu.imp_right fun normal => normal.weaken lower upper

theorem unpack_pack (hu : Sized low high u) (least : -1074 ≤ low) (most : high ≤ 971) :
    UnpackedFloat.unpack Format.binary64 (UnpackedFloat.pack Format.binary64 u) = u := by
  rcases hu with ⟨sign, rfl⟩ | normal
  · exact unpack_pack_zero sign
  · exact normal.unpack_pack least most

theorem neg (hu : Sized low high u) : Sized low high u.neg := by
  rcases hu with ⟨sign, rfl⟩ | normal
  · exact .inl ⟨-sign, rfl⟩
  · exact .inr normal.neg

theorem mul (hu : Sized low high u) (hv : Normal low' high' v) (least : -1074 ≤ low + low' + 52) :
    Sized (low + low' + 52) (high + high' + 54) (UnpackedFloat.mul Format.binary64 u v) := by
  rcases hu with ⟨sign, rfl⟩ | normal
  · cases hv with
    | finite sign' => exact .inl ⟨sign * sign', rfl⟩
  · exact .inr (normal.mul hv least)

theorem div (hu : Sized low high u) (hv : Normal low' high' v) (least : -1074 ≤ low - high' - 53) :
    Sized (low - high' - 53) (high - low' - 51) (UnpackedFloat.div Format.binary64 u v) := by
  rcases hu with ⟨sign, rfl⟩ | normal
  · cases hv with
    | finite sign' => exact .inl ⟨sign / sign', rfl⟩
  · exact .inr (normal.div hv least)

end Sized

section Bounds

/-- The parts of a double: the mantissa has at most 53 bits, and no exponent is below the least one. -/
theorem unpack_bounds {sign : Sign} {mantissa : Nat} {exponent : Int} {filled : 0 < mantissa}
    (parts : x.toModel.unpack = .finite sign mantissa exponent filled) : mantissa < 2 ^ 53 ∧ -1074 ≤ exponent := by
  have binary : Binary.ofBits x.toBits.toNat = .finite (sign == .negative) mantissa exponent := by
    rw [← Binary.ofFloat, Binary.ofFloat_eq, parts]
    rfl
  unfold Binary.ofBits at binary
  dsimp only at binary
  have fraction : x.toBits.toNat % hiddenBit < hiddenBit := Nat.mod_lt _ (by decide)
  unfold hiddenBit at *
  split at binary
  · split at binary <;> cases binary
  · split at binary
    · obtain ⟨-, fractions, exponents⟩ := Binary.finite.inj binary
      omega
    · next normal =>
      rw [beq_iff_eq] at normal
      obtain ⟨-, fractions, exponents⟩ := Binary.finite.inj binary
      omega

/-- A bound for the numbers of one sign is also one for their exponents. -/
theorem exponent_le {m m' : Nat} {e e' : Int} (same : ((compare e e').then (compare m m')).isLE = true) : e ≤ e' := by
  by_contra greater
  have order : compare e e' = .gt := Int.compare_eq_gt.2 (by omega)
  rw [order] at same
  cases same

/-- What lies between two numbers has no larger exponent than they have. -/
theorem moderate_of_between {a x b : Float} (lower : a ≤ x) (upper : x ≤ b) (least : Moderate high a.toModel.unpack)
    (most : Moderate high b.toModel.unpack) : Moderate high x.toModel.unpack := by
  have above : a.toModel.unpack.le x.toModel.unpack = true := of_decide_eq_true lower
  have below : x.toModel.unpack.le b.toModel.unpack = true := of_decide_eq_true upper
  have bounds := @unpack_bounds x
  unfold UnpackedFloat.le at above below
  generalize x.toModel.unpack = u at *
  generalize a.toModel.unpack = l at *
  generalize b.toModel.unpack = h at *
  cases u with
  | notANumber => cases least <;> cases above
  | infinity sign =>
    cases sign with
    | positive => cases most <;> cases below
    | negative => cases least <;> cases above
  | zero sign => exact .zero sign
  | finite sign m e filled =>
    obtain ⟨few, bottom⟩ := bounds rfl
    refine .finite sign filled few bottom ?_
    cases sign with
    | positive =>
      cases most with
      | zero => cases below
      | @finite _ _ sign' _ _ _ bounded =>
        cases sign' with
        | positive => exact (exponent_le below).trans bounded
        | negative => cases below
    | negative =>
      cases least with
      | zero => cases above
      | @finite m' e' sign' _ _ _ bounded =>
        cases sign' with
        | positive => cases above
        | negative =>
          have order : ((compare e' e).then (compare m' m)).swap.isLE = true := above
          rw [Ordering.swap_then, Int.compare_swap, Nat.compare_swap] at order
          exact (exponent_le order).trans bounded

end Bounds

section Arithmetic

/-- A double is changed without another loss if the result has a size. -/
theorem unpack_mul (hx : Sized low high x.toModel.unpack) (hy : Normal low' high' y.toModel.unpack)
    (least : -1074 ≤ low + low' + 52) (most : high + high' + 54 ≤ 971) :
    Sized (low + low' + 52) (high + high' + 54) (x * y).toModel.unpack := by
  have product := hx.mul hy least
  change Sized _ _ (UnpackedFloat.unpack _ (UnpackedFloat.pack _ (UnpackedFloat.mul _ x.toModel.unpack y.toModel.unpack)))
  rwa [product.unpack_pack least most]

theorem unpack_div (hx : Sized low high x.toModel.unpack) (hy : Normal low' high' y.toModel.unpack)
    (least : -1074 ≤ low - high' - 53) (most : high - low' - 51 ≤ 971) :
    Sized (low - high' - 53) (high - low' - 51) (x / y).toModel.unpack := by
  have quotient := hx.div hy least
  change Sized _ _ (UnpackedFloat.unpack _ (UnpackedFloat.pack _ (UnpackedFloat.div _ x.toModel.unpack y.toModel.unpack)))
  rwa [quotient.unpack_pack least most]

theorem unpack_withSign (negative : Bool) (hx : Sized low high x.toModel.unpack) (least : -1074 ≤ low) (most : high ≤ 971) :
    Sized low high (withSign negative x).toModel.unpack := by
  cases negative with
  | false => exact hx
  | true =>
    change Sized _ _ (UnpackedFloat.unpack _ (UnpackedFloat.pack _ x.toModel.unpack.neg))
    rw [hx.neg.unpack_pack least most]
    exact hx.neg

/-- A whole number of at most thirteen bits. -/
theorem unpack_toFloat (few : k ≤ 4096) : Sized (-52) (-39) k.toUInt64.toFloat.toModel.unpack := by
  have whole : k.toUInt64.toNat = k := Nat.mod_eq_of_lt (by omega)
  change Sized _ _ (UnpackedFloat.unpack _ (UnpackedFloat.pack _ (UnpackedFloat.ofNat _ k.toUInt64.toNat)))
  rw [whole]
  by_cases zero : k = 0
  · subst zero
    exact .inl ⟨.positive, rfl⟩
  · have bits : k.log2 < 13 := (Nat.log2_lt zero).2 (by omega)
    have sized : Sized (-52) (-39) (UnpackedFloat.ofNat Format.binary64 k) :=
      .inr ((normal_ofNat (Nat.pos_of_ne_zero zero) (by omega)).weaken (by omega) (by omega))
    rwa [sized.unpack_pack (by decide) (by decide)]

instance (low high : Int) : (u : UnpackedFloat) → Decidable (Normal low high u)
  | .finite sign mantissa exponent filled =>
    decidable_of_iff (2 ^ 52 ≤ mantissa ∧ mantissa < 2 ^ 53 ∧ low ≤ exponent ∧ exponent ≤ high)
      ⟨fun h => .finite sign filled h.1 h.2.1 h.2.2.1 h.2.2.2, fun | .finite _ _ a b c d => ⟨a, b, c, d⟩⟩
  | .zero _ => isFalse fun h => by cases h
  | .infinity _ => isFalse fun h => by cases h
  | .notANumber => isFalse fun h => by cases h

theorem normal_one : Normal (-52) (-52) (Float.exactlyRepresentablePowersOfTen[0]).toModel.unpack := by decide +kernel

theorem normal_hundred : Normal (-46) (-46) (Float.exactlyRepresentablePowersOfTen[2]).toModel.unpack := by decide +kernel

/-- A count of hundredths, divided by a hundred. -/
theorem modest_hundredths (few : k ≤ 4096) : Modest (Float.ofScientific k true 2) := by
  have quotient := unpack_div (unpack_toFloat few) normal_hundred (by decide) (by decide)
  have short : k < 2 ^ 53 ∧ 2 ≤ 22 := ⟨by omega, by decide⟩
  rw [Modest, Float.ofScientific, dif_pos short]
  exact quotient.weaken (by decide) (by decide)

theorem sized_whole (few : k ≤ 4096) : Sized (-52) (-37) (Float.ofScientific k false 0).toModel.unpack := by
  have product := unpack_mul (unpack_toFloat few) normal_one (by decide) (by decide)
  have short : k < 2 ^ 53 ∧ 0 ≤ 22 := ⟨by omega, by decide⟩
  rw [Float.ofScientific, dif_pos short]
  exact product.weaken (by decide) (by decide)

end Arithmetic

section Rounding

theorem roundDiv_le {num den bound : Nat} (below : num < bound * den) : roundDiv num den ≤ bound := by
  have filled : 0 < den := Nat.pos_of_mul_pos_left (Nat.zero_lt_of_lt below)
  have quotient : num / den < bound := (Nat.div_lt_iff_lt_mul filled).2 below
  rcases roundDiv_cases num den with same | next <;> omega

theorem Moderate.ofFloat (hx : Moderate high x.toModel.unpack) (least : -1074 ≤ high) :
    ∃ negative mantissa exponent, Binary.ofFloat x = .finite negative mantissa exponent ∧ mantissa < 2 ^ 53 ∧
      exponent ≤ high := by
  rw [Binary.ofFloat_eq]
  generalize x.toModel.unpack = u at hx
  cases hx with
  | zero sign => exact ⟨_, _, _, rfl, by decide, least⟩
  | finite sign filled few _ most => exact ⟨_, _, _, rfl, few, most⟩

/-- A mantissa is the numerator as long as the exponent is negative. -/
theorem scaled_of_neg (mantissa : Nat) {exponent : Int} (negative : exponent < 0) :
    Quotient.scaled mantissa 2 exponent = ⟨mantissa, 2 ^ (-exponent).toNat⟩ := by
  rw [Quotient.scaled, if_neg (by omega)]
  rfl

/-- Below 32 there are few hundredths. -/
theorem roundPlaces_eq (hx : Moderate (-48) x.toModel.unpack) :
    ∃ negative k, k ≤ 4096 ∧ roundPlaces 2 x = withSign negative (Float.ofScientific k true 2) := by
  obtain ⟨negative, mantissa, exponent, parts, few, most⟩ := hx.ofFloat (by decide)
  have wide : 2 ^ 48 ≤ 2 ^ (-exponent).toNat := Nat.pow_le_pow_right (by decide) (by omega)
  refine ⟨negative, _, ?_, by simp only [roundPlaces, parts]; rfl⟩
  rw [scaled_of_neg mantissa (by omega)]
  refine roundDiv_le ?_
  change mantissa * 100 < 4096 * 2 ^ (-exponent).toNat
  omega

/-- Below 4096 there are few whole numbers. -/
theorem nearestWhole_eq (hx : Moderate (-41) x.toModel.unpack) :
    ∃ negative k, k ≤ 4096 ∧ nearestWhole x = withSign negative (Float.ofScientific k false 0) := by
  obtain ⟨negative, mantissa, exponent, parts, few, most⟩ := hx.ofFloat (by decide)
  have wide : 2 ^ 41 ≤ 2 ^ (-exponent).toNat := Nat.pow_le_pow_right (by decide) (by omega)
  refine ⟨negative, _, ?_, by simp only [nearestWhole, parts]; rfl⟩
  rw [scaled_of_neg mantissa (by omega)]
  refine roundDiv_le ?_
  change mantissa < 4096 * 2 ^ (-exponent).toNat
  omega

theorem moderate_of_normal (normal : Normal low high u) (least : -1074 ≤ low) : Moderate high u := by
  cases normal with
  | finite sign filled full few lower upper => exact .finite sign filled few (least.trans lower) upper

/-- Rounding to two decimal places from the exact value. -/
theorem modest_roundPlaces (lower : 0.0 ≤ x) (upper : x ≤ 20.0) : Modest (roundPlaces 2 x) := by
  have twenty : Normal (-48) (-48) (20.0 : Float).toModel.unpack := by decide +kernel
  have zero : (0.0 : Float).toModel.unpack = .zero .positive := rfl
  have moderate : Moderate (-48) x.toModel.unpack :=
    moderate_of_between lower upper (zero ▸ .zero .positive) (moderate_of_normal twenty (by decide))
  obtain ⟨negative, k, few, rounded⟩ := roundPlaces_eq moderate
  rw [rounded]
  exact unpack_withSign negative (modest_hundredths few) (by decide) (by decide)

/-- Rounding to two decimal places by way of the hundredfold. -/
theorem modest_roundScaled (lower : -10.0 ≤ x) (upper : x ≤ 10.0) : Modest (roundScaled 2 x) := by
  have ten : Normal (-49) (-49) (10.0 : Float).toModel.unpack := by decide +kernel
  have minus : Normal (-49) (-49) (-10.0 : Float).toModel.unpack := by decide +kernel
  have scale : Normal (-46) (-46) (Float.ofScientific (Nat.pow 10 2) false 0).toModel.unpack := by decide +kernel
  have moderate : Moderate (-49) x.toModel.unpack :=
    moderate_of_between lower upper (moderate_of_normal minus (by decide)) (moderate_of_normal ten (by decide))
  have product : Moderate (-41) (x * Float.ofScientific (Nat.pow 10 2) false 0).toModel.unpack :=
    (moderate.mul (moderate_of_normal scale (by decide)) (by decide)).unpack_pack (by decide)
  obtain ⟨negative, k, few, rounded⟩ := nearestWhole_eq product
  have whole := unpack_withSign negative (sized_whole few) (by decide) (by decide)
  have quotient := unpack_div whole scale (by decide) (by decide)
  simp only [roundScaled, rounded]
  exact quotient.weaken (by decide) (by decide)

end Rounding

end Reckoner.Decimal
