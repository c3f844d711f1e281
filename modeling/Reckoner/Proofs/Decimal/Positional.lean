import Mathlib.Tactic.IntervalCases
import Reckoner.Decimal.Layout
import Reckoner.Proofs.Decimal.Hundredths

/-!
# Numbers that are written without an exponent

With six significant digits a number from a thousandth to ten thousand is written positionally: the exponent of its
first digit is known from its size, and the digits that are chosen are six, or seven when they are rounded up.
-/

namespace Reckoner.Decimal

/-- Digits, with a point among them or without one. -/
def Numeral (text : List Char) : Prop :=
  Plain text ∧ (∃ ch ∈ text, ch.isDigit = true) ∧ text.count '.' ≤ 1

variable {q : Quotient} {n k : Nat} {whole fraction : List Char} {x : Float}

section Leading

theorem digitCount_le_iff (filled : 0 < k) : digitCount n ≤ k ↔ n < 10 ^ k :=
  Nat.length_toDigits_le_iff (by decide) filled

theorem digitCount_pos (n : Nat) : 0 < digitCount n := Nat.length_toDigits_pos

/-- A positive number lies between the powers of ten that the number of its digits names. -/
theorem exists_digits (filled : 0 < n) : ∃ d, digitCount n = d + 1 ∧ 10 ^ d ≤ n ∧ n < 10 ^ (d + 1) := by
  obtain ⟨d, count⟩ := Nat.exists_eq_succ_of_ne_zero (digitCount_pos n).ne'
  refine ⟨d, count, ?_, (digitCount_le_iff (Nat.succ_pos d)).1 count.le⟩
  cases d with
  | zero => exact filled
  | succ d =>
    by_contra less
    have fewer := (digitCount_le_iff (Nat.succ_pos d)).2 (Nat.lt_of_not_le less)
    omega

/-- A quotient between a thousandth and ten thousand, shifted until it has six digits before the point. -/
theorem leading_cases (above : q.den ≤ 1000 * q.num) (below : q.num < 10000 * q.den) :
    ∃ c : Nat, 2 ≤ c ∧ c ≤ 8 ∧ q.leading = 5 - c ∧ 10 ^ 5 * q.den ≤ q.num * 10 ^ c ∧ q.num * 10 ^ c < 10 ^ 6 * q.den := by
  obtain ⟨num, den⟩ := q
  dsimp only at *
  unfold Quotient.leading
  dsimp only
  have filled : 0 < den := by omega
  have filled' : 0 < num := by omega
  have bounded {d n : Nat} (least : 10 ^ d ≤ n) (few : n < 10 ^ 4) : d < 4 :=
    (Nat.pow_lt_pow_iff_right (by decide)).1 (Nat.lt_of_le_of_lt least few)
  by_cases large : den ≤ num
  · obtain ⟨d, count, least, most⟩ := exists_digits (Nat.div_pos large filled)
    have few := bounded least ((Nat.div_lt_iff_lt_mul filled).2 below)
    rw [Nat.le_div_iff_mul_le filled] at least
    rw [Nat.div_lt_iff_lt_mul filled] at most
    rw [if_pos large, count]
    refine ⟨5 - d, by omega, by omega, by omega, ?_, ?_⟩ <;> interval_cases d <;> omega
  · obtain ⟨d, count, least, most⟩ := exists_digits (Nat.div_pos (Nat.le_of_not_le large) filled')
    have few := bounded least ((Nat.div_lt_iff_lt_mul filled').2 (by omega))
    rw [Nat.le_div_iff_mul_le filled'] at least
    rw [Nat.div_lt_iff_lt_mul filled'] at most
    rw [if_neg large, count]
    by_cases power : den ≤ num * 10 ^ d
    · rw [show Nat.pow 10 (d + 1 - 1) = 10 ^ d from rfl, if_pos power]
      refine ⟨d + 5, by omega, by omega, by omega, ?_, ?_⟩ <;> interval_cases d <;> omega
    · rw [show Nat.pow 10 (d + 1 - 1) = 10 ^ d from rfl, if_neg power]
      refine ⟨d + 6, by omega, ?_, by omega, ?_, ?_⟩ <;> interval_cases d <;> omega

end Leading

section Digits

theorem numeral_digits (filled : whole ≠ []) (digits : ∀ ch ∈ whole, ch.isDigit = true) : Numeral whole := by
  refine ⟨fun ch member => ?_, ?_, ?_⟩
  · simp [Lexer.isNumeral, digits ch member]
  · obtain ⟨ch, member⟩ := List.exists_mem_of_ne_nil whole filled
    exact ⟨ch, member, digits ch member⟩
  · rw [count_point digits]
    exact Nat.zero_le 1

theorem numeral_point (filled : whole ≠ []) (digits : ∀ ch ∈ whole, ch.isDigit = true)
    (digits' : ∀ ch ∈ fraction, ch.isDigit = true) : Numeral (whole ++ '.' :: fraction) := by
  refine ⟨fun ch member => ?_, (exists_digit digits digits').2 fun none => filled none.1, ?_⟩
  · rcases List.mem_append.1 member with member | member
    · simp [Lexer.isNumeral, digits ch member]
    · rcases List.mem_cons.1 member with rfl | member
      · rfl
      · simp [Lexer.isNumeral, digits' ch member]
  · rw [List.count_append, count_point digits, List.count_cons_self, count_point digits']

/-- A first digit that is not too far from the point is written in its place. -/
theorem numeral_positional {digits : List Char} {lead : Int} (each : ∀ ch ∈ digits, ch.isDigit = true)
    (few : digits.length ≤ 7) (least : -4 ≤ lead) (most : lead < 6) :
    Numeral (positional digits lead false).toList ∧ (positional digits lead false).toList.length ≤ 15 := by
  have zeros (n : Nat) : ∀ ch ∈ List.replicate n '0', ch.isDigit = true := by
    intro ch member
    rw [List.eq_of_mem_replicate member]
    rfl
  unfold positional
  split
  · next negative =>
    have text : ("0." ++ String.ofList (List.replicate (-lead - 1).toNat '0' ++ digits)).toList =
        ['0'] ++ '.' :: (List.replicate (-lead - 1).toNat '0' ++ digits) := by
      simp [String.toList_append]
    rw [text]
    refine ⟨numeral_point (by simp) (by simp) fun ch member => ?_, ?_⟩
    · rcases List.mem_append.1 member with member | member
      · exact zeros _ ch member
      · exact each ch member
    · simp only [List.length_append, List.length_cons, List.length_replicate, List.length_nil]
      omega
  · next positive =>
    dsimp only
    have filled : digits.take (lead.toNat + 1) ++ List.replicate (lead.toNat + 1 - digits.length) '0' ≠ [] := by
      rw [← List.length_pos_iff, List.length_append, List.length_take, List.length_replicate]
      omega
    have before : ∀ ch ∈ digits.take (lead.toNat + 1) ++ List.replicate (lead.toNat + 1 - digits.length) '0',
        ch.isDigit = true := by
      intro ch member
      rcases List.mem_append.1 member with member | member
      · exact each ch (List.mem_of_mem_take member)
      · exact zeros _ ch member
    rw [String.toList_append, String.toList_ofList]
    split
    · simp only [Bool.false_eq_true, if_false]
      rw [String.toList_empty, List.append_nil]
      refine ⟨numeral_digits filled before, ?_⟩
      simp only [List.length_append, List.length_take, List.length_replicate]
      omega
    · have behind : ("." ++ String.ofList (digits.drop (lead.toNat + 1))).toList = '.' :: digits.drop (lead.toNat + 1) := by
        simp [String.toList_append]
      rw [behind]
      refine ⟨numeral_point filled before fun ch member => each ch (List.mem_of_mem_drop member), ?_⟩
      simp only [List.length_append, List.length_take, List.length_replicate, List.length_cons, List.length_drop]
      omega

end Digits

section Writing

/-- Zeros are taken off the end of the digits, and nothing else is changed. -/
theorem normalized_digits (k : Nat) (exponent : Int) :
    let chosen := Digits.normalized ⟨k, exponent⟩
    (∀ ch ∈ chosen.1, ch.isDigit = true) ∧ chosen.1.length ≤ digitCount k ∧ chosen.2 = exponent + digitCount k - 1 := by
  have subset := (List.dropWhile_sublist (· == '0') (l := (Nat.toDigits 10 k).reverse))
  refine ⟨fun ch member => ?_, ?_, rfl⟩
  · have member' := List.mem_reverse.1 (subset.subset (List.mem_reverse.1 member))
    exact Nat.isDigit_of_mem_toDigits (by decide) (by decide) member'
  · have shorter := subset.length_le
    rw [List.length_reverse] at shorter
    rw [Digits.normalized, List.length_reverse]
    exact shorter

/-- Six or seven digits are chosen, and the exponent of the first of them is close to zero. -/
theorem significant_normalized {mantissa : Nat} {exponent : Int} (full : 2 ^ 52 ≤ mantissa) (few : mantissa < 2 ^ 53)
    (lower : -60 ≤ exponent) (upper : exponent ≤ -40) :
    let chosen := (significant 6 mantissa exponent).normalized
    (∀ ch ∈ chosen.1, ch.isDigit = true) ∧ chosen.1.length ≤ 7 ∧ -4 ≤ chosen.2 ∧ chosen.2 < 6 := by
  have wide : 2 ^ 40 ≤ 2 ^ (-exponent).toNat := Nat.pow_le_pow_right (by decide) (by omega)
  have narrow : 2 ^ (-exponent).toNat ≤ 2 ^ 60 := Nat.pow_le_pow_right (by decide) (by omega)
  obtain ⟨c, two, eight, leading, least, most⟩ :=
    leading_cases (q := ⟨mantissa, 2 ^ (-exponent).toNat⟩) (by dsimp only; omega) (by dsimp only; omega)
  dsimp only at least most
  have place : (5 - (c : Int)) - ((6 : Nat) : Int) + 1 = -c := by omega
  have chosen : significant 6 mantissa exponent =
      ⟨roundDiv (mantissa * 10 ^ c) (2 ^ (-exponent).toNat), -c⟩ := by
    simp only [significant, scaled_of_neg mantissa (show exponent < 0 by omega), leading, place, Int.neg_neg,
      Quotient.shift, Int.natCast_nonneg, if_true, Int.toNat_natCast]
    rfl
  have above : 10 ^ 5 ≤ roundDiv (mantissa * 10 ^ c) (2 ^ (-exponent).toNat) := by
    have floor := (Nat.le_div_iff_mul_le (Nat.two_pow_pos _)).2 least
    rcases roundDiv_cases (mantissa * 10 ^ c) (2 ^ (-exponent).toNat) with same | next <;> omega
  have below : roundDiv (mantissa * 10 ^ c) (2 ^ (-exponent).toNat) ≤ 10 ^ 6 := roundDiv_le most
  rw [chosen]
  generalize roundDiv (mantissa * 10 ^ c) (2 ^ (-exponent).toNat) = k at above below
  have seven := (digitCount_le_iff (n := k) (k := 7) (by decide)).2 (by omega)
  have five := mt (digitCount_le_iff (n := k) (k := 5) (by decide)).1 (by omega)
  obtain ⟨each, length, lead⟩ := normalized_digits k (-c)
  exact ⟨each, length.trans seven, by rw [lead]; omega, by rw [lead]; omega⟩

/-- A modest number is written as a numeral, with a minus sign in front of it or without. -/
theorem numeral_write (modest : Modest x) :
    ∃ (negative : Bool) (body : List Char), ((Layout.general 6).write x).toList = (if negative then ['-'] else []) ++ body ∧
      Numeral body ∧ body.length ≤ 15 := by
  have signed (negative : Bool) (body : String) :
      ((if negative then "-" else "") ++ body).toList = (if negative then ['-'] else []) ++ body.toList := by
    cases negative <;> simp [String.toList_append]
  unfold Layout.write
  rw [Binary.ofFloat_eq]
  unfold Modest at modest
  generalize x.toModel.unpack = u at modest
  rcases modest with ⟨sign, rfl⟩ | normal
  · exact ⟨sign == .negative, ['0'], signed _ "0", numeral_digits (by simp) (by simp), by decide⟩
  · cases normal with
    | @finite mantissa exponent sign filled full few lower upper =>
      obtain ⟨each, length, least, most⟩ := significant_normalized full few lower upper
      obtain ⟨numeral, short⟩ := numeral_positional each length least most
      refine ⟨sign == .negative, _, signed _ _, ?_⟩
      have positive : ¬ (mantissa == 0) = true := by simpa using filled.ne'
      have inside : (decide (-4 ≤ ((significant 6 mantissa exponent).normalized).2) &&
          decide (((significant 6 mantissa exponent).normalized).2 < 6)) = true := by simp [least, most]
      have text : (Layout.general 6).magnitude mantissa exponent =
          positional (significant 6 mantissa exponent).normalized.1 (significant 6 mantissa exponent).normalized.2 false := by
        unfold Layout.magnitude
        rw [if_neg positive]
        exact if_pos inside
      rw [text]
      exact ⟨numeral, short⟩

end Writing

end Reckoner.Decimal
