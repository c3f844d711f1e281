/-!
# The exact value of a double

`Binary.ofFloat` takes a double apart: not a number, an infinity, or a sign
with the magnitude `mantissa * 2 ^ exponent`. All decimal writing and all
exact comparisons of this library start from here, in natural numbers.
-/

namespace Reckoner.Decimal

/-- A double taken apart. A finite one is `± mantissa * 2 ^ exponent`. -/
inductive Binary where
  | nan
  | infinite (negative : Bool)
  | finite (negative : Bool) (mantissa : Nat) (exponent : Int)
  deriving DecidableEq, Repr

/-- `2 ^ 52`, the value of the bit that a normal mantissa has before its fraction. -/
def hiddenBit : Nat := 0x10000000000000

/-- Fifty-two fraction bits, eleven exponent bits, one sign bit. -/
def Binary.ofBits (bits : Nat) : Binary :=
  let fraction : Nat := bits % hiddenBit
  let biased : Nat := bits / hiddenBit % 2048
  let negative := bits / (2048 * hiddenBit) % 2 == 1
  if biased == 2047 then
    if fraction == 0 then .infinite negative else .nan
  else if biased == 0 then .finite negative fraction (-1074)
  else .finite negative (hiddenBit + fraction) (biased - 1075)

def Binary.ofFloat (x : Float) : Binary :=
  .ofBits x.toBits.toNat

/-- A positive quotient of natural numbers, not reduced. -/
structure Quotient where
  num : Nat
  den : Nat
  deriving DecidableEq, Repr

/-- `mantissa * base ^ exponent` as a quotient. -/
def Quotient.scaled (mantissa base : Nat) (exponent : Int) : Quotient :=
  if 0 ≤ exponent then ⟨mantissa * Nat.pow base exponent.toNat, 1⟩
  else ⟨mantissa, Nat.pow base (-exponent).toNat⟩

/-- `q * 10 ^ shift`. -/
def Quotient.shift (q : Quotient) (shift : Int) : Quotient :=
  if 0 ≤ shift then ⟨q.num * Nat.pow 10 shift.toNat, q.den⟩
  else ⟨q.num, q.den * Nat.pow 10 (-shift).toNat⟩

/-- `a ≤ b`, by cross multiplication. -/
def Quotient.le (a b : Quotient) : Bool :=
  a.num * b.den ≤ b.num * a.den

/-- `a < b`, by cross multiplication. -/
def Quotient.lt (a b : Quotient) : Bool :=
  a.num * b.den < b.num * a.den

/-- The natural number nearest to `num / den`; a half goes to the even neighbour. -/
def roundDiv (num den : Nat) : Nat :=
  let floor := num / den
  let twice := 2 * (num % den)
  if twice < den then floor
  else if twice == den then floor + floor % 2
  else floor + 1

/-- A rounded quotient is the floor or its successor. -/
theorem roundDiv_cases (num den : Nat) :
    roundDiv num den = num / den ∨ roundDiv num den = num / den + 1 := by
  simp only [roundDiv]
  split
  · exact .inl rfl
  · split <;> omega

/-- A tie ends on an even number. -/
theorem roundDiv_tie_even {num den : Nat} (tie : 2 * (num % den) = den) :
    roundDiv num den % 2 = 0 := by
  simp only [roundDiv, tie, Nat.lt_irrefl, if_false, beq_self_eq_true, if_true]
  omega

/-- The number of decimal digits of `n`; zero has one. -/
def digitCount (n : Nat) : Nat :=
  (Nat.toDigits 10 n).length

/-- The exponent of the leading decimal digit of a positive quotient `q`:
the greatest `l` with `10 ^ l ≤ q`. -/
def Quotient.leading (q : Quotient) : Int :=
  if q.den ≤ q.num then digitCount (q.num / q.den) - 1
  else
    let digits := digitCount (q.den / q.num)
    if q.den ≤ q.num * Nat.pow 10 (digits - 1) then 1 - digits else -digits

end Reckoner.Decimal
