import Reckoner.Decimal.Binary

/-!
# Choosing decimal digits for a positive double

`shortest` takes the fewest digits that read back as the same double, and of
those the nearest to it. `significant n` rounds the exact value to `n` digits.
Both work on the exact value `mantissa * 2 ^ exponent`.
-/

namespace Reckoner.Decimal

/-- The decimal `coefficient * 10 ^ exponent`. -/
structure Digits where
  coefficient : Nat
  exponent : Int
  deriving DecidableEq, Repr

/-- The decimal digits without trailing zeros, and the exponent of the first one. -/
def Digits.normalized (d : Digits) : List Char × Int :=
  let text := Nat.toDigits 10 d.coefficient
  let trimmed := (text.reverse.dropWhile (· == '0')).reverse
  (trimmed, d.exponent + text.length - 1)

/-- The reals that round to a double lie between `low` and `high`; both ends
belong to them exactly when `closed`. -/
structure Interval where
  low : Quotient
  high : Quotient
  closed : Bool

/-- Half a step to either side of `mantissa * 2 ^ exponent`, and a quarter of a
step below a power of two, where the doubles lie twice as dense. -/
def Interval.around (mantissa : Nat) (exponent : Int) : Interval :=
  let below := if mantissa == hiddenBit && exponent != -1074 then 1 else 2
  { low := .scaled (4 * mantissa - below) 2 (exponent - 2)
    high := .scaled (4 * mantissa + 2) 2 (exponent - 2)
    closed := mantissa % 2 == 0 }

def Interval.contains (i : Interval) (q : Quotient) : Bool :=
  if i.closed then i.low.le q && q.le i.high else i.low.lt q && q.lt i.high

/-- Of the two neighbours of `value` among the multiples of `10 ^ place`, the
one inside `i` that is nearer to it; a tie goes to the even neighbour. -/
def neighbour? (i : Interval) (value : Quotient) (place : Int) : Option Digits :=
  let steps := value.shift (-place)
  let floor := steps.num / steps.den
  let inside (c : Nat) : Bool := i.contains (.scaled c 10 place)
  if inside floor then
    if inside (floor + 1) then some ⟨roundDiv steps.num steps.den, place⟩ else some ⟨floor, place⟩
  else if inside (floor + 1) then some ⟨floor + 1, place⟩
  else none

/-- Seventeen digits always read back; `shortest` tries fewer ones first. -/
def shortest (mantissa : Nat) (exponent : Int) : Digits :=
  let value := Quotient.scaled mantissa 2 exponent
  let i := Interval.around mantissa exponent
  let lead := value.leading
  let exact : Digits := ⟨roundDiv (value.shift (16 - lead)).num (value.shift (16 - lead)).den, lead - 16⟩
  ((List.range 17).findSome? fun (k : Nat) => neighbour? i value (lead - k)).getD exact

/-- `mantissa * 2 ^ exponent` rounded to `count` decimal digits. -/
def significant (count mantissa : Nat) (exponent : Int) : Digits :=
  let value := Quotient.scaled mantissa 2 exponent
  let place := value.leading - count + 1
  let steps := value.shift (-place)
  ⟨roundDiv steps.num steps.den, place⟩

end Reckoner.Decimal
