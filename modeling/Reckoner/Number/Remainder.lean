import Reckoner.Decimal.Binary

/-!
# The exact remainder of two doubles

`remainder a b` is `a` less the greatest whole multiple of `b` that fits into
it, with the sign of `a`. It is computed on the exact values, so nothing is
rounded.
-/

namespace Reckoner.Number

open Reckoner.Decimal

/-- The double `mantissa * 2 ^ exponent`, for a mantissa below `2 ^ 53` and an
exponent of at least -1074. -/
def ofMagnitude (mantissa : Nat) (exponent : Int) : Float :=
  if mantissa == 0 then 0.0
  else
    let lead := mantissa.log2
    let bits :=
      if lead + exponent < -1022 then mantissa <<< (exponent + 1074).toNat
      else (lead + exponent + 1023).toNat * hiddenBit + (mantissa <<< (52 - lead) - hiddenBit)
    Float.ofBits bits.toUInt64

/-- The remainder of two magnitudes, over their smaller exponent. -/
def magnitudeRemainder (m : Nat) (e : Int) (n : Nat) (f : Int) : Float :=
  let least := min e f
  ofMagnitude ((m <<< (e - least).toNat) % (n <<< (f - least).toNat)) least

/-- There is no remainder of an infinity or by zero; a finite number is its own
remainder by an infinity. -/
def remainder (a b : Float) : Float :=
  match Binary.ofFloat a, Binary.ofFloat b with
  | .finite _ _ _, .infinite _ => a
  | .finite negative m e, .finite _ n f =>
    if n == 0 then 0.0 / 0.0
    else
      let r := magnitudeRemainder m e n f
      if negative then -r else r
  | _, _ => 0.0 / 0.0

end Reckoner.Number
