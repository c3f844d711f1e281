import Reckoner.Decimal.Digits

/-!
# Rounding doubles to whole numbers and to decimal places

`roundPlaces` looks at the exact decimal value of the double; `roundScaled`
scales in double arithmetic first and rounds the product, which can move a
value across a tie. Both send ties to the even neighbour and keep the sign of
zero.
-/

namespace Reckoner.Decimal

/-- `x` or `-x`. -/
def withSign (negative : Bool) (x : Float) : Float :=
  if negative then -x else x

/-- `x` rounded to `places` decimal places, from its exact value. -/
def roundPlaces (places : Nat) (x : Float) : Float :=
  match Binary.ofFloat x with
  | .finite negative mantissa exponent =>
    let steps := (Quotient.scaled mantissa 2 exponent).shift places
    withSign negative (Float.ofScientific (roundDiv steps.num steps.den) true places)
  | _ => x

/-- The whole number nearest to `x`. -/
def nearestWhole (x : Float) : Float :=
  match Binary.ofFloat x with
  | .finite negative mantissa exponent =>
    let value := Quotient.scaled mantissa 2 exponent
    withSign negative (Float.ofScientific (roundDiv value.num value.den) false 0)
  | _ => x

/-- `x` rounded to `places` decimal places by scaling, rounding and scaling back. -/
def roundScaled (places : Nat) (x : Float) : Float :=
  let scale := Float.ofScientific (Nat.pow 10 places) false 0
  nearestWhole (x * scale) / scale

/-- `x` is a finite whole number. -/
def isWhole (x : Float) : Bool :=
  match Binary.ofFloat x with
  | .finite _ mantissa exponent =>
    let value := Quotient.scaled mantissa 2 exponent
    value.num % value.den == 0
  | _ => false

/-- The magnitude of a finite whole number; zero for any other double. -/
def wholeMagnitude (x : Float) : Nat :=
  match Binary.ofFloat x with
  | .finite _ mantissa exponent =>
    let value := Quotient.scaled mantissa 2 exponent
    if value.num % value.den == 0 then value.num / value.den else 0
  | _ => 0

end Reckoner.Decimal
