import Reckoner.Decimal.Places

/-!
# Powers, roots, logarithms and factorials of doubles
-/

namespace Reckoner.Number

open Reckoner.Decimal

/-- `x` to the power `y`; the power one half is the square root. -/
def power (x y : Float) : Float :=
  if y == 0.5 then x.sqrt else x.pow y

/-- `x` is a whole number that leaves one on division by two. -/
def isOdd (x : Float) : Bool :=
  isWhole x && wholeMagnitude x % 2 == 1

/-- The `n`-th root of `x`; an odd root of a negative number is negative. -/
def root (x n : Float) : Float :=
  if x < 0.0 && isOdd n then -(power (-x) (1.0 / n)) else power x (1.0 / n)

/-- The logarithm of `x` in base `b`. -/
def logBase (x b : Float) : Float :=
  x.log / b.log

/-- From here on a factorial exceeds every double. -/
def factorialLimit : Nat := 171

/-- `1 * 2 * … * n`, multiplied from the left. -/
def product (n : Nat) : Float :=
  (List.range' 2 (n - 1)).foldl (fun p k => p * k.toFloat) 1.0

/-- The factorial of a whole number that is not negative. -/
def factorial? (x : Float) : Option Float :=
  if isWhole x && !(x < 0.0) then some (product (min (wholeMagnitude x) factorialLimit)) else none

end Reckoner.Number
