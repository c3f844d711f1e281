import Reckoner.Number.Power

/-!
# The functions of one number
-/

namespace Reckoner.Number

/-- The built-in functions of one number. -/
inductive Elementary where
  | absolute
  | reciprocal
  | inverse
  | squareRoot
  | naturalLog
  | decimalLog
  | sine
  | cosine
  | tangent
  | arcSine
  | arcCosine
  | arcTangent
  | secant
  | cosecant
  | cotangent
  | arcSecant
  | arcCosecant
  | arcCotangent
  deriving DecidableEq, Repr

/-- The value at `x`. The secant family goes through the reciprocal of the
cosine family, so it is infinite where that one is zero. -/
def Elementary.apply (f : Elementary) (x : Float) : Float :=
  match f with
  | .absolute => x.abs
  | .reciprocal => 1.0 / x
  | .inverse => power x (-1.0)
  | .squareRoot => x.sqrt
  | .naturalLog => x.log
  | .decimalLog => x.log10
  | .sine => x.sin
  | .cosine => x.cos
  | .tangent => x.tan
  | .arcSine => x.asin
  | .arcCosine => x.acos
  | .arcTangent => x.atan
  | .secant => 1.0 / x.cos
  | .cosecant => 1.0 / x.sin
  | .cotangent => 1.0 / x.tan
  | .arcSecant => (1.0 / x).acos
  | .arcCosecant => (1.0 / x).asin
  | .arcCotangent => (1.0 / x).atan

end Reckoner.Number
