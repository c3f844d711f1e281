import Reckoner.Catalog.Basic

/-!
# The standard catalog

The operators, functions and constants that every calculator starts with, in
the order of their registration.
-/

namespace Reckoner

/-- The six operators and the remainder. -/
def arithmeticEntries : List Entry :=
  [.new "add" .binary .add "a + b" none (some "+"),
    .new "subtract" .binary .subtract "a - b; -b when there is no left operand" none (some "-"),
    .new "multiply" .binary .multiply "a * b; also used for implicit multiplication" none (some "*"),
    .new "divide" .binary .divide "a / b; IEEE inf/nan on zero divisor" none (some "/"),
    .new "pow" .binary .power "a ^ b, right-associative" none (some "^"),
    .new "factorial" .suffix .factorial "n! for non-negative integers; times a juxtaposed term"
      none (some "!"),
    .new "mod" .variadic (.pairing .remainder) "mod(a, b): remainder with the sign of a"
      (some ⟨2, some 2⟩) none]

/-- Functions of one number, and the two that name a base or a degree. -/
def elementaryEntries : List Entry :=
  [.new "abs" .unary (.elementary .absolute) "absolute value" none none,
    .new "recip" .unary (.elementary .reciprocal) "1 / x" none none,
    .new "inv" .unary (.elementary .inverse) "x ^ -1" none none,
    .new "sqrt" .unary (.elementary .squareRoot) "square root" none none,
    .new "ln" .unary (.elementary .naturalLog) "natural logarithm" none none,
    .new "log" .unary (.elementary .decimalLog) "base-10 logarithm" none none,
    .new "sin" .unary (.elementary .sine) "sine (radians)" none none,
    .new "cos" .unary (.elementary .cosine) "cosine (radians)" none none,
    .new "tan" .unary (.elementary .tangent) "tangent (radians)" none none,
    .new "asin" .unary (.elementary .arcSine) "inverse sine" none none,
    .new "acos" .unary (.elementary .arcCosine) "inverse cosine" none none,
    .new "atan" .unary (.elementary .arcTangent) "inverse tangent" none none,
    .new "sec" .unary (.elementary .secant) "1 / cos(x)" none none,
    .new "csc" .unary (.elementary .cosecant) "1 / sin(x)" none none,
    .new "cot" .unary (.elementary .cotangent) "1 / tan(x)" none none,
    .new "asec" .unary (.elementary .arcSecant) "acos(1 / x)" none none,
    .new "acsc" .unary (.elementary .arcCosecant) "asin(1 / x)" none none,
    .new "acot" .unary (.elementary .arcCotangent) "atan(1 / x)" none none,
    .new "nthrt" .variadic (.pairing .root) "nthrt(x, n): n-th root of x" (some ⟨2, some 2⟩) none,
    .new "logBase" .variadic (.pairing .logBase) "logBase(x, b): logarithm of x in base b"
      (some ⟨2, some 2⟩) none]

/-- Functions of any number of arguments. -/
def aggregateEntries : List Entry :=
  [.new "sum" .variadic (.summary .total) "sum of the arguments; 0 with none" none none,
    .new "avg" .variadic (.summary .average) "arithmetic mean of the arguments"
      (some ⟨1, none⟩) none,
    .new "min" .variadic (.summary .least) "smallest argument" (some ⟨1, none⟩) none,
    .new "max" .variadic (.summary .greatest) "largest argument" (some ⟨1, none⟩) none,
    .new "count" .variadic .count "number of arguments" none none]

/-- The circle constant as the nearest double. -/
def piValue : Float := 3.141592653589793

/-- The base of the natural logarithm as the nearest double. -/
def eulerValue : Float := 2.718281828459045

def constantEntries : List Entry :=
  [.constant "pi" piValue "3.14159...",
    .constant "e" eulerValue "2.71828...",
    .new "random" .nullary .random "uniform sample in [0, 1)" none none]

/-- The standard catalog: six operators and twenty-nine functions and constants. -/
def Catalog.standard : Catalog :=
  .ofEntries (arithmeticEntries ++ elementaryEntries ++ aggregateEntries ++ constantEntries)

end Reckoner
